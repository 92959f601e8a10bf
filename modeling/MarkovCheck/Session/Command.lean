import MarkovCheck.Chain.Text
import MarkovCheck.Chain.Transient
import MarkovCheck.Formula.Memo
import MarkovCheck.Formula.Parser
import MarkovCheck.Formula.Printer

/-!
# Commands of a model-checking session

What a session can be told, and what it answers. Chains are referred to by their index, formulas,
distributions and stop signals by name.
-/

namespace MarkovCheck

/-- Settings as they are given: whatever is left out has its default. The stop signal is named. -/
structure Settings where
  method : Option Method
  tolerance : Option Float
  maxIterations : Option Nat
  signal : Option String

def Settings.default : Settings := ⟨none, none, none, none⟩

inductive DistributionSource where
  | dense (masses : Array Float)
  | masses (masses : List (Nat × Float))
  | point (s : Nat)

inductive FormulaSource where
  /-- A text in the formula language. -/
  | text (s : String)
  /-- A tree without shared parts. -/
  | tree (f : Formula.Any Float)
  /-- An operator over formulas that have names, and whose parts stay shared. -/
  | operator (op : Operator Float String)
  /-- Something whose probability interval could not be made. -/
  | invalid (e : Error Float)

inductive Command where
  | newChain
  | duplicate (c : Nat)
  | addState (c : Nat) (name : Option String) (labels : List String)
  | addLabel (c : Nat) (s : Nat) (label : String)
  | addTransition (c : Nat) (source target : Nat) (p : Float)
  | setInitial (c : Nat) (s : Nat)
  | build (c : Nat) (states : List (Option String × List String))
      (edges : List (Nat × Nat × Float))
  | overview (c : Nat)
  | text (c : Nat)
  | state (c : Nat) (s : Nat)
  | hasLabel (c : Nat) (s : Nat) (label : String)
  | idOf (c : Nat) (name : String)
  | successors (c : Nat) (s : Nat)
  | probability (c : Nat) (source target : Nat)
  | labelled (c : Nat) (label : String)
  | matrix (c : Nat)
  | validate (c : Nat) (tolerance : Option Float)
  | checkStates (c : Nat) (set : StateSet)
  | sameKey (a b : Nat)
  | sameState (a : Nat × Nat) (b : Nat × Nat)
  | dot (c : Nat) (highlight : Option StateSet) (style : DotStyle)
  | reachableFrom (c : Nat) (s : Nat)
  | reaching (c : Nat) (s : Nat)
  | component (c : Nat) (s : Nat)
  | period (c : Nat) (s : Nat)
  | anatomy (c : Nat)
  | canReach (c : Nat) (goal avoid : StateSet)
  | reach (c : Nat) (goal forbidden : StateSet) (steps : Option Nat) (settings : Settings)
  /-- Gives a signal between two computations. -/
  | cancel (signal : String)
  /-- Gives a signal during the next computation that is told about it: after that computation asked
  for it a number of times, or else when it ends. -/
  | cancelAfter (signal : String) (polls : Nat)
  | distribution (c : Nat) (source : DistributionSource) (name : Option String)
  | transient (c : Nat) (steps : Nat) (start : Option String) (name : Option String)
  | total (d : String)
  | massOf (d : String) (set : StateSet)
  | massAt (d : String) (s : Nat)
  | formula (name : String) (source : FormulaSource)
  | check (c : Nat) (f : String) (settings : Settings)
  | holdsInitially (c : Nat) (f : String)
  | path (c : Nat) (f : String) (settings : Settings)
  | pathAt (c : Nat) (f : String) (s : Nat)
  | cached (f : String)
  | reset (f : String)

structure Overview where
  states : List State
  transitions : List (Transition Float)
  initial : Option Nat
  allStates : StateSet
  version : Nat

/-- The graph-theoretical properties of a chain and of each of its states. -/
structure Anatomy where
  irreducible : Bool
  aperiodic : Bool
  ergodic : Bool
  periods : List (Option Nat)
  components : List StateSet

inductive Reply where
  | done
  | index (n : Nat)
  | index? (n : Option Nat)
  | version (v : Nat)
  | transition (t : Transition Float)
  | built (states transitions version : Nat)
  | overview (o : Overview)
  | text (s : String)
  | texts (ss : List String)
  | state? (s : Option State)
  | flag (b : Bool)
  | flag? (b : Option Bool)
  | number (a : Float)
  | numbers (v : Array Float)
  | set (s : StateSet)
  | matrix (m : Matrix Float) (sameWhenRepeated : Bool)
  | anatomy (a : Anatomy)
  | signal (before after : Bool)
  | formula (f : Formula.Any Float)
  | probabilities (hit : Bool) (v : Array Float)
  | nothing

end MarkovCheck

import MarkovCheck.Matrix.Basic

/-!
# Markov chains

A chain owns its states, numbered in the order of their creation, and its transitions, at most one
for each pair of states and ordered by source and target. It also has an identity, and a version
that every change of states, labels or transitions advances, so that `key` tells whether a result
computed earlier is still about the same content. The transition matrix is kept once it was asked
for, until the next such change.

* changes: `addState`, `addLabel`, `addTransition`, `setInitial`, `duplicate`
* queries: `state?`, `idOf?`, `successors`, `probability`, `labelled`, `transitionMatrix`
* `validate`: do the outgoing probabilities of each state sum to one?
-/

namespace MarkovCheck

/-- A state: its number, its name, and its labels in order and without repetition. -/
structure State where
  id : Nat
  name : String
  labels : List String
  deriving DecidableEq

/-- Adds a label to an ordered list of labels, unless it is there. -/
def insertLabel (label : String) : List String → List String
  | [] => [label]
  | l :: ls =>
    if label = l then l :: ls
    else if label < l then label :: l :: ls
    else l :: insertLabel label ls

/-- The labels in order and without repetition. -/
def sortLabels (labels : List String) : List String :=
  labels.foldl (fun ls l => insertLabel l ls) []

structure Transition (α : Type) where
  source : Nat
  target : Nat
  probability : α
  deriving DecidableEq

namespace Transition

variable {α : Type}

/-- Do two transitions join the same pair of states? -/
def sameEdge (t u : Transition α) : Bool :=
  decide (t.source = u.source) && decide (t.target = u.target)

def precedes (t u : Transition α) : Bool :=
  decide (t.source < u.source) || (decide (t.source = u.source) && decide (t.target < u.target))

/-- Adds a transition to an ordered list; it replaces one between the same states. -/
def insertInto (t : Transition α) : List (Transition α) → List (Transition α)
  | [] => [t]
  | u :: us =>
    if t.sameEdge u then t :: us
    else if t.precedes u then t :: u :: us
    else u :: insertInto t us

end Transition

/-- A chain's identity together with its version. -/
structure ChainKey where
  id : Nat
  version : Nat
  deriving DecidableEq

structure Chain (α : Type) where
  id : Nat
  version : Nat
  states : Array State
  transitions : List (Transition α)
  initial : Option Nat
  matrix? : Option (Matrix α)

namespace Chain

variable {α : Type}

/-- The chain without states, with the given identity. -/
def empty (id : Nat) : Chain α := ⟨id, 0, #[], [], none, none⟩

instance : Inhabited (Chain α) := ⟨empty 0⟩

def size (c : Chain α) : Nat := c.states.size

/-- What results about the chain's content depend on. -/
def key (c : Chain α) : ChainKey := ⟨c.id, c.version⟩

/-- Advances the version and forgets the matrix. -/
def touch (c : Chain α) : Chain α := { c with version := c.version + 1, matrix? := none }

def checkState (c : Chain α) (s : Nat) : Except (Error α) Unit :=
  if s < c.size then .ok () else .error (.foreignState s)

/-- Fails unless the chain has all states of the set. -/
def checkStates (c : Chain α) (set : StateSet) : Except (Error α) Unit :=
  match set.max? with
  | some s => c.checkState s
  | none => .ok ()

/-! ## Changes -/

/-- A chain of the same content with an identity of its own. -/
def duplicate (c : Chain α) (id : Nat) : Chain α :=
  { c with id := id, version := 0, matrix? := none }

/-- Adds a state, named by its number if no name is given. The first state becomes initial. -/
def addState (c : Chain α) (name : Option String) (labels : List String) : Nat × Chain α :=
  let id := c.size
  let state : State := ⟨id, name.getD (idText id), sortLabels labels⟩
  let initial := match c.initial with
    | some s => some s
    | none => some id
  (id, { c with states := c.states.push state, initial := initial }.touch)

/-- Adds a label to a state. Nothing changes if the state has it. -/
def addLabel (c : Chain α) (s : Nat) (label : String) : Except (Error α) (Chain α) :=
  match c.states[s]? with
  | none => .error (.foreignState s)
  | some state =>
    if state.labels.contains label then .ok c
    else
      let labelled := { state with labels := insertLabel label state.labels }
      .ok { c with states := c.states.setIfInBounds s labelled }.touch

/-- Adds a transition, or replaces the one between the same states. The probability is examined
before the states. -/
def addTransition [Scalar α] (c : Chain α) (source target : Nat) (p : α) :
    Except (Error α) (Transition α × Chain α) :=
  if 0 < p ∧ p ≤ 1 then do
    c.checkState source
    c.checkState target
    let t : Transition α := ⟨source, target, p⟩
    return (t, { c with transitions := t.insertInto c.transitions }.touch)
  else .error (.invalidProbability p)

/-- Chooses the initial state. The version stays. -/
def setInitial (c : Chain α) (s : Nat) : Except (Error α) (Chain α) := do
  c.checkState s
  return { c with initial := some s }

/-! ## Queries -/

def state? (c : Chain α) (s : Nat) : Option State := c.states[s]?

def idOf? (c : Chain α) (name : String) : Option Nat :=
  (c.states.find? fun s => s.name = name).map State.id

def allStates (c : Chain α) : StateSet := StateSet.full c.size

/-- The transitions that leave a state, ordered by target. -/
def successors (c : Chain α) (s : Nat) : List (Transition α) :=
  c.transitions.filter fun t => t.source = s

def transition? (c : Chain α) (source target : Nat) : Option (Transition α) :=
  c.transitions.find? fun t => t.source = source && t.target = target

/-- The probability of the transition between two states, zero if there is none. -/
@[specialize] def probability [Scalar α] (c : Chain α) (source target : Nat) : α :=
  match c.transition? source target with
  | some t => t.probability
  | none => 0

def labelled (c : Chain α) (label : String) : StateSet :=
  StateSet.ofList ((c.states.toList.filter fun s => s.labels.contains label).map State.id)

/-- The transition matrix, computed from the transitions. -/
@[specialize] def buildMatrix [Scalar α] (c : Chain α) : Matrix α :=
  c.transitions.foldl (fun m t => m.put t.source t.target t.probability)
    (Matrix.zeros c.size c.size)

/-- The transition matrix: the one that was kept, or else a new one. -/
@[specialize] def transitionMatrix [Scalar α] (c : Chain α) : Matrix α :=
  match c.matrix? with
  | some m => m
  | none => c.buildMatrix

def keepMatrix [Scalar α] (c : Chain α) : Chain α := { c with matrix? := some c.transitionMatrix }

/-- The default deviation from one that outgoing probabilities may sum to. -/
def defaultTolerance [Scalar α] : α := 1e-9

/-- Fails with the first state whose outgoing probabilities, if it has any transition, do not sum to
one within the tolerance. -/
@[specialize] def validate [Scalar α] (c : Chain α) (tolerance : α) : Except (Error α) Unit :=
  c.states.toList.forM fun s =>
    match c.successors s.id with
    | [] => .ok ()
    | ts =>
      let sum := Scalar.total (ts.map Transition.probability)
      if tolerance < Scalar.abs (sum - 1) then .error (.notStochastic s.id sum) else .ok ()

end Chain

end MarkovCheck

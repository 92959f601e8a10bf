import MarkovCheck.Chain.Text
import MarkovCheck.Chain.Transient
import MarkovCheck.Formula.Evaluation
import MarkovCheck.Formula.Parser
import MarkovCheck.Formula.Printer

/-!
# Demonstrations

Two small programs as pure functions from arguments to an exit code and a printed text.

* `Demo.check`: checks a formula against a sample protocol, in which a message is delivered with
  probability 0.9 and lost messages are sent again
* `Demo.tour`: walks through the analyses of a chain with four states
-/

namespace MarkovCheck.Demo

structure Outcome where
  code : Nat
  printed : String

/-- A computation that prints, and that may break off with an error after printing. -/
abbrev Printing := ExceptT (Error Float) (StateM String)

def line (s : String) : Printing Unit := modify (· ++ s ++ "\n")

def lift {β : Type} (r : Except (Error Float) β) : Printing β := ExceptT.mk (pure r)

/-- Runs a program. An error ends it with code one. -/
def outcome (program : Printing Unit) : Outcome :=
  match program.run "" with
  | (.ok _, printed) => ⟨0, printed⟩
  | (.error _, printed) => ⟨1, printed⟩

/-- A chain with the given states and transitions. -/
def makeChain (states : List (String × List String)) (edges : List (Nat × Nat × Float)) :
    Except (Error Float) (Chain Float) := do
  let withStates := states.foldl (fun c (name, labels) => (c.addState (some name) labels).2)
    (Chain.empty 0)
  let c ← edges.foldlM (fun c (source, target, p) => do
    let (_, c') ← c.addTransition source target p
    return c') withStates
  c.validate Chain.defaultTolerance
  return c

/-! ## Checking a formula -/

structure Arguments where
  formula : String
  dot : Bool
  iterative : Bool

namespace Arguments

/-- The formula that is checked if none is given. -/
def defaultFormula : String := "P>=0.99(true U delivered)"

/-- Arguments while they are read: the formula if it was given, and the two switches. -/
structure Partial where
  formula : Option String
  dot : Bool
  iterative : Bool

def isSwitch (arg : String) : Bool :=
  match arg.toList with
  | '-' :: _ :: _ => true
  | _ => false

/-- Reads arguments. Each switch may occur once, the formula at most once, and after two dashes
nothing counts as a switch. -/
def read : Partial → List String → Option Partial
  | a, [] => some a
  | a, "--" :: rest => positional a rest
  | a, "--dot" :: rest => if a.dot then none else read { a with dot := true } rest
  | a, "--iterative" :: rest =>
    if a.iterative then none else read { a with iterative := true } rest
  | a, arg :: rest =>
    if isSwitch arg || a.formula.isSome then none else read { a with formula := some arg } rest
where
  /-- Reads arguments of which none is a switch. -/
  positional (a : Partial) : List String → Option Partial
    | [] => some a
    | [arg] => if a.formula.isSome then none else some { a with formula := some arg }
    | _ => none

/-- The arguments of `check`, if they are acceptable. -/
def parse (args : List String) : Option Arguments :=
  (read ⟨none, false, false⟩ args).map fun a =>
    ⟨a.formula.getD defaultFormula, a.dot, a.iterative⟩

def text (a : Arguments) : String :=
  "Cli \x7b formula: " ++ Text.quoted a.formula ++ ", dot: " ++ toString a.dot ++ ", iterative: "
    ++ toString a.iterative ++ ", verbose: false \x7d"

end Arguments

def protocol : Except (Error Float) (Chain Float) :=
  makeChain
    [("start", ["init"]), ("try", []), ("lost", ["fail"]), ("delivered", ["delivered", "done"])]
    [(0, 1, 1.0), (1, 3, 0.9), (1, 2, 0.1), (2, 1, 1.0), (3, 3, 1.0)]

/-- Prints what is known about a formula on the sample protocol. -/
def report (a : Arguments) : Printing Unit := do
  line ("args = " ++ a.text)
  let c ← lift protocol
  line c.text
  let f ← lift (Formula.parse a.formula)
  line ("formula = " ++ f.formula.text)
  let o : Options Float :=
    { (Options.default : Options Float) with
      method := if a.iterative then .iterative else .direct }
  match f with
  | ⟨.state, φ⟩ =>
    let sat ← lift (c.evaluate o φ)
    line ("satisfying states: " ++ StateSet.text sat)
    match c.initial with
    | some s => line ("holds initially: " ++ toString (StateSet.contains sat s))
    | none => pure ()
    if a.dot then line (c.dot (some sat) DotStyle.default)
  | ⟨.path, ψ⟩ =>
    let probabilities ← lift (c.evaluate o ψ)
    c.states.toList.forM fun s =>
      line ("Pr[" ++ s.name ++ "] = " ++ Decimal.fixed 6 (probabilities.getD s.id 0))

/-- Checks a formula. Unacceptable arguments end it with code two and no text. -/
def check (args : List String) : Outcome :=
  match Arguments.parse args with
  | none => ⟨2, ""⟩
  | some a => outcome (report a)

/-! ## A tour of the analyses -/

def tourChain : Except (Error Float) (Chain Float) :=
  makeChain [("s1", ["a"]), ("s2", ["a"]), ("s3", ["b"]), ("s4", [])]
    [(0, 2, 0.1), (0, 1, 0.6), (1, 1, 0.8), (1, 0, 0.2), (2, 2, 1.0), (0, 3, 0.3), (3, 3, 1.0)]

def twoColumns (n : Nat) : String :=
  let digits := toString n
  if digits.length < 2 then " " ++ digits else digits

def tourReport : Printing Unit := do
  let c ← lift tourChain
  line (c.dot none DotStyle.default)
  let φ ← lift (Formula.parseState "P[0.9,1.0](a U b)")
  line ("phi = " ++ φ.text)
  let sat ← lift (c.check φ)
  line ("states satisfying phi: " ++ StateSet.text sat)
  let probabilities ← lift
    (c.reachability (StateSet.ofList [2]) StateSet.empty none Options.default)
  c.states.toList.forM fun s =>
    line ("Pr[" ++ s.name ++ " reaches s3] = " ++ Decimal.fixed 4 (probabilities.getD s.id 0))
  [1, 2, 10].forM fun steps => do
    let d ← lift (c.transientFromInitial steps)
    line ("after " ++ twoColumns steps ++ " steps: "
      ++ Text.enclosed "[" "]" (d.toList.map Decimal.pointed.text))

def tour : Outcome := outcome tourReport

end MarkovCheck.Demo

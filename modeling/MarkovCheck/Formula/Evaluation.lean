import MarkovCheck.Chain.Reachability
import MarkovCheck.Formula.Basic

/-!
# Evaluation

A state formula evaluates to the set of states that satisfy it, a path formula to its probability in
each state. `Chain.evaluate` follows the formula and keeps nothing between calls. One evaluation can
make several analyses, which ask for the signal to stop one after the other.
-/

namespace MarkovCheck

/-- What a formula of a given kind evaluates to. -/
@[reducible] def Value (α : Type) : Kind → Type
  | .state => StateSet
  | .path => Array α

namespace Chain

variable {α : Type} [Scalar α]

def requireStates (c : Chain α) : Except (Error α) Unit :=
  if c.size = 0 then .error .noStates else .ok ()

/-- The probability of being in the set after one step. -/
@[specialize]
def nextProbabilities (c : Chain α) (sat : StateSet) : Except (Error α) (Array α) := do
  let indicator ← Reachability.scatter c.size (sat.toList.map (·, 1))
  c.transitionMatrix.mulVec indicator

/-- The probability of getting to `right` through states of `left`. -/
@[specialize] def untilPolling (c : Chain α) (o : Options α) (left right : StateSet)
    (bound : Option Nat) : Polling α (Array α) :=
  c.reachabilityPolling right (left.complement c.size) bound o

@[specialize] def untilProbabilities (c : Chain α) (o : Options α) (left right : StateSet)
    (bound : Option Nat) : Except (Error α) (Array α) :=
  (c.untilPolling o left right bound).value

/-- The states whose probability lies in the interval. -/
@[specialize] def withProbabilityIn (bounds : Interval α) (probabilities : Array α) : StateSet :=
  StateSet.ofList ((List.range probabilities.size).filter fun s =>
    bounds.contains (probabilities.getD s 0))

@[specialize] def evaluatePolling (c : Chain α) (o : Options α) :
    {k : Kind} → Formula α k → Polling α (Value α k)
  | _, .top => pure c.allStates
  | _, .bot => pure StateSet.empty
  | _, .atom label => pure (c.labelled label)
  | _, .and lhs rhs => do
    let l ← c.evaluatePolling o lhs
    let r ← c.evaluatePolling o rhs
    return StateSet.inter l r
  | _, .or lhs rhs => do
    let l ← c.evaluatePolling o lhs
    let r ← c.evaluatePolling o rhs
    return StateSet.union l r
  | _, .not arg => do
    let sat ← c.evaluatePolling o arg
    return StateSet.complement sat c.size
  | _, .prob bounds path => do
    let probabilities ← c.evaluatePolling o path
    return withProbabilityIn bounds probabilities
  | _, .next arg => do
    c.requireStates
    let sat ← c.evaluatePolling o arg
    c.nextProbabilities sat
  | _, .strongUntil lhs rhs bound => do
    c.requireStates
    let l ← c.evaluatePolling o lhs
    let r ← c.evaluatePolling o rhs
    c.untilPolling o l r bound

@[specialize] def evaluate (c : Chain α) (o : Options α) {k : Kind} (f : Formula α k) :
    Except (Error α) (Value α k) :=
  (c.evaluatePolling o f).value

/-- The states that satisfy a state formula, under the default settings. -/
@[specialize] def check (c : Chain α) (φ : Formula α .state) : Except (Error α) StateSet :=
  c.evaluate Options.default φ

end Chain

end MarkovCheck

import MarkovCheck.Formula.Evaluation
import MarkovCheck.Proofs.Reachability.System

/-!
# What the value of a formula depends on

The value of a formula depends on the states, labels and transitions of a chain and on nothing else
that the chain carries: not on its identity and version, not on its initial state, and not on
whether the transition matrix was kept, as long as a kept matrix is the right one.

* `Chain.content`: a chain reduced to its states, labels and transitions
* `Chain.MatrixCurrent`: a kept matrix is the one the transitions give
* `Chain.evaluate_content`: a chain and its content give formulas the same values
-/

namespace MarkovCheck.Chain

variable {α : Type}

/-- The states, labels and transitions of a chain, with all else as in a chain just made. -/
def content (c : Chain α) : Chain α := ⟨0, 0, c.states, c.transitions, none, none⟩

variable [Scalar α]

/-- A kept matrix is the one that the transitions give. -/
def MatrixCurrent (c : Chain α) : Prop := ∀ m, c.matrix? = some m → m = c.buildMatrix

variable {c : Chain α}

theorem MatrixCurrent.transitionMatrix_eq (current : c.MatrixCurrent) :
    c.transitionMatrix = c.buildMatrix := by
  simp only [transitionMatrix]
  cases kept : c.matrix? with
  | none => rfl
  | some m => exact current m kept

theorem MatrixCurrent.transitionMatrix_content (current : c.MatrixCurrent) :
    c.content.transitionMatrix = c.transitionMatrix :=
  current.transitionMatrix_eq.symm

/-! ## Reachability -/

theorem MatrixCurrent.leaking_content (current : c.MatrixCurrent) (good : StateSet) :
    c.content.leaking good = c.leaking good := by
  simp only [leaking]
  rw [current.transitionMatrix_content]

theorem MatrixCurrent.almostSure_content (current : c.MatrixCurrent) (goal good : StateSet) :
    c.content.almostSure goal good = c.almostSure goal good := by
  simp only [almostSure]
  rw [current.leaking_content]
  rfl

theorem MatrixCurrent.partition_content (current : c.MatrixCurrent) (goal forbidden : StateSet)
    (stepBounded : Bool) :
    c.content.partition goal forbidden stepBounded = c.partition goal forbidden stepBounded := by
  simp only [partition]
  simp only [current.almostSure_content]
  rfl

theorem MatrixCurrent.equations_content (current : c.MatrixCurrent) (ones unsettled : Array Nat) :
    c.content.equations ones unsettled = c.equations ones unsettled := by
  simp only [equations]
  rw [current.transitionMatrix_content]

theorem MatrixCurrent.system_content (current : c.MatrixCurrent) (goal forbidden : StateSet)
    (stepBounded : Bool) :
    c.content.system goal forbidden stepBounded = c.system goal forbidden stepBounded := by
  simp only [system]
  simp only [current.partition_content, current.equations_content]
  rfl

theorem MatrixCurrent.reachabilityPolling_content (current : c.MatrixCurrent)
    (goal forbidden : StateSet) (steps : Option Nat) (o : Options α) :
    c.content.reachabilityPolling goal forbidden steps o =
      c.reachabilityPolling goal forbidden steps o := by
  rw [reachabilityPolling_eq, reachabilityPolling_eq, current.system_content]
  rfl

/-! ## Formulas -/

theorem MatrixCurrent.nextProbabilities_content (current : c.MatrixCurrent) (sat : StateSet) :
    c.content.nextProbabilities sat = c.nextProbabilities sat := by
  simp only [nextProbabilities]
  rw [current.transitionMatrix_content]
  rfl

theorem MatrixCurrent.untilPolling_content (current : c.MatrixCurrent) (o : Options α)
    (left right : StateSet) (bound : Option Nat) :
    c.content.untilPolling o left right bound = c.untilPolling o left right bound :=
  current.reachabilityPolling_content _ _ _ _

theorem evaluatePolling_content (current : c.MatrixCurrent) (o : Options α) {k : Kind}
    (f : Formula α k) : c.content.evaluatePolling o f = c.evaluatePolling o f := by
  induction f with
  | top | bot | atom => rfl
  | and lhs rhs left right | or lhs rhs left right =>
    rw [evaluatePolling, evaluatePolling, left, right]
  | not arg inner =>
    rw [evaluatePolling, evaluatePolling, inner]
    rfl
  | prob bounds path inner => rw [evaluatePolling, evaluatePolling, inner]
  | next arg inner =>
    rw [evaluatePolling, evaluatePolling, inner]
    -- The first test asks for the number of states, which is the same on both sides.
    simp only [current.nextProbabilities_content]
    rfl
  | strongUntil lhs rhs bound left right =>
    rw [evaluatePolling, evaluatePolling, left, right]
    simp only [current.untilPolling_content]
    rfl

/-- The value of a formula depends on the content of the chain alone. -/
theorem evaluate_content (current : c.MatrixCurrent) (o : Options α) {k : Kind}
    (f : Formula α k) : c.content.evaluate o f = c.evaluate o f :=
  congrArg Polling.value (evaluatePolling_content current o f)

end MarkovCheck.Chain

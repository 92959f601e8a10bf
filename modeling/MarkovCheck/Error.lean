import MarkovCheck.Decimal.Layout
import MarkovCheck.StateSet.Basic
import MarkovCheck.Formula.Token

/-!
# Errors

Every operation that can fail does so with an `Error`, one constructor for each cause. `misuse`
marks calls outside an operation's domain: an index out of range, vectors of the wrong length.
-/

namespace MarkovCheck

/-- The two kinds of formulas: those that hold in states and those that hold along paths. -/
inductive Kind where
  | state
  | path
  deriving DecidableEq

def Kind.text : Kind → String
  | state => "state"
  | path => "path"

inductive Error (α : Type) where
  /-- A transition probability outside `(0, 1]`. -/
  | invalidProbability (p : α)
  /-- Rows of unequal length do not make a matrix. -/
  | raggedRows
  /-- A distribution that does not fit the chain. -/
  | distributionSize (entries states : Nat)
  /-- Bounds that do not satisfy `0 ≤ lower ≤ upper ≤ 1`. -/
  | invalidInterval (lower upper : α)
  /-- A step bound that is no 64-bit natural number. -/
  | invalidStepBound (digits : List Char)
  /-- A state number that the chain does not have. -/
  | foreignState (s : Nat)
  /-- A formula of the wrong kind. -/
  | wrongKind (expected found : Kind)
  /-- The chain has no states. -/
  | noStates
  /-- Iteration used up its allowance; the last change is absent when there was no iteration. -/
  | notConverged (iterations : Nat) (change : Option α)
  /-- Outgoing probabilities that do not sum to one. -/
  | notStochastic (s : Nat) (sum : α)
  /-- A linear system without a unique solution. -/
  | singular
  /-- The computation was told to stop. -/
  | cancelled
  /-- A text that is no formula, with the byte offset of the problem. -/
  | unreadable (position : Nat) (problem : SyntaxProblem)
  /-- A call outside the operation's domain. -/
  | misuse
  deriving DecidableEq

def Error.message : Error Float → String
  | invalidProbability p =>
    "transition probability must lie in (0, 1], got " ++ Decimal.plain.text p
  | raggedRows => "invalid argument: rows have different lengths"
  | distributionSize entries states =>
    "invalid argument: distribution has " ++ toString entries ++ " entries, but the chain has "
      ++ toString states ++ " states"
  | invalidInterval lower upper =>
    "invalid bound: probability interval [" ++ Decimal.plain.text lower ++ ", "
      ++ Decimal.plain.text upper ++ "] must satisfy 0 <= lb <= ub <= 1"
  | invalidStepBound digits =>
    "invalid bound: step bound must be a non-negative integer, got " ++ String.ofList digits
  | foreignState s => "state " ++ idText s ++ " does not belong to this chain"
  | wrongKind expected found =>
    "expected a " ++ expected.text ++ " formula, found a " ++ found.text ++ " formula"
  | noStates => "the chain has no states"
  | notConverged iterations change =>
    "iteration did not converge after " ++ toString iterations ++ " iterations (last change "
      ++ (match change with
        | some d => Decimal.exponential.text d
        | none => "inf") ++ ")"
  | notStochastic s sum =>
    "outgoing probabilities of state " ++ idText s ++ " sum to " ++ Decimal.plain.text sum
      ++ ", expected 1"
  | singular => "linear system is singular"
  | cancelled => "computation was cancelled"
  | unreadable position problem =>
    "parse error at position " ++ toString position ++ ": " ++ problem.message
  | misuse => "operation applied outside its domain"

end MarkovCheck

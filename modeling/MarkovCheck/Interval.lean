import MarkovCheck.Scalar
import MarkovCheck.Error

/-!
# Probability intervals

Closed intervals with bounds in `[0, 1]`. An intersection can be empty, its lower bound then being
above the upper one.
-/

namespace MarkovCheck

/-- The closed interval from `lower` to `upper`. -/
structure Interval (α : Type) where
  lower : α
  upper : α
  deriving DecidableEq

namespace Interval

variable {α : Type} [Scalar α]

@[specialize] def inUnit (a : α) : Bool := decide (0 ≤ a) && decide (a ≤ 1)

/-- The interval with the given bounds, which have to be ordered and in `[0, 1]`. -/
@[specialize] def make (lower upper : α) : Except (Error α) (Interval α) :=
  if inUnit lower && inUnit upper && !decide (upper < lower) then .ok ⟨lower, upper⟩
  else .error (.invalidInterval lower upper)

def atLeast (p : α) : Except (Error α) (Interval α) := make p 1

def atMost (p : α) : Except (Error α) (Interval α) := make 0 p

def exactly (p : α) : Except (Error α) (Interval α) := make p p

/-- Does a number lie in the interval, ends included? -/
@[specialize]
def contains (i : Interval α) (a : α) : Bool := decide (i.lower ≤ a) && decide (a ≤ i.upper)

def inter (i j : Interval α) : Interval α :=
  ⟨Scalar.larger i.lower j.lower, Scalar.smaller i.upper j.upper⟩

def isEmpty (i : Interval α) : Bool := decide (i.upper < i.lower)

/-- The intersections of the interval with the first, the first two, … of the others. -/
def narrowings (i : Interval α) : List (Interval α) → List (Interval α)
  | [] => []
  | j :: js => i.inter j :: narrowings (i.inter j) js

def chars (i : Interval Float) : List Char :=
  '[' :: Decimal.plain.chars i.lower ++ ',' :: ' ' :: Decimal.plain.chars i.upper ++ [']']

def text (i : Interval Float) : String := String.ofList i.chars

end Interval

inductive Bounds (α : Type) where
  | between (lower upper : α)
  | atLeast (p : α)
  | atMost (p : α)
  | exactly (p : α)

def Bounds.interval {α : Type} [Scalar α] : Bounds α → Except (Error α) (Interval α)
  | between lower upper => Interval.make lower upper
  | atLeast p => Interval.atLeast p
  | atMost p => Interval.atMost p
  | exactly p => Interval.exactly p

end MarkovCheck

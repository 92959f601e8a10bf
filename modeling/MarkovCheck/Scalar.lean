/-!
# Scalars

Every numerical analysis of a chain is written once, over the class `Scalar`. It runs on
doubles, and the same text read at the rationals is the exact algorithm:

* `Scalar`: the operations, comparisons and literals that the analyses use
* `sumTo` and `total`: sums taken strictly from the left
* `clampUnit`: the nearest point of the unit interval
* instances for `Float` and `Rat`
-/

namespace MarkovCheck

/-- Numbers that probabilities can be computed with.

No law is assumed. `equal` is numerical equality, which identifies the two zeros of the doubles
and separates a NaN from itself, while `decEq` decides identity of representation.
`magnitudeLe` is a total preorder on magnitudes; it drives the choice of pivots. -/
class Scalar (α : Type) extends
    Zero α, One α, Add α, Sub α, Mul α, Div α, LT α, LE α, OfScientific α where
  decEq : DecidableEq α
  decLt : DecidableLT α
  decLe : DecidableLE α
  equal : α → α → Bool
  abs : α → α
  magnitudeLe : α → α → Bool

namespace Scalar

instance (priority := low) instDecidableEq {α : Type} [Scalar α] : DecidableEq α := Scalar.decEq

instance (priority := low) instDecidableLT {α : Type} [Scalar α] : DecidableLT α := Scalar.decLt

instance (priority := low) instDecidableLE {α : Type} [Scalar α] : DecidableLE α := Scalar.decLe

@[inline] def isZero {α : Type} [Scalar α] (a : α) : Bool := equal a 0

/-- `f 0 + f 1 + … + f (n - 1)`, associated to the left and started at zero. -/
@[specialize] def sumTo {α : Type} [Scalar α] (n : Nat) (f : Nat → α) : α :=
  n.fold (fun i _ acc => acc + f i) 0

/-- The sum of a list, associated to the left and started at zero. -/
@[specialize] def total {α : Type} [Scalar α] (xs : List α) : α :=
  xs.foldl (· + ·) 0

/-- The point of `[0, 1]` nearest to a number. A value that compares with nothing stays. -/
@[inline] def clampUnit {α : Type} [Scalar α] (a : α) : α :=
  if a < 0 then 0 else if 1 < a then 1 else a

/-- The larger of two numbers, the first one when neither is smaller. -/
@[inline] def larger {α : Type} [Scalar α] (a b : α) : α := if a < b then b else a

/-- The smaller of two numbers, the first one when neither is smaller. -/
@[inline] def smaller {α : Type} [Scalar α] (a b : α) : α := if b < a then b else a

@[simp] theorem sumTo_zero {α : Type} [Scalar α] (f : Nat → α) : sumTo 0 f = 0 := rfl

theorem sumTo_succ {α : Type} [Scalar α] (n : Nat) (f : Nat → α) :
    sumTo (n + 1) f = sumTo n f + f n := by
  simp [sumTo, Nat.fold_succ]

@[simp] theorem total_nil {α : Type} [Scalar α] : total ([] : List α) = 0 := rfl

end Scalar

/-- Doubles. Magnitudes are ordered by their bit patterns, which puts a NaN above infinity. -/
instance : Scalar Float where
  toZero := ⟨0.0⟩
  toOne := ⟨1.0⟩
  toAdd := ⟨Float.add⟩
  toSub := ⟨Float.sub⟩
  toMul := ⟨Float.mul⟩
  toDiv := ⟨Float.div⟩
  toLT := ⟨fun a b => Float.lt a b = true⟩
  toLE := ⟨fun a b => Float.le a b = true⟩
  toOfScientific := ⟨Float.ofScientific⟩
  decEq := instDecidableEqFloat
  decLt := fun a b => instDecidableEqBool (Float.lt a b) true
  decLe := fun a b => instDecidableEqBool (Float.le a b) true
  equal := Float.beq
  abs := Float.abs
  magnitudeLe := fun a b => decide (a.abs.toBits ≤ b.abs.toBits)

/-- Rationals, the exact reading of every algorithm. -/
instance : Scalar Rat where
  toZero := ⟨0⟩
  toOne := ⟨1⟩
  toAdd := Rat.instAdd
  toSub := Rat.instSub
  toMul := Rat.instMul
  toDiv := Rat.instDiv
  toLT := Rat.instLT
  toLE := Rat.instLE
  toOfScientific := Rat.instOfScientific
  decEq := instDecidableEqRat
  decLt := fun a b => Rat.instDecidableLt a b
  decLe := fun a b => Rat.instDecidableLe a b
  equal := fun a b => decide (a = b)
  abs := Rat.abs
  magnitudeLe := fun a b => decide (a.abs ≤ b.abs)

end MarkovCheck

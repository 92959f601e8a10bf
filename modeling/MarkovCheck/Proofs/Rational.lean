import Mathlib.Algebra.BigOperators.Fin
import Mathlib.Algebra.BigOperators.Ring.Finset
import Mathlib.Algebra.Order.BigOperators.Ring.Finset
import Mathlib.Algebra.Order.Field.Rat
import Mathlib.Data.Fintype.BigOperators
import Mathlib.Tactic.Linarith
import Mathlib.Tactic.Ring
import MarkovCheck.Matrix.Elimination

/-!
# Exact arithmetic

At the rationals the operations on scalars are those of an ordered field, and the sums that the
analyses take from the left are finite sums.
-/

namespace MarkovCheck

namespace Scalar

theorem sumTo_eq_sum (n : Nat) (f : Nat → ℚ) : sumTo n f = ∑ i ∈ Finset.range n, f i := by
  induction n with
  | zero => rfl
  | succ n inductionHypothesis => rw [sumTo_succ, inductionHypothesis, Finset.sum_range_succ]

theorem total_eq_sum (xs : List ℚ) : total xs = xs.sum := List.sum_eq_foldl.symm

theorem total_map_eq_sum {xs : List Nat} (distinct : xs.Nodup) (f : Nat → ℚ) :
    total (xs.map f) = ∑ x ∈ xs.toFinset, f x := by
  rw [total_eq_sum, List.sum_toFinset f distinct]

theorem clampUnit_eq (a : ℚ) : clampUnit a = max 0 (min 1 a) := by
  simp only [clampUnit]
  split
  · next negative =>
    have below : min 1 a ≤ 0 := (min_le_right 1 a).trans (le_of_lt negative)
    exact (max_eq_left below).symm
  · next nonnegative =>
    have above : 0 ≤ a := not_lt.mp nonnegative
    split
    · next large => rw [min_eq_left (le_of_lt large), max_eq_right zero_le_one]
    · next small => rw [min_eq_right (not_lt.mp small), max_eq_right above]

theorem clampUnit_of_mem {a : ℚ} (lower : 0 ≤ a) (upper : a ≤ 1) : clampUnit a = a := by
  rw [clampUnit_eq, min_eq_right upper, max_eq_right lower]

theorem abs_eq (a : ℚ) : Scalar.abs a = |a| := by
  rcases le_total 0 a with nonneg | nonpos
  · rw [abs_of_nonneg nonneg]
    exact Rat.abs_of_nonneg nonneg
  · rw [abs_of_nonpos nonpos]
    exact Rat.abs_of_nonpos nonpos

theorem larger_eq (a b : ℚ) : larger a b = max a b := by
  simp only [larger]
  split
  · next less => exact (max_eq_right (le_of_lt less)).symm
  · next notLess => exact (max_eq_left (not_lt.mp notLess)).symm

theorem isZero_iff {a : ℚ} : isZero a = true ↔ a = 0 := decide_eq_true_iff

end Scalar

namespace Matrix

/-- The terms that are left out are zero. -/
theorem sparseDot_eq_sum (n : Nat) (f g : Nat → ℚ) :
    sparseDot n f g = ∑ k ∈ Finset.range n, f k * g k := by
  simp only [sparseDot]
  induction n with
  | zero => rfl
  | succ n inductionHypothesis =>
    rw [Nat.fold_succ, inductionHypothesis, Finset.sum_range_succ]
    split
    · next zero => rw [Scalar.isZero_iff.mp zero, zero_mul, add_zero]
    · rfl

end Matrix

end MarkovCheck

import Mathlib.Data.Matrix.Mul
import Mathlib.LinearAlgebra.Matrix.Notation
import MarkovCheck.Proofs.Matrix.Entries

/-!
# Powers of matrices

Square matrices, read as matrices indexed by a finite type, form a ring. Products, products with row
vectors and powers by repeated squaring are those of the ring, so that the laws of powers apply to
them.

* `SquareMatrix`, `Matrix.square`: the entries as an element of the ring
* `Matrix.square_product`, `Matrix.square_power`: products and powers
* `Matrix.values_applyLeft`: the product with a row vector
-/

open scoped Matrix

/-- Square matrices of rational numbers, with `n` rows. -/
abbrev SquareMatrix (n : Nat) : Type := Matrix (Fin n) (Fin n) ℚ

namespace MarkovCheck.Matrix

structure IsSquare (m : Matrix ℚ) (n : Nat) : Prop where
  rows : m.rows = n
  cols : m.cols = n

def square (m : Matrix ℚ) (n : Nat) : SquareMatrix n := fun i j => m.entry i j

/-- The first numbers of an array, by their indices. -/
def values (n : Nat) (v : Array ℚ) : Fin n → ℚ := fun i => v.getD i 0

variable {m k : Matrix ℚ} {n : Nat}

theorem isSquare_identity (n : Nat) : (identity n : Matrix ℚ).IsSquare n := ⟨rfl, rfl⟩

theorem IsSquare.product (left : m.IsSquare n) (right : k.IsSquare n) : (m.product k).IsSquare n :=
  ⟨left.rows, right.cols⟩

theorem square_identity (n : Nat) : (identity n : Matrix ℚ).square n = 1 := by
  ext i j
  rw [square, identity, entry_ofFn _ i.isLt j.isLt]
  simp [Matrix.one_apply, Fin.ext_iff]

theorem square_product (left : m.IsSquare n) (right : k.IsSquare n) :
    (m.product k).square n = m.square n * k.square n := by
  ext i j
  rw [square, product, entry_ofFn _ (left.rows.symm ▸ i.isLt) (right.cols.symm ▸ j.isLt), left.cols,
    sparseDot_eq_sum, Finset.sum_range, Matrix.mul_apply]
  rfl

/-! ## Repeated squaring -/

/-- What the low bit of an exponent leaves out, the square of the base makes up for. -/
theorem pow_split {M : Type} [Monoid M] (a b : M) (e : Nat) :
    (if e % 2 = 1 then a * b else a) * (if e / 2 = 0 then b else b * b) ^ (e / 2) = a * b ^ e := by
  have half : (if e / 2 = 0 then b else b * b) ^ (e / 2) = b ^ (2 * (e / 2)) := by
    split
    · next none => rw [none, Nat.mul_zero, pow_zero]
    · rw [pow_mul, sq]
  have low : (if e % 2 = 1 then a * b else a) = a * b ^ (e % 2) := by
    rcases Nat.mod_two_eq_zero_or_one e with even | odd
    · rw [even, if_neg Nat.zero_ne_one, pow_zero, mul_one]
    · rw [odd, if_pos rfl, pow_one]
  rw [half, low, mul_assoc, ← pow_add, Nat.mod_add_div]

theorem square_powerFrom {result base : Matrix ℚ} (first : result.IsSquare n)
    (second : base.IsSquare n) (e : Nat) : (powerFrom result base e).IsSquare n ∧
      (powerFrom result base e).square n = result.square n * base.square n ^ e := by
  fun_induction powerFrom result base e with
  | case1 result base => exact ⟨first, by rw [pow_zero, mul_one]⟩
  | case2 result base e positive inductionHypothesis =>
    have low : (if e % 2 = 1 then result.product base else result).IsSquare n := by
      split
      · exact first.product second
      · exact first
    have squared : (if e / 2 = 0 then base else base.product base).IsSquare n := by
      split
      · exact second
      · exact second.product second
    simp only [dite_eq_ite] at inductionHypothesis
    obtain ⟨shape, value⟩ := inductionHypothesis low squared
    refine ⟨shape, ?_⟩
    rw [value, apply_ite (square · n), apply_ite (square · n), square_product first second,
      square_product second second]
    exact pow_split _ _ e

theorem square_power (shape : m.IsSquare n) (e : Nat) :
    (m.power e).IsSquare n ∧ (m.power e).square n = m.square n ^ e := by
  obtain ⟨squared, value⟩ := square_powerFrom (isSquare_identity n) shape e
  rw [power, shape.rows]
  exact ⟨squared, by rw [value, square_identity, one_mul]⟩

/-! ## Row vectors -/

theorem values_applyLeft (shape : m.IsSquare n) (v : Array ℚ) :
    values n (m.applyLeft v) = values n v ᵥ* m.square n := by
  funext j
  rw [values, getD_applyLeft m v (shape.cols.symm ▸ j.isLt), shape.rows, Finset.sum_range]
  rfl

/-- An array is known by its size and its numbers. -/
theorem eq_ofFn_values {v : Array ℚ} (size : v.size = n) : v = Array.ofFn (values n v) := by
  refine Array.ext (by simp [size]) ?_
  intro i inside _
  simp [values, inside]

theorem vecMul_eq_ok (shape : m.IsSquare n) {v : Array ℚ} (size : v.size = n) :
    m.vecMul v = .ok (Array.ofFn (values n v ᵥ* m.square n)) := by
  rw [vecMul, if_pos (size.trans shape.rows.symm), ← values_applyLeft shape]
  exact congrArg Except.ok (eq_ofFn_values ((size_applyLeft m v).trans shape.cols))

@[simp] theorem values_ofFn (f : Fin n → ℚ) : values n (Array.ofFn f) = f := by
  funext i
  simp [values]

end MarkovCheck.Matrix

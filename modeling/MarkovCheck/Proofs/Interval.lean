import Mathlib.Algebra.Order.Ring.Int
import Mathlib.Data.Prod.Lex
import MarkovCheck.Interval

/-!
# Intervals of doubles

An interval is made exactly if its bounds satisfy `0 ≤ lower ≤ upper ≤ 1`. The check makes other
comparisons than these three, and doubles are not a linear order: a NaN compares with nothing and
the two zeros are equal. But apart from NaNs every double has a `rank` in a linear order, and
comparing doubles is comparing ranks.

* `Double.rank`, `Double.le_iff`, `Double.lt_iff`: comparison of doubles
* `Interval.Proper`, `Interval.make_eq_ok_iff`: which intervals can be made
* `Interval.Proper.finite`: the bounds of such an interval are finite
-/

namespace MarkovCheck

namespace Double

open Float.Model

/-! ## Comparison of doubles -/

/-- The place of a number among the others: first whether it is negative, zero or positive, and
infinite or not, then its size. -/
def unpackedRank : UnpackedFloat → ℤ ×ₗ ℤ ×ₗ ℤ
  | .infinity .negative => toLex (-2, toLex (0, 0))
  | .finite .negative m e _ => toLex (-1, toLex (-e, -m))
  | .zero _ | .notANumber => toLex (0, toLex (0, 0))
  | .finite .positive m e _ => toLex (1, toLex (e, m))
  | .infinity .positive => toLex (2, toLex (0, 0))

theorem compare_neg (a b : ℤ) : compare (-a) (-b) = (compare a b).swap := by
  rw [← Std.OrientedOrd.eq_swap (a := b) (b := a)]
  simp only [compare, compareOfLessAndEq, neg_lt_neg_iff, neg_inj, eq_comm]

theorem compare_cast (m n : ℕ) : compare (m : ℤ) (n : ℤ) = compare m n := by
  simp only [compare, compareOfLessAndEq, Nat.cast_lt, Nat.cast_inj]

theorem compare_finite_negative (e e' : ℤ) (m m' : ℕ) :
    ((compare e e').then (compare m m')).swap =
      (compare (-e) (-e')).then (compare (-(m : ℤ)) (-(m' : ℤ))) := by
  rw [compare_neg e, compare_neg (m : ℤ), compare_cast, Ordering.swap_then]

theorem compare_eq_rank {a b : UnpackedFloat} (number : a ≠ .notANumber)
    (number' : b ≠ .notANumber) :
    a.compare b = some (compare (unpackedRank a) (unpackedRank b)) := by
  cases a with
  | notANumber => exact absurd rfl number
  | infinity s =>
    cases b with
    | notANumber => exact absurd rfl number'
    | infinity s' => cases s <;> cases s' <;> rfl
    | zero s' => cases s <;> rfl
    | finite s' m' e' _ => cases s <;> cases s' <;> rfl
  | zero s =>
    cases b with
    | notANumber => exact absurd rfl number'
    | infinity s' => cases s' <;> rfl
    | zero s' => rfl
    | finite s' m' e' _ => cases s' <;> rfl
  | finite s m e _ =>
    cases b with
    | notANumber => exact absurd rfl number'
    | infinity s' => cases s <;> cases s' <;> rfl
    | zero s' => cases s <;> rfl
    | finite s' m' e' _ =>
      cases s with
      | negative =>
        cases s' with
        | negative => exact congrArg some (compare_finite_negative e e' m m')
        | positive => rfl
      | positive =>
        cases s' with
        | negative => rfl
        | positive =>
          exact congrArg (fun o => some ((compare e e').then o)) (compare_cast m m').symm

def rank (x : Float) : ℤ ×ₗ ℤ ×ₗ ℤ := unpackedRank x.toModel.unpack

def IsNumber (x : Float) : Prop := x.toModel.unpack ≠ .notANumber

/-- What compares with anything is a number. -/
theorem compare_isSome {a b : UnpackedFloat} {o : Ordering} (compared : a.compare b = some o) :
    a ≠ .notANumber ∧ b ≠ .notANumber := by
  constructor
  · rintro rfl
    cases compared
  · rintro rfl
    cases a <;> cases compared

theorem le_iff {x y : Float} :
    Float.le x y = true ↔ IsNumber x ∧ IsNumber y ∧ rank x ≤ rank y := by
  have unfolded : Float.le x y = (x.toModel.unpack.compare y.toModel.unpack).any (·.isLE) :=
    Bool.decide_eq_true
  rw [unfolded, Option.any_eq_true]
  constructor
  · rintro ⟨o, compared, below⟩
    obtain ⟨number, number'⟩ := compare_isSome compared
    rw [compare_eq_rank number number'] at compared
    cases compared
    refine ⟨number, number', not_lt.mp fun above => ?_⟩
    exact Ordering.isLE_iff_ne_gt.mp below (compare_gt_iff_gt.mpr above)
  · rintro ⟨number, number', below⟩
    refine ⟨_, compare_eq_rank number number', Ordering.isLE_iff_ne_gt.mpr fun above => ?_⟩
    exact not_lt.mpr below (compare_gt_iff_gt.mp above)

theorem lt_iff {x y : Float} :
    Float.lt x y = true ↔ IsNumber x ∧ IsNumber y ∧ rank x < rank y := by
  have unfolded : Float.lt x y = (x.toModel.unpack.compare y.toModel.unpack == some .lt) :=
    Bool.decide_eq_true
  rw [unfolded, beq_iff_eq]
  constructor
  · intro compared
    obtain ⟨number, number'⟩ := compare_isSome compared
    rw [compare_eq_rank number number'] at compared
    exact ⟨number, number', compare_lt_iff_lt.mp (Option.some.inj compared)⟩
  · rintro ⟨number, number', below⟩
    exact (compare_eq_rank number number').trans (congrArg some (compare_lt_iff_lt.mpr below))

/-- A pattern with all exponent bits set is an infinity or no number. -/
theorem unpack_of_infinityBits_le {x : Float}
    (large : Decimal.infinityBits ≤ Decimal.magnitudeBits x) :
    (∃ sign, x.toModel.unpack = .infinity sign) ∨ x.toModel.unpack = .notANumber := by
  have exponent : @UnpackedFloat.unpackExponent Format.binary64 x.toModel.toBits.toBitVec =
      -1#_ := by
    apply BitVec.eq_of_toNat_eq
    rw [UnpackedFloat.unpackExponent, BitVec.toNat_cast, BitVec.extractLsb_toNat,
      Nat.shiftRight_eq_div_pow]
    change 2047 * 4503599627370496 ≤ x.toModel.toBits.toNat % 9223372036854775808 at large
    change x.toModel.toBits.toNat / 4503599627370496 % 2048 = 2047
    omega
  have unpacked : x.toModel.unpack =
      if @UnpackedFloat.unpackMantissa Format.binary64 x.toModel.toBits.toBitVec = 0#_ then
        .infinity (.ofBitVec (@UnpackedFloat.unpackSign Format.binary64 x.toModel.toBits.toBitVec))
      else .notANumber :=
    if_pos exponent
  rw [unpacked]
  split
  · exact .inl ⟨_, rfl⟩
  · exact .inr rfl

end Double

/-! ## Intervals -/

namespace Interval

/-- The bounds are in order and in the unit interval. -/
structure Proper {α : Type} [Scalar α] (i : Interval α) : Prop where
  nonneg : 0 ≤ i.lower
  ordered : i.lower ≤ i.upper
  le_one : i.upper ≤ 1

theorem inUnit_iff {α : Type} [Scalar α] {a : α} : inUnit a = true ↔ 0 ≤ a ∧ a ≤ 1 := by
  simp [inUnit]

theorem make_eq_ok {α : Type} [Scalar α] {lower upper : α} {i : Interval α} :
    make lower upper = .ok i ↔
      i = ⟨lower, upper⟩ ∧ (0 ≤ lower ∧ lower ≤ 1) ∧ (0 ≤ upper ∧ upper ≤ 1) ∧ ¬ upper < lower := by
  by_cases bounds : (0 ≤ lower ∧ lower ≤ 1) ∧ (0 ≤ upper ∧ upper ≤ 1) ∧ ¬ upper < lower
  · have accepted : (inUnit lower && inUnit upper && !decide (upper < lower)) = true := by
      simp [inUnit_iff, bounds]
    rw [make, if_pos accepted, Except.ok.injEq, eq_comm]
    exact (and_iff_left bounds).symm
  · have refused : ¬ (inUnit lower && inUnit upper && !decide (upper < lower)) = true := by
      simpa [inUnit_iff, and_assoc] using bounds
    rw [make, if_neg refused]
    constructor
    · intro made
      cases made
    · rintro ⟨_, satisfied⟩
      exact absurd satisfied bounds

/-- An interval of doubles is made exactly if it is proper. -/
theorem make_eq_ok_iff {lower upper : Float} {i : Interval Float} :
    make lower upper = .ok i ↔ i = ⟨lower, upper⟩ ∧ i.Proper := by
  rw [make_eq_ok]
  constructor
  · rintro ⟨rfl, ⟨nonneg, lowerSmall⟩, ⟨_, small⟩, inOrder⟩
    -- Both bounds are numbers, and of two numbers one is not above the other.
    have lowerNumber := (Double.le_iff.mp lowerSmall).1
    have upperNumber := (Double.le_iff.mp small).1
    refine ⟨rfl, nonneg, Double.le_iff.mpr ⟨lowerNumber, upperNumber, ?_⟩, small⟩
    exact not_lt.mp fun above => inOrder (Double.lt_iff.mpr ⟨upperNumber, lowerNumber, above⟩)
  · rintro ⟨rfl, nonneg, ordered, small⟩
    obtain ⟨zero, lowerNumber, nonnegRank⟩ := Double.le_iff.mp nonneg
    obtain ⟨_, upperNumber, orderedRank⟩ := Double.le_iff.mp ordered
    obtain ⟨_, one, smallRank⟩ := Double.le_iff.mp small
    refine ⟨rfl, ⟨nonneg, ?_⟩, ⟨?_, small⟩, ?_⟩
    · exact Double.le_iff.mpr ⟨lowerNumber, one, orderedRank.trans smallRank⟩
    · exact Double.le_iff.mpr ⟨zero, upperNumber, nonnegRank.trans orderedRank⟩
    · intro above
      exact not_lt.mpr orderedRank (Double.lt_iff.mp above).2.2

/-- A double between zero and one is finite. -/
theorem magnitudeBits_lt_of_inUnit {x : Float} (inside : inUnit x = true) :
    Decimal.magnitudeBits x < Decimal.infinityBits := by
  obtain ⟨nonneg, small⟩ := inUnit_iff.mp inside
  obtain ⟨_, number, nonnegRank⟩ := Double.le_iff.mp nonneg
  obtain ⟨_, _, smallRank⟩ := Double.le_iff.mp small
  by_contra large
  -- The infinities are below zero and above one.
  rcases Double.unpack_of_infinityBits_le (Nat.not_lt.mp large) with ⟨sign, infinite⟩ | none
  · rw [Double.rank, Double.rank, infinite] at nonnegRank smallRank
    cases sign with
    | negative => exact absurd nonnegRank (by decide)
    | positive => exact absurd smallRank (by decide)
  · exact number none

theorem Proper.finite {i : Interval Float} (proper : i.Proper) :
    Decimal.magnitudeBits i.lower < Decimal.infinityBits ∧
      Decimal.magnitudeBits i.upper < Decimal.infinityBits := by
  obtain ⟨_, lower, upper, _⟩ := make_eq_ok.mp (make_eq_ok_iff.mpr ⟨rfl, proper⟩)
  exact ⟨magnitudeBits_lt_of_inUnit (inUnit_iff.mpr lower),
    magnitudeBits_lt_of_inUnit (inUnit_iff.mpr upper)⟩

end Interval

end MarkovCheck

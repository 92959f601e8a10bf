import Mathlib.Algebra.Order.BigOperators.Ring.Finset
import Mathlib.Algebra.Order.Field.Rat
import Mathlib.Data.Finset.Max
import Mathlib.LinearAlgebra.FiniteDimensional.Lemmas
import Mathlib.Tactic.Linarith
import Mathlib.Tactic.Ring

/-!
# The maximum principle

Let mass move between finitely many states, some of it getting lost, and suppose that from each
state there is a way to lose mass. Then a quantity that nowhere exceeds its average over the next
states is nowhere positive: where it is largest it equals its average, so no mass is lost there and
it is as large in all next states, and so on along the way to a state that loses mass.

Everything that is said about the solutions of reachability equations follows from this.
-/

namespace MarkovCheck.MaximumPrinciple

variable {S : Type} (U : Finset S) (P : S → S → ℚ)

/-- There is a way inside `U` from a state to one that keeps less than all of its mass in `U`. -/
inductive Loses : S → Prop where
  | here {s : S} (short : ∑ t ∈ U, P s t < 1) : Loses s
  | along {s t : S} (inside : t ∈ U) (positive : 0 < P s t) (further : Loses t) : Loses s

/-- Mass moves between the states of `U`, none is made, and from each state some gets lost. -/
structure Lossy : Prop where
  nonneg : ∀ s t, 0 ≤ P s t
  rows : ∀ s ∈ U, ∑ t ∈ U, P s t ≤ 1
  loses : ∀ s ∈ U, Loses U P s

variable {U P}

/-- Where a quantity is largest and does not exceed its average, no mass is lost and the quantity is
as large in the next states. -/
theorem largest_spreads (nonneg : ∀ s t, 0 ≤ P s t) {z : S → ℚ} {s : S}
    (row : ∑ t ∈ U, P s t ≤ 1) (largest : ∀ t ∈ U, z t ≤ z s) (positive : 0 < z s)
    (average : z s ≤ ∑ t ∈ U, P s t * z t) :
    ∑ t ∈ U, P s t = 1 ∧ ∀ t ∈ U, 0 < P s t → z t = z s := by
  have bound : ∑ t ∈ U, P s t * z t ≤ (∑ t ∈ U, P s t) * z s := by
    rw [Finset.sum_mul]
    exact Finset.sum_le_sum fun t inside => mul_le_mul_of_nonneg_left (largest t inside) (nonneg s t)
  have full : ∑ t ∈ U, P s t = 1 := by
    have atLeast : 1 * z s ≤ (∑ t ∈ U, P s t) * z s := by linarith
    exact le_antisymm row (le_of_mul_le_mul_right atLeast positive)
  refine ⟨full, ?_⟩
  -- The differences from the largest value are not negative and have average zero.
  have defect : ∑ t ∈ U, P s t * (z s - z t) = 0 := by
    have split : ∑ t ∈ U, P s t * (z s - z t) =
        (∑ t ∈ U, P s t) * z s - ∑ t ∈ U, P s t * z t := by
      rw [Finset.sum_mul, ← Finset.sum_sub_distrib]
      exact Finset.sum_congr rfl fun t _ => mul_sub _ _ _
    refine le_antisymm ?_ (Finset.sum_nonneg fun t inside =>
      mul_nonneg (nonneg s t) (sub_nonneg.mpr (largest t inside)))
    rw [split, full]
    linarith
  intro t inside weight
  have term := (Finset.sum_eq_zero_iff_of_nonneg fun u member =>
    mul_nonneg (nonneg s u) (sub_nonneg.mpr (largest u member))).mp defect t inside
  have equal : z s - z t = 0 := (mul_eq_zero.mp term).resolve_left (ne_of_gt weight)
  linarith

/-- A quantity that nowhere exceeds its average over the next states is nowhere positive. -/
theorem Lossy.nonpos (lossy : Lossy U P) {z : S → ℚ}
    (average : ∀ s ∈ U, z s ≤ ∑ t ∈ U, P s t * z t) {s : S} (inside : s ∈ U) : z s ≤ 0 := by
  obtain ⟨top, topInside, largest⟩ := U.exists_max_image z ⟨s, inside⟩
  apply (largest s inside).trans
  -- If the largest value were positive, it would spread to all states that a way leads to.
  by_contra positive
  have spreads : ∀ t ∈ U, z t = z top →
      ∑ u ∈ U, P t u = 1 ∧ ∀ u ∈ U, 0 < P t u → z u = z top := by
    intro t member same
    have spread := largest_spreads lossy.nonneg (lossy.rows t member)
      (fun u there => same ▸ largest u there) (same ▸ not_le.mp positive) (average t member)
    rwa [same] at spread
  -- Along a way that loses mass the largest value arrives at a state that keeps all its mass.
  have never : ∀ t, Loses U P t → t ∈ U → z t ≠ z top := by
    intro t way
    induction way with
    | here short =>
      intro member same
      exact ne_of_lt short (spreads _ member same).1
    | along next weight _ inductionHypothesis =>
      intro member same
      exact inductionHypothesis next ((spreads _ member same).2 _ next weight)
  exact never top (lossy.loses top topInside) topInside rfl

/-- A quantity that everywhere equals its average over the next states is zero. -/
theorem Lossy.eq_zero (lossy : Lossy U P) {z : S → ℚ}
    (average : ∀ s ∈ U, z s = ∑ t ∈ U, P s t * z t) {s : S} (inside : s ∈ U) : z s = 0 := by
  have upper : z s ≤ 0 :=
    lossy.nonpos (fun t member => le_of_eq (average t member)) inside
  have lower : -z s ≤ 0 := by
    refine lossy.nonpos (z := fun t => -z t) ?_ inside
    intro t member
    simp only [mul_neg, Finset.sum_neg_distrib, ← average t member, le_refl]
  linarith

/-- What a function on `U` differs by from its average over the next states. -/
def defect (U : Finset S) (P : S → S → ℚ) : (U → ℚ) →ₗ[ℚ] (U → ℚ) where
  toFun v s := v s - ∑ t : U, P s t * v t
  map_add' v w := by
    funext s
    simp only [Pi.add_apply, mul_add, Finset.sum_add_distrib]
    ring
  map_smul' a v := by
    funext s
    simp only [Pi.smul_apply, smul_eq_mul, RingHom.id_apply, mul_sub, Finset.mul_sum]
    congr 1
    exact Finset.sum_congr rfl fun t _ => by ring

/-- Whatever amounts are added to the averages, some quantity equals its average over the next
states and the amount added. -/
theorem Lossy.exists_average (lossy : Lossy U P) (b : S → ℚ) :
    ∃ f : S → ℚ, ∀ s ∈ U, f s = ∑ t ∈ U, P s t * f t + b s := by
  classical
  -- A function on `U` as a function on all states.
  let spread (v : U → ℚ) (s : S) : ℚ := if inside : s ∈ U then v ⟨s, inside⟩ else 0
  have spread_apply (v : U → ℚ) (s : U) : spread v s = v s := dif_pos s.property
  have average (v : U → ℚ) (s : S) : ∑ t ∈ U, P s t * spread v t = ∑ t : U, P s t * v t := by
    rw [← Finset.sum_coe_sort U]
    exact Finset.sum_congr rfl fun t _ => by rw [spread_apply]
  -- By the maximum principle the defect vanishes only at zero, and a linear map of a
  -- finite-dimensional space into itself that is injective is surjective.
  have injective : Function.Injective (defect U P) := by
    apply (injective_iff_map_eq_zero _).mpr
    intro v zero
    funext s
    rw [← spread_apply v s]
    refine lossy.eq_zero ?_ s.property
    intro t member
    have equation : v ⟨t, member⟩ - ∑ u : U, P t u * v u = 0 := congrFun zero ⟨t, member⟩
    rw [average, ← sub_eq_zero.mp equation]
    exact spread_apply v ⟨t, member⟩
  obtain ⟨v, solved⟩ := LinearMap.injective_iff_surjective.mp injective fun s => b s
  refine ⟨spread v, ?_⟩
  intro s inside
  have equation : v ⟨s, inside⟩ - ∑ t : U, P s t * v t = b s := congrFun solved ⟨s, inside⟩
  have value : spread v s = v ⟨s, inside⟩ := spread_apply v ⟨s, inside⟩
  rw [average, value]
  linarith

end MarkovCheck.MaximumPrinciple

import Mathlib.LinearAlgebra.Matrix.DotProduct
import MarkovCheck.Proofs.Chain.Transient
import MarkovCheck.Proofs.Reachability.Partition

/-!
# Conservation of mass

Moving a distribution along a chain neither makes nor loses mass if the outgoing probabilities of
each state sum to one. If they sum to at most one, mass that is nowhere negative stays so and never
becomes more. Matrices with rows of either sort are closed under products, so that all powers of the
transition matrix have such rows, and it does not matter whether a distribution is moved by steps or
by a power.

* `Matrix.conserving`, `Matrix.dissipating`: the two sorts of matrices
* `Matrix.vecMul_dotProduct_one`, `Matrix.vecMul_dotProduct_one_le`: what they do to a total
* `Chain.Moves`: a distribution is moved to another, by either strategy
* `Chain.transient_total`: what transient analysis does to a total
-/

open scoped Matrix

namespace MarkovCheck

namespace Matrix

variable {n : Nat} {M : SquareMatrix n} {v : Fin n → ℚ}

/-- The matrices whose rows sum to one. -/
def conserving (n : Nat) : Submonoid (SquareMatrix n) where
  carrier := { M | M *ᵥ 1 = 1 }
  one_mem' := Matrix.one_mulVec 1
  mul_mem' := by
    intro M N left right
    change (M * N) *ᵥ 1 = 1
    rw [← Matrix.mulVec_mulVec, right, left]

theorem mulVec_le_mulVec (nonneg : ∀ i j, 0 ≤ M i j) {w : Fin n → ℚ} (le : v ≤ w) :
    M *ᵥ v ≤ M *ᵥ w := by
  intro i
  exact dotProduct_le_dotProduct_of_nonneg_left le (nonneg i)

/-- The matrices without negative entries whose rows sum to at most one. -/
def dissipating (n : Nat) : Submonoid (SquareMatrix n) where
  carrier := { M | (∀ i j, 0 ≤ M i j) ∧ M *ᵥ 1 ≤ 1 }
  one_mem' := by
    refine ⟨?_, le_of_eq (Matrix.one_mulVec 1)⟩
    intro i j
    rw [Matrix.one_apply]
    split
    · exact zero_le_one
    · exact le_rfl
  mul_mem' := by
    rintro M N ⟨nonneg, rows⟩ ⟨nonneg', rows'⟩
    constructor
    · intro i j
      exact Finset.sum_nonneg fun k _ => mul_nonneg (nonneg i k) (nonneg' k j)
    · calc (M * N) *ᵥ 1 = M *ᵥ (N *ᵥ 1) := (Matrix.mulVec_mulVec 1 M N).symm
        _ ≤ M *ᵥ 1 := mulVec_le_mulVec nonneg rows'
        _ ≤ 1 := rows

theorem vecMul_dotProduct_one (conserves : M ∈ conserving n) (v : Fin n → ℚ) :
    (v ᵥ* M) ⬝ᵥ 1 = v ⬝ᵥ 1 := by
  rw [← Matrix.dotProduct_mulVec]
  exact congrArg (v ⬝ᵥ ·) conserves

theorem vecMul_nonneg (dissipates : M ∈ dissipating n) (nonneg : 0 ≤ v) : 0 ≤ v ᵥ* M :=
  fun j => Finset.sum_nonneg fun i _ => mul_nonneg (nonneg i) (dissipates.1 i j)

theorem vecMul_dotProduct_one_le (dissipates : M ∈ dissipating n) (nonneg : 0 ≤ v) :
    (v ᵥ* M) ⬝ᵥ 1 ≤ v ⬝ᵥ 1 := by
  rw [← Matrix.dotProduct_mulVec]
  exact dotProduct_le_dotProduct_of_nonneg_left dissipates.2 nonneg

end Matrix

namespace Chain

variable {c : Chain ℚ} {d : Distribution ℚ}

/-- The distribution `d` is moved `k` steps to `d'`, and that by the strategy that transient
analysis prefers as well as by either of the two. -/
structure Moves (c : Chain ℚ) (k : Nat) (d d' : Distribution ℚ) : Prop where
  preferred : c.transient k d = .ok d'
  bySteps : stepBy c.transitionMatrix k d = .ok d'
  byPower : (c.transitionMatrix.pow k >>= fun power => power.vecMul d) = .ok d'

theorem WellFormed.moves (made : c.WellFormed) (nonempty : 0 < c.size) (k : Nat)
    (size : d.size = c.size) :
    c.Moves k d (Array.ofFn (Matrix.values c.size d ᵥ* c.kernel ^ k)) :=
  ⟨made.transient_eq_ok nonempty k size, stepBy_eq_ok made.isSquare_transitionMatrix k size,
    pow_vecMul_eq_ok made.isSquare_transitionMatrix k size⟩

theorem total_ofFn (f : Fin c.size → ℚ) : Distribution.total (Array.ofFn f) = f ⬝ᵥ 1 := by
  rw [Distribution.total, Scalar.total_eq_sum, Array.toList_ofFn, List.sum_ofFn]
  simp [dotProduct]

theorem total_eq (size : d.size = c.size) : d.total = Matrix.values c.size d ⬝ᵥ 1 := by
  rw [← total_ofFn, ← Matrix.eq_ofFn_values size]

theorem WellFormed.kernel_mulVec_one (made : c.WellFormed) (s : Fin c.size) :
    (c.kernel *ᵥ 1) s = c.outflow s := by
  rw [outflow, Finset.sum_range]
  change ∑ t, c.kernel s t * 1 = _
  simp only [made.kernel_apply, mul_one]

theorem WellFormed.kernel_conserving (made : c.WellFormed)
    (rows : ∀ s < c.size, c.outflow s = 1) : c.kernel ∈ Matrix.conserving c.size := by
  funext s
  rw [made.kernel_mulVec_one]
  exact rows s s.isLt

theorem WellFormed.kernel_dissipating (made : c.WellFormed)
    (rows : ∀ s < c.size, c.outflow s ≤ 1) : c.kernel ∈ Matrix.dissipating c.size := by
  constructor
  · intro s t
    rw [made.kernel_apply]
    exact made.probability_nonneg s t
  · intro s
    rw [made.kernel_mulVec_one]
    exact rows s s.isLt

/-- Moving a distribution with one mass for each state keeps its total if the outgoing probabilities
of each state sum to one. If they sum to at most one and no mass is negative, no mass becomes
negative, and the total does not grow with the number of steps. Either holds for both strategies of
transient analysis. -/
theorem transient_total (constructed : Constructed c) (nonempty : 0 < c.size)
    (size : d.size = c.size) :
    ((∀ s < c.size, c.outflow s = 1) → ∀ k, ∃ d', c.Moves k d d' ∧ d'.total = d.total) ∧
    ((∀ s < c.size, c.outflow s ≤ 1) → (∀ mass ∈ d, 0 ≤ mass) →
      (∀ k, ∃ d', c.Moves k d d' ∧ ∀ mass ∈ d', 0 ≤ mass) ∧
      ∀ j k, j ≤ k → ∃ d' d'', c.Moves j d d' ∧ c.Moves k d d'' ∧ d''.total ≤ d'.total) := by
  have made := constructed.wellFormed
  constructor
  · intro rows k
    refine ⟨_, made.moves nonempty k size, ?_⟩
    rw [total_ofFn, total_eq size]
    exact Matrix.vecMul_dotProduct_one (pow_mem (made.kernel_conserving rows) k) _
  · intro rows masses
    have dissipates (k : Nat) : c.kernel ^ k ∈ Matrix.dissipating c.size :=
      pow_mem (made.kernel_dissipating rows) k
    have nonneg : 0 ≤ Matrix.values c.size d := by
      intro s
      have inside : s.val < d.size := size.symm ▸ s.isLt
      rw [Matrix.values, Array.getD, dif_pos inside]
      exact masses _ (Array.getElem_mem inside)
    have moved (k : Nat) : 0 ≤ Matrix.values c.size d ᵥ* c.kernel ^ k :=
      Matrix.vecMul_nonneg (dissipates k) nonneg
    constructor
    · intro k
      refine ⟨_, made.moves nonempty k size, ?_⟩
      intro mass member
      obtain ⟨s, rfl⟩ := Array.mem_ofFn.mp member
      exact moved k s
    · intro j k later
      refine ⟨_, _, made.moves nonempty j size, made.moves nonempty k size, ?_⟩
      -- The later distribution is the earlier one, moved by the steps between.
      obtain ⟨i, rfl⟩ := Nat.exists_eq_add_of_le later
      rw [total_ofFn, total_ofFn, pow_add, ← Matrix.vecMul_vecMul]
      exact Matrix.vecMul_dotProduct_one_le (dissipates i) (moved j)

/-- A chain that keeps all mass, and holds some that is negative, by forty steps and so by a power;
and one that loses a quarter of the mass of a state at each step, by one step and by forty. -/
theorem transient_total_leak :
    let chain (leaves : ℚ) : Chain ℚ := ⟨0, 5, #[⟨0, "wait", []⟩, ⟨1, "done", []⟩],
      [⟨0, 0, 1 / 2⟩, ⟨0, 1, leaves⟩, ⟨1, 1, 1⟩], some 0, none⟩
    let debt : Distribution ℚ := #[2 / 5, -1 / 5]
    let full : Distribution ℚ := #[1, 1 / 3]
    Constructed (chain (1 / 2)) ∧ Constructed (chain (1 / 4)) ∧
      (∀ s < 2, (chain (1 / 2)).outflow s = 1) ∧ (∀ s < 2, (chain (1 / 4)).outflow s ≤ 1) ∧
      prefersPower 2 1 = false ∧ prefersPower 2 40 = true ∧
      (∃ d, (chain (1 / 2)).Moves 40 debt d ∧ d.total = 1 / 5) ∧
      (chain (1 / 4)).transient 1 full = .ok #[1 / 2, 7 / 12] ∧
      ∃ d, (chain (1 / 4)).Moves 40 full d ∧ (∀ mass ∈ d, 0 ≤ mass) ∧ d.total ≤ 13 / 12 := by
  intro chain debt full
  have keeps : Constructed (chain (1 / 2)) := constructed_of_addAll (by with_unfolding_all rfl)
  have leaks : Constructed (chain (1 / 4)) := constructed_of_addAll (by with_unfolding_all rfl)
  have rows : ∀ s < 2, (chain (1 / 2)).outflow s = 1 := by decide +kernel
  have shortRows : ∀ s < 2, (chain (1 / 4)).outflow s ≤ 1 := by decide +kernel
  have once : (chain (1 / 4)).transient 1 full = .ok #[1 / 2, 7 / 12] := by decide +kernel
  have kept := (transient_total keeps (d := debt) (by decide) rfl).1 rows 40
  obtain ⟨nonneg, shrinks⟩ :=
    (transient_total leaks (d := full) (by decide) rfl).2 shortRows (by decide +kernel)
  refine ⟨keeps, leaks, rows, shortRows, by decide +kernel, by decide +kernel, ?_, once, ?_⟩
  · obtain ⟨d, moves, total⟩ := kept
    exact ⟨d, moves, total.trans (by decide +kernel)⟩
  · obtain ⟨d, moves, masses⟩ := nonneg 40
    obtain ⟨early, late, first, later, le⟩ := shrinks 1 40 (by decide)
    cases once.symm.trans first.preferred
    cases moves.preferred.symm.trans later.preferred
    exact ⟨d, moves, masses, le.trans (by decide +kernel)⟩

end Chain

end MarkovCheck

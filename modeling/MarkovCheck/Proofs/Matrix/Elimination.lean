import MarkovCheck.Proofs.Matrix.Entries

/-!
# Elimination finds the only solution

At the rationals each step of the elimination keeps the solutions: exchanging equations, subtracting
a multiple of one from another, and reading one unknown off an equation whose leading coefficient is
not zero. So where elimination gives an answer, the equations have that solution and no other.
-/

namespace MarkovCheck

namespace Equation

variable {n : Nat}

def coeff (e : Equation ℚ n) (j : Fin n) : ℚ := e.coeffs[j]

/-- The numbers solve the equation. -/
def Holds (e : Equation ℚ n) (y : Fin n → ℚ) : Prop := ∑ j : Fin n, e.coeff j * y j = e.rhs

theorem holds_succ (e : Equation ℚ (n + 1)) (y : Fin (n + 1) → ℚ) :
    e.Holds y ↔ e.lead * y 0 + ∑ j : Fin n, e.coeff j.succ * y j.succ = e.rhs := by
  rw [Holds, Fin.sum_univ_succ]
  rfl

theorem coeff_eliminate (top e : Equation ℚ (n + 1)) (j : Fin n) :
    (eliminate top e).coeff j = e.coeff j.succ - e.lead / top.lead * top.coeff j.succ := by
  simp only [coeff, eliminate]
  split
  · next zero =>
    -- The multiple is zero, so nothing is subtracted.
    rw [Scalar.isZero_iff] at zero
    simp [zero, Nat.add_comm 1]
  · simp

theorem rhs_eliminate (top e : Equation ℚ (n + 1)) :
    (eliminate top e).rhs = e.rhs - e.lead / top.lead * top.rhs := by
  simp only [eliminate]
  split
  · next zero =>
    rw [Scalar.isZero_iff] at zero
    simp [zero]
  · rfl

/-- Under the equation that is subtracted, an elimination step keeps the solutions. -/
theorem holds_eliminate {top e : Equation ℚ (n + 1)} (regular : top.lead ≠ 0)
    {y : Fin (n + 1) → ℚ} (holds : top.Holds y) :
    (eliminate top e).Holds (fun j => y j.succ) ↔ e.Holds y := by
  rw [holds_succ] at holds ⊢
  -- The factor is chosen so that the leading terms cancel.
  have cancels : e.lead / top.lead * top.lead = e.lead := div_mul_cancel₀ _ regular
  have sum : ∑ j : Fin n, (eliminate top e).coeff j * y j.succ =
      ∑ j : Fin n, e.coeff j.succ * y j.succ
        - e.lead / top.lead * ∑ j : Fin n, top.coeff j.succ * y j.succ := by
    rw [Finset.mul_sum, ← Finset.sum_sub_distrib]
    apply Finset.sum_congr rfl
    intro j _
    rw [coeff_eliminate]
    ring
  rw [Holds, sum, rhs_eliminate, ← holds, mul_add, ← mul_assoc, cancels]
  constructor
  · intro equal
    linarith
  · intro equal
    linarith

theorem holds_iff_solveLead {e : Equation ℚ (n + 1)} (regular : e.lead ≠ 0)
    {y : Fin (n + 1) → ℚ} {xs : Vector ℚ n} (others : ∀ j : Fin n, y j.succ = xs[j]) :
    e.Holds y ↔ y 0 = e.solveLead xs := by
  have sum : (Scalar.sumTo n fun j => e.coeffs.toArray.getD (j + 1) 0 * xs.toArray.getD j 0) =
      ∑ j : Fin n, e.coeff j.succ * y j.succ := by
    rw [Scalar.sumTo_eq_sum, Finset.sum_range]
    apply Finset.sum_congr rfl
    intro j _
    rw [others j]
    simp [coeff]
  rw [holds_succ, solveLead, sum, eq_div_iff regular, mul_comm e.lead]
  constructor
  · intro equal
    linarith
  · intro equal
    linarith

theorem pivotThreshold_pos : (0 : ℚ) < pivotThreshold := by
  simp only [pivotThreshold]
  norm_num

theorem pivot_ne_zero {a : ℚ} (large : ¬ Scalar.abs a < pivotThreshold) : a ≠ 0 := by
  intro zero
  rw [zero] at large
  exact large pivotThreshold_pos

/-- One step of the elimination: if the equations with the first unknown eliminated have the values
`xs` as their only solution, then the leading equation and the others have these values and the one
that the leading equation gives. -/
theorem holds_iff_of_eliminate {top : Equation ℚ (n + 1)} (regular : top.lead ≠ 0)
    {others : Fin n → Equation ℚ (n + 1)} {xs : Vector ℚ n} {y : Fin (n + 1) → ℚ}
    (only : (∀ i, (eliminate top (others i)).Holds fun j => y j.succ) ↔
      ∀ j : Fin n, y j.succ = xs[j]) :
    (top.Holds y ∧ ∀ i, (others i).Holds y) ↔
      y 0 = top.solveLead xs ∧ ∀ j : Fin n, y j.succ = xs[j] := by
  constructor
  · rintro ⟨first, rest⟩
    have tail := only.mp fun i => (holds_eliminate regular first).mpr (rest i)
    exact ⟨(holds_iff_solveLead regular tail).mp first, tail⟩
  · rintro ⟨first, tail⟩
    have leading := (holds_iff_solveLead regular tail).mpr first
    exact ⟨leading, fun i => (holds_eliminate regular leading).mp (only.mpr tail i)⟩

theorem forall_mem_iff_get {k : Nat} {es : Vector (Equation ℚ k) (n + 1)} {y : Fin k → ℚ} :
    (∀ e ∈ es, e.Holds y) ↔ (es.get 0).Holds y ∧ ∀ i : Fin n, (es.get i.succ).Holds y := by
  rw [Vector.forall_mem_iff_forall_getElem]
  constructor
  · intro all
    exact ⟨all 0 n.succ_pos, fun i => all i.succ i.succ.isLt⟩
  · rintro ⟨first, others⟩ i inside
    cases i with
    | zero => exact first
    | succ i => exact others ⟨i, Nat.lt_of_succ_lt_succ inside⟩

theorem forall_eq_prepend {a : ℚ} {front : Vector ℚ 1} (only : front.toArray = #[a])
    (xs : Vector ℚ n) (fits : 1 + n = n + 1) (y : Fin (n + 1) → ℚ) :
    (∀ i : Fin (n + 1), y i = ((front ++ xs).cast fits).get i) ↔
      y 0 = a ∧ ∀ j : Fin n, y j.succ = xs[j] := by
  obtain rfl : front = #v[a] := Vector.toArray_inj.mp only
  change (∀ i : Fin (n + 1), y i = ((#v[a] ++ xs).cast fits)[i]) ↔ _
  rw [Fin.forall_fin_succ]
  simp

/-- Where elimination gives an answer, it is the only solution. -/
theorem solve_eq_some {n : Nat} {es : Vector (Equation ℚ n) n} {x : Vector ℚ n}
    (solved : solve n es = some x) (y : Fin n → ℚ) :
    (∀ e ∈ es, e.Holds y) ↔ ∀ i : Fin n, y i = x[i] := by
  induction n with
  | zero =>
    constructor
    · intro _ i
      exact i.elim0
    · intro _ e member
      obtain ⟨i, inside, _⟩ := Vector.getElem_of_mem member
      omega
  | succ n inductionHypothesis =>
    simp only [solve] at solved
    split at solved
    · cases solved
    · next large =>
      split at solved
      · cases solved
      · next xs rest =>
        cases solved
        -- Putting the pivot first changes the order of the equations alone.
        have exchanged : (∀ e ∈ es, e.Holds y) ↔ ∀ e ∈ es.swap 0 (pivot es).val, e.Holds y :=
          forall_congr' fun e => imp_congr_left (Vector.swap_perm _ _).mem_iff.symm
        have regular : ((es.swap 0 (pivot es).val).get 0).lead ≠ 0 := by
          change (es.swap 0 (pivot es).val)[0].lead ≠ 0
          rw [Vector.getElem_swap_left]
          exact pivot_ne_zero large
        -- The equations that remain are in the other unknowns only.
        have smaller := inductionHypothesis rest fun j => y j.succ
        simp only [Vector.mem_ofFn, forall_exists_index, forall_apply_eq_imp_iff] at smaller
        rw [exchanged, forall_mem_iff_get]
        exact (holds_iff_of_eliminate regular smaller).trans (forall_eq_prepend rfl xs _ y).symm

end Equation

namespace Matrix

theorem holds_equations (m : Matrix ℚ) (square : m.rows = m.cols) {b : Array ℚ} (y : Array ℚ) :
    (∀ e ∈ m.equations b, e.Holds fun j => y.getD j 0) ↔
      ∀ i < m.rows, ∑ j ∈ Finset.range m.cols, m.entry i j * y.getD j 0 = b.getD i 0 := by
  constructor
  · intro all i inside
    have holds := all _ (Vector.mem_ofFn.mpr ⟨⟨i, inside⟩, rfl⟩)
    rw [← square, Finset.sum_range]
    simpa [Equation.Holds, Equation.coeff] using holds
  · intro all e member
    obtain ⟨i, rfl⟩ := Vector.mem_ofFn.mp member
    have holds := all i i.isLt
    rw [← square, Finset.sum_range] at holds
    simpa [Equation.Holds, Equation.coeff] using holds

/-- Where elimination gives an answer, it is the only vector that the matrix takes to the right
side. -/
theorem solve_eq_ok {m : Matrix ℚ} {b x : Array ℚ} (solved : m.solve b = .ok x) (y : Array ℚ) :
    m.mulVec y = .ok b ↔ y = x := by
  simp only [solve] at solved
  split at solved
  · next fits =>
    split at solved
    · next x' found =>
      cases solved
      rw [mulVec_eq_ok, ← holds_equations m fits.1 y, Equation.solve_eq_some found]
      constructor
      · rintro ⟨size, _, entries⟩
        apply Array.ext (by simp [size, fits.1])
        intro i inside inside'
        have entry := entries ⟨i, by simpa using inside'⟩
        rwa [← Array.getElem_eq_getD] at entry
      · rintro rfl
        refine ⟨by simp [fits.1], fits.2, ?_⟩
        intro i
        simp
    · cases solved
  · cases solved

theorem solve_ne_misuse {m : Matrix ℚ} {b : Array ℚ} (square : m.rows = m.cols)
    (fits : b.size = m.rows) (regular : m.solve b ≠ .error .singular) :
    ∃ x, m.solve b = .ok x := by
  simp only [solve] at regular ⊢
  rw [if_pos ⟨square, fits⟩] at regular ⊢
  split at regular
  · next x found => exact ⟨x.toArray, rfl⟩
  · exact absurd rfl regular

end Matrix

end MarkovCheck

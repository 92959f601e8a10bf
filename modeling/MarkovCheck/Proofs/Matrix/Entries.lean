import MarkovCheck.Proofs.Rational

/-!
# Matrices by their entries

What the operations on matrices do, said through `entry`: the checked operations succeed inside the
matrix, and products with vectors have sums as their entries. Also what an array holds after values
were put in some of its places.
-/

namespace MarkovCheck.Matrix

section Access

variable {α : Type} [Scalar α]

theorem flat_lt {rows cols i j : Nat} (row : i < rows) (col : j < cols) :
    i * cols + j < rows * cols :=
  calc i * cols + j < i * cols + cols := by omega
    _ = (i + 1) * cols := by rw [Nat.succ_mul]
    _ ≤ rows * cols := Nat.mul_le_mul_right cols row

omit [Scalar α] in
theorem ofFn_congr {rows cols : Nat} {f g : Nat → Nat → α}
    (same : ∀ i < rows, ∀ j < cols, f i j = g i j) : ofFn rows cols f = ofFn rows cols g := by
  simp only [ofFn]
  congr 2
  funext k
  -- The flat index is divided by the number of columns, which is zero only in an empty matrix.
  have nonempty : 0 < cols := Nat.pos_of_ne_zero fun none => by
    subst none
    exact absurd k.isLt (by simp)
  exact same _ (Nat.div_lt_of_lt_mul (Nat.mul_comm rows cols ▸ k.isLt)) _ (Nat.mod_lt _ nonempty)

/-- Inside a matrix, different entries have different flat indices. -/
theorem flat_inj {cols i j i' j' : Nat} (inside : j < cols) (inside' : j' < cols)
    (same : i * cols + j = i' * cols + j') : i = i' ∧ j = j' := by
  have row : i = i' := by
    -- The row is the quotient of the flat index by the number of columns.
    have quotient : (j + cols * i) / cols = (j' + cols * i') / cols := by
      rw [Nat.add_comm j, Nat.add_comm j', Nat.mul_comm cols i, Nat.mul_comm cols i', same]
    simpa [Nat.add_mul_div_left _ _ (Nat.zero_lt_of_lt inside), Nat.div_eq_of_lt inside,
      Nat.div_eq_of_lt inside'] using quotient
  subst row
  exact ⟨rfl, Nat.add_left_cancel same⟩

theorem entry_put (m : Matrix α) {s t : Nat} (row : s < m.rows) (col : t < m.cols) (p : α)
    (i : Nat) {j : Nat} (inside : j < m.cols) :
    (m.put s t p).entry i j = if s = i ∧ t = j then p else m.entry i j := by
  have room : s * m.cols + t < m.data.size := by
    rw [m.size_data]
    exact flat_lt row col
  simp only [entry, put, Array.getD_eq_getD_getElem?]
  by_cases same : s = i ∧ t = j
  · obtain ⟨rfl, rfl⟩ := same
    rw [Array.getElem?_setIfInBounds_self_of_lt room, Option.getD_some, if_pos ⟨rfl, rfl⟩]
  · have apart : s * m.cols + t ≠ i * m.cols + j := fun equal =>
      same (flat_inj col inside equal)
    rw [Array.getElem?_setIfInBounds_ne apart, if_neg same]

theorem get_eq_ok (m : Matrix α) {i j : Nat} (row : i < m.rows) (col : j < m.cols) :
    m.get i j = .ok (m.entry i j) := by
  have inside : i * m.cols + j < m.data.size := by
    rw [m.size_data]
    exact flat_lt row col
  simp [get, entry, inside]

omit [Scalar α] in
theorem set_eq_ok (m : Matrix α) {i j : Nat} (row : i < m.rows) (col : j < m.cols) (a : α) :
    m.set i j a = .ok (m.put i j a) := by
  have inside : i * m.cols + j < m.data.size := by
    rw [m.size_data]
    exact flat_lt row col
  simp [set, inside]

theorem row_eq_ok (m : Matrix α) {i : Nat} (inside : i < m.rows) :
    m.row i = .ok ((List.range m.cols).map (m.entry i)) := by
  simp only [row]
  rw [if_pos]
  rw [m.size_data]
  exact Nat.mul_le_mul_right m.cols inside

theorem submatrix_eq_ok (m : Matrix α) {rows cols : Array Nat} (inRows : ∀ i ∈ rows, i < m.rows)
    (inCols : ∀ j ∈ cols, j < m.cols) : m.submatrix rows cols = .ok (m.crossings rows cols) := by
  simp only [submatrix]
  rw [if_pos]
  apply Array.all_eq_true_iff_forall_mem.mpr
  intro i row
  apply Array.all_eq_true_iff_forall_mem.mpr
  intro j col
  rw [m.size_data]
  exact decide_eq_true (flat_lt (inRows i row) (inCols j col))

end Access

/-! ## Values put in places -/

section Places

variable {β : Type}

theorem size_foldl_set (places : List Nat) (g : Nat → β) (v : Array β) :
    (places.foldl (fun v t => v.setIfInBounds t (g t)) v).size = v.size := by
  refine List.foldlRecOn places (fun (v : Array β) t => v.setIfInBounds t (g t))
    (motive := fun w => w.size = v.size) rfl ?_
  intro w size t _
  exact Array.size_setIfInBounds.trans size

theorem getElem?_foldl_set (places : List Nat) (g : Nat → β) (v : Array β) {s : Nat}
    (inside : s < v.size) :
    (places.foldl (fun v t => v.setIfInBounds t (g t)) v)[s]? =
      if s ∈ places then some (g s) else v[s]? := by
  induction places generalizing v with
  | nil => rfl
  | cons t places inductionHypothesis =>
    rw [List.foldl_cons, inductionHypothesis _ (by simpa using inside)]
    by_cases same : t = s
    · subst same
      simp [inside]
    · simp [Array.getElem?_setIfInBounds_ne same, Ne.symm same]

end Places

/-! ## Products -/

theorem getD_applyRight (m : Matrix ℚ) (v : Array ℚ) {i : Nat} (inside : i < m.rows) :
    (m.applyRight v).getD i 0 = ∑ j ∈ Finset.range m.cols, m.entry i j * v.getD j 0 := by
  simp [applyRight, inside, Scalar.sumTo_eq_sum]

theorem mulVec_eq_ok (m : Matrix ℚ) (v b : Array ℚ) :
    m.mulVec v = .ok b ↔ v.size = m.cols ∧ b.size = m.rows ∧
      ∀ i < m.rows, ∑ j ∈ Finset.range m.cols, m.entry i j * v.getD j 0 = b.getD i 0 := by
  simp only [mulVec]
  split
  · next fits =>
    constructor
    · intro returned
      cases returned
      refine ⟨fits, size_applyRight m v, ?_⟩
      intro i inside
      exact (getD_applyRight m v inside).symm
    · rintro ⟨_, size, entries⟩
      refine congrArg Except.ok (Array.ext ((size_applyRight m v).trans size.symm) ?_)
      intro i inside inside'
      have row : i < m.rows := by simpa using inside
      rw [Array.getElem_eq_getD 0, Array.getElem_eq_getD 0, getD_applyRight m v row]
      exact entries i row
  · next misfit =>
    constructor
    · intro returned
      cases returned
    · intro conditions
      exact absurd conditions.1 misfit

theorem getD_applyLeft (m : Matrix ℚ) (v : Array ℚ) {j : Nat} (inside : j < m.cols) :
    (m.applyLeft v).getD j 0 = ∑ i ∈ Finset.range m.rows, v.getD i 0 * m.entry i j := by
  simp [applyLeft, inside, sparseDot_eq_sum]

end MarkovCheck.Matrix

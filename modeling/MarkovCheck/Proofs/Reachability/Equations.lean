import MarkovCheck.Proofs.Chain.Search
import MarkovCheck.Proofs.Matrix.Elimination
import MarkovCheck.Proofs.Reachability.System

/-!
# The equations of a reachability problem

The equations that an analysis sets up range over the open states only, by their places in a list.
Here they are read back as equations over the chain: a function `f` on the open states is extended
by one to the states of probability one and by zero to all others, and it solves the equations when
its value in an open state is the average of the extension over the next states.

* `Reachability.scatter_map`, `System.assemble_map`: values put in their places
* `System.extend`, `System.average`: the extension to all states and its averages
* `System.Restricts`: the matrix and the vector are those of the listed states
* `Restricts.step_eq`, `Restricts.balance_iff`, `Restricts.assemble_eq`: what the stages of an
  analysis compute
-/

namespace MarkovCheck

/-! ## Values in places -/

namespace Reachability

variable {α : Type} [Scalar α]

/-- Scattering a function over some places gives it there, and zero elsewhere. -/
theorem scatter_map {n : Nat} {places : List Nat} (inside : ∀ s ∈ places, s < n) (g : Nat → α) :
    scatter n (places.map fun s => (s, g s)) =
      .ok (Array.ofFn fun s : Fin n => if s.val ∈ places then g s else 0) := by
  rw [scatter, if_pos (by simpa using inside), List.foldl_map]
  change Except.ok (places.foldl (fun v t => v.setIfInBounds t (g t)) (Array.replicate n 0)) = _
  refine congrArg Except.ok (Array.ext_getElem? ?_)
  intro s
  by_cases own : s < n
  · rw [Matrix.getElem?_foldl_set places g _ (by simpa using own)]
    by_cases member : s ∈ places
    · simp [member, own]
    · simp [member, own]
  · rw [Array.getElem?_eq_none (by simpa [Matrix.size_foldl_set] using own),
      Array.getElem?_eq_none (by simpa using own)]

end Reachability

namespace System

variable {α : Type} [Scalar α]

/-- A vector lists the values of a function in different states. -/
theorem exists_values {rest : List Nat} (nodup : rest.Nodup) {y : Array α}
    (size : y.size = rest.length) : ∃ f : Nat → α, y = (rest.map f).toArray := by
  refine ⟨fun s => y.getD (rest.idxOf s) 0, ?_⟩
  apply Array.ext (by simp [size])
  intro i inside _
  have place := nodup.idxOf_getElem i (size ▸ inside)
  simp [place, inside]

/-- The assembled values: one in the states of probability one, those of the function, clamped, in
the open states, and zero elsewhere. -/
theorem assemble_map {system : System α} {n : Nat} (ownOnes : ∀ s ∈ system.ones, s < n)
    (ownRest : ∀ s ∈ system.rest, s < n) (disjoint : ∀ s ∈ system.rest, s ∉ system.ones)
    (f : Nat → α) :
    system.assemble n (system.rest.map f).toArray =
      .ok (Array.ofFn fun s : Fin n =>
        if s.val ∈ system.ones then 1
        else if s.val ∈ system.rest then Scalar.clampUnit (f s) else 0) := by
  -- Both lists give their places the values of one function, so scattering them is scattering it.
  let g (s : Nat) : α := if s ∈ system.ones then 1 else Scalar.clampUnit (f s)
  have ones : (system.ones.map fun s => (s, (1 : α))) = system.ones.map fun s => (s, g s) := by
    apply List.map_congr_left
    intro s member
    simp [g, member]
  have rest : system.rest.zip ((system.rest.map f).toArray.toList.map Scalar.clampUnit) =
      system.rest.map fun s => (s, g s) := by
    rw [List.map_map, ← List.map_prod_left_eq_zip]
    apply List.map_congr_left
    intro s member
    simp [g, disjoint s member]
  rw [assemble, ones, rest, ← List.map_append, Reachability.scatter_map]
  · refine congrArg Except.ok (congrArg Array.ofFn (funext ?_))
    intro s
    by_cases one : s.val ∈ system.ones
    · simp [g, one]
    · simp [g, one]
  · intro s member
    cases List.mem_append.mp member with
    | inl one => exact ownOnes s one
    | inr open_ => exact ownRest s open_

end System

/-! ## Equations over listed states -/

namespace System

/-- The function extended to all states: one in the states of probability one, and zero in the
states that are neither of probability one nor open. -/
def extend (system : System ℚ) (f : Nat → ℚ) (s : Nat) : ℚ :=
  if s ∈ system.ones then 1 else if s ∈ system.rest then f s else 0

def average (system : System ℚ) (c : Chain ℚ) (f : Nat → ℚ) (s : Nat) : ℚ :=
  ∑ t ∈ Finset.range c.size, c.probability s t * system.extend f t

/-- The matrix of the equations, `I - A`. -/
def balance (system : System ℚ) : Matrix ℚ :=
  Matrix.ofFn system.vector.size system.vector.size fun i j =>
    (if i = j then (1 : ℚ) else 0) - system.matrix.entry i j

/-- The equations of some states of a chain. -/
def restricted (c : Chain ℚ) (ones rest : List Nat) : System ℚ where
  ones := ones
  rest := rest
  matrix := Matrix.ofFn rest.length rest.length fun i j =>
    c.probability (rest.getD i 0) (rest.getD j 0)
  vector := (rest.map fun s => ∑ t ∈ ones.toFinset, c.probability s t).toArray

/-- The equations are those of different own states of the chain. -/
structure Restricts (system : System ℚ) (c : Chain ℚ) : Prop where
  ownOnes : ∀ s ∈ system.ones, s < c.size
  ownRest : ∀ s ∈ system.rest, s < c.size
  nodupRest : system.rest.Nodup
  disjoint : ∀ s ∈ system.rest, s ∉ system.ones
  matrix : system.matrix = (restricted c system.ones system.rest).matrix
  vector : system.vector = (restricted c system.ones system.rest).vector

namespace Restricts

variable {system : System ℚ} {c : Chain ℚ}

theorem extend_of_rest (restricts : system.Restricts c) (f : Nat → ℚ) {s : Nat}
    (open_ : s ∈ system.rest) : system.extend f s = f s := by
  rw [extend, if_neg (restricts.disjoint s open_), if_pos open_]

/-- The average, as the part over the open states and the mass that flows straight into states of
probability one. -/
theorem average_eq (restricts : system.Restricts c) (f : Nat → ℚ) (s : Nat) :
    system.average c f s =
      ∑ t ∈ system.rest.toFinset, c.probability s t * f t +
        ∑ t ∈ system.ones.toFinset, c.probability s t := by
  -- The extension is zero outside the listed states, so the sum splits over the two lists.
  have apart : Disjoint system.rest.toFinset system.ones.toFinset := by
    apply Finset.disjoint_left.mpr
    intro t open_ one
    exact restricts.disjoint t (List.mem_toFinset.mp open_) (List.mem_toFinset.mp one)
  have inside : system.rest.toFinset ∪ system.ones.toFinset ⊆ Finset.range c.size := by
    intro t member
    cases Finset.mem_union.mp member with
    | inl open_ => exact Finset.mem_range.mpr (restricts.ownRest t (List.mem_toFinset.mp open_))
    | inr one => exact Finset.mem_range.mpr (restricts.ownOnes t (List.mem_toFinset.mp one))
  rw [average, ← Finset.sum_subset inside, Finset.sum_union apart]
  · congr 1
    · apply Finset.sum_congr rfl
      intro t member
      have open_ : t ∈ system.rest := List.mem_toFinset.mp member
      rw [restricts.extend_of_rest f open_]
    · apply Finset.sum_congr rfl
      intro t member
      rw [extend, if_pos (List.mem_toFinset.mp member), mul_one]
  · intro t _ outside
    rw [Finset.mem_union, List.mem_toFinset, List.mem_toFinset, not_or] at outside
    rw [extend, if_neg outside.2, if_neg outside.1, mul_zero]

theorem size_vector (restricts : system.Restricts c) :
    system.vector.size = system.rest.length := by
  rw [restricts.vector, restricted]
  simp

theorem sum_places (restricts : system.Restricts c) (f : Nat → ℚ) {i : Nat}
    (inside : i < system.rest.length) :
    ∑ j ∈ Finset.range system.rest.length,
        system.matrix.entry i j * (system.rest.map f).toArray.getD j 0 =
      ∑ t ∈ system.rest.toFinset, c.probability (system.rest.getD i 0) t * f t := by
  rw [Finset.sum_range, List.sum_toFinset _ restricts.nodupRest, ← Fin.sum_univ_fun_getElem]
  apply Finset.sum_congr rfl
  intro j _
  rw [restricts.matrix, restricted, Matrix.entry_ofFn _ inside j.isLt]
  simp

/-- A step takes the averages. -/
theorem step_eq (restricts : system.Restricts c) (f : Nat → ℚ) :
    Reachability.step system.matrix system.vector (system.rest.map f).toArray =
      .ok (system.rest.map (system.average c f)).toArray := by
  have rows : system.matrix.rows = system.rest.length := by rw [restricts.matrix]; rfl
  have cols : system.matrix.cols = system.rest.length := by rw [restricts.matrix]; rfl
  have product : system.matrix.mulVec (system.rest.map f).toArray =
      .ok (system.rest.map fun s =>
        ∑ t ∈ system.rest.toFinset, c.probability s t * f t).toArray := by
    refine (Matrix.mulVec_eq_ok _ _ _).mpr ⟨by simp [cols], by simp [rows], ?_⟩
    intro i inside
    rw [rows] at inside
    rw [cols, restricts.sum_places f inside]
    simp [inside]
  refine Outcome.bind_eq_ok.mpr ⟨_, product, ?_⟩
  apply congrArg Except.ok
  rw [restricts.vector, restricted]
  simp [restricts.average_eq]

theorem sum_balance (restricts : system.Restricts c) (f : Nat → ℚ) {i : Nat}
    (inside : i < system.rest.length) :
    ∑ j ∈ Finset.range system.rest.length,
        system.balance.entry i j * (system.rest.map f).toArray.getD j 0 =
      f (system.rest.getD i 0) -
        ∑ t ∈ system.rest.toFinset, c.probability (system.rest.getD i 0) t * f t := by
  have size := restricts.size_vector
  rw [← restricts.sum_places f inside]
  -- A row of `I - A` is the value itself less the average over the open states.
  have terms : ∀ j ∈ Finset.range system.rest.length,
      system.balance.entry i j * (system.rest.map f).toArray.getD j 0 =
        (if i = j then (system.rest.map f).toArray.getD j 0 else 0) -
          system.matrix.entry i j * (system.rest.map f).toArray.getD j 0 := by
    intro j member
    have below : j < system.rest.length := Finset.mem_range.mp member
    rw [balance, Matrix.entry_ofFn _ (by omega) (by omega), sub_mul, ite_mul, one_mul, zero_mul]
  rw [Finset.sum_congr rfl terms, Finset.sum_sub_distrib, Finset.sum_ite_eq,
    if_pos (Finset.mem_range.mpr inside)]
  simp [inside]

/-- A function solves the equations exactly when its values in the open states are the averages. -/
theorem balance_iff (restricts : system.Restricts c) (f : Nat → ℚ) :
    system.balance.mulVec (system.rest.map f).toArray = .ok system.vector ↔
      ∀ s ∈ system.rest, f s = system.average c f s := by
  have rows : system.balance.rows = system.rest.length := restricts.size_vector
  have cols : system.balance.cols = system.rest.length := restricts.size_vector
  have mass {i : Nat} (inside : i < system.rest.length) : system.vector.getD i 0 =
      ∑ t ∈ system.ones.toFinset, c.probability (system.rest.getD i 0) t := by
    rw [restricts.vector, restricted]
    simp [inside]
  rw [Matrix.mulVec_eq_ok, rows, cols, List.forall_mem_iff_forall_getElem]
  constructor
  · rintro ⟨_, _, solved⟩ i inside
    have equation := solved i inside
    rw [restricts.sum_balance f inside, mass inside] at equation
    rw [List.getElem_eq_getD 0, restricts.average_eq]
    linarith
  · intro averages
    refine ⟨by simp, restricts.size_vector, ?_⟩
    intro i inside
    have average := averages i inside
    rw [List.getElem_eq_getD 0, restricts.average_eq] at average
    rw [restricts.sum_balance f inside, mass inside]
    linarith

theorem assemble_eq (restricts : system.Restricts c) (f : Nat → ℚ) :
    system.assemble c.size (system.rest.map f).toArray =
      .ok (Array.ofFn fun s : Fin c.size =>
        system.extend (fun s => Scalar.clampUnit (f s)) s) :=
  assemble_map restricts.ownOnes restricts.ownRest restricts.disjoint f

/-- Values in the unit interval need no clamping. -/
theorem assemble_of_unit (restricts : system.Restricts c) {f : Nat → ℚ}
    (unit : ∀ s ∈ system.rest, 0 ≤ f s ∧ f s ≤ 1) :
    system.assemble c.size (system.rest.map f).toArray =
      .ok (Array.ofFn fun s : Fin c.size => system.extend f s) := by
  rw [restricts.assemble_eq]
  refine congrArg Except.ok (congrArg Array.ofFn (funext ?_))
  intro s
  by_cases open_ : s.val ∈ system.rest
  · obtain ⟨nonneg, atMost⟩ := unit s open_
    rw [restricts.extend_of_rest _ open_, restricts.extend_of_rest _ open_,
      Scalar.clampUnit_of_mem nonneg atMost]
  · simp [extend, open_]

end Restricts

end System

end MarkovCheck

import MarkovCheck.Proofs.Chain.Search

/-!
# Walks and components

A walk follows transitions from one state to another, and its length counts them. The forward and
the backward search find the ends and the starts of walks, so a component holds the states with
walks in both directions.

* `Chain.Walk`, `Chain.Linked`: walks of a length, walks in both directions
* `Chain.WellFormed.contains_reachableFrom`, `Chain.WellFormed.contains_reachingOwn`: what the two
  searches find
* `Chain.WellFormed.contains_componentOwn`: the states of a component
* `Chain.WellFormed.isIrreducible_iff`: when the component of a state is the whole chain
-/

namespace MarkovCheck.Chain

variable {α : Type} {c : Chain α} {s t u : Nat}

/-- There is a walk from `s` to a state, of a length. -/
inductive Walk (c : Chain α) (s : Nat) : Nat → Nat → Prop where
  | nil : Walk c s s 0
  | snoc {t u n : Nat} (walk : Walk c s t n) (edge : c.Edge t u) : Walk c s u (n + 1)

theorem Walk.append {m n : Nat} (first : c.Walk s t m) (second : c.Walk t u n) :
    c.Walk s u (m + n) := by
  induction second with
  | nil => exact first
  | snoc _ edge inductionHypothesis => exact inductionHypothesis.snoc edge

/-- There are walks between the states in both directions. -/
structure Linked (c : Chain α) (s t : Nat) : Prop where
  there : ∃ n, c.Walk s t n
  back : ∃ n, c.Walk t s n

theorem linked_refl (s : Nat) : c.Linked s s := ⟨⟨0, .nil⟩, ⟨0, .nil⟩⟩

theorem Linked.symm (linked : c.Linked s t) : c.Linked t s := ⟨linked.back, linked.there⟩

theorem Linked.trans (first : c.Linked s t) (second : c.Linked t u) : c.Linked s u := by
  obtain ⟨⟨m, there⟩, ⟨m', back⟩⟩ := first
  obtain ⟨⟨n, onward⟩, ⟨n', returning⟩⟩ := second
  exact ⟨⟨m + n, there.append onward⟩, ⟨n' + m', returning.append back⟩⟩

/-- The state before the last on a walk to a linked state is linked. -/
theorem Linked.before {n : Nat} (linked : c.Linked s u) (walk : c.Walk s t n)
    (edge : c.Edge t u) : c.Linked s t := by
  obtain ⟨m, back⟩ := linked.back
  exact ⟨⟨n, walk⟩, 0 + 1 + m, (Walk.nil.snoc edge).append back⟩

/-! ## The searches -/

theorem leads_univ : c.Leads Set.univ s t ↔ ∃ n, c.Walk s t n := by
  constructor
  · intro leads
    induction leads with
    | refl => exact ⟨0, .nil⟩
    | tail _ step inductionHypothesis =>
      obtain ⟨n, walk⟩ := inductionHypothesis
      exact ⟨n + 1, walk.snoc step.2⟩
  · rintro ⟨n, walk⟩
    induction walk with
    | nil => exact .refl
    | snoc _ edge inductionHypothesis => exact inductionHypothesis.tail ⟨trivial, edge⟩

theorem contains_forwardRound {visited : StateSet} :
    (c.forwardRound visited).contains t = true ↔
      visited.contains t = true ∨ ∃ s, visited.contains s = true ∧ c.Edge s t := by
  rw [forwardRound, StateSet.contains_extend, Bool.or_eq_true, or_comm, List.contains_iff_mem,
    List.mem_map]
  apply or_congr_right
  constructor
  · rintro ⟨transition, member, rfl⟩
    obtain ⟨present, before⟩ := List.mem_filter.mp member
    exact ⟨_, before, transition, present, rfl, rfl⟩
  · rintro ⟨s, before, transition, present, rfl, rfl⟩
    exact ⟨transition, List.mem_filter.mpr ⟨present, before⟩, rfl⟩

variable [Scalar α]

theorem WellFormed.isRound_forwardRound (made : c.WellFormed) :
    IsRound c.size c.forwardRound where
  grows := fun s x member => contains_forwardRound.mpr (.inl member)
  within := by
    intro s within x member
    obtain old | ⟨_, _, edge⟩ := contains_forwardRound.mp member
    · exact within x old
    · exact (made.edge_own edge).2
  counted := fun s counted => counted.extend _

/-- The forward search finds the ends of the walks from a state. -/
theorem WellFormed.contains_reachableFrom (made : c.WellFormed) (own : s < c.size) :
    (c.reachableFrom s).contains t = true ↔ ∃ n, c.Walk s t n := by
  have contains_start {x : Nat} :
      ((StateSet.withCapacity c.size).insert s).contains x = true ↔ x = s := by
    simp [eq_comm]
  rw [reachableFrom, if_pos own]
  constructor
  · -- A round visits only ends of walks, if it starts from such states.
    let Sound (visited : StateSet) : Prop := ∀ x, visited.contains x = true → ∃ n, c.Walk s x n
    have kept : ∀ visited, Sound visited → Sound (c.forwardRound visited) := by
      intro visited sound x member
      obtain old | ⟨y, before, edge⟩ := contains_forwardRound.mp member
      · exact sound x old
      · obtain ⟨n, walk⟩ := sound y before
        exact ⟨n + 1, walk.snoc edge⟩
    have start : Sound ((StateSet.withCapacity c.size).insert s) := by
      intro x member
      rw [contains_start.mp member]
      exact ⟨0, .nil⟩
    exact saturate_induction kept c.size start t
  · -- Conversely a walk is followed: a further round visits its next state.
    have closed (x : Nat) := saturate_closed (x := x) made.isRound_forwardRound
      (fun x member => contains_start.mp member ▸ own)
      ((StateSet.counted_withCapacity c.size).insert s) (Nat.le_add_right c.size _)
    have kept : ∀ visited : StateSet, visited.contains s = true →
        (c.forwardRound visited).contains s = true := fun visited =>
      made.isRound_forwardRound.grows visited s
    rintro ⟨n, walk⟩
    induction walk with
    | nil => exact saturate_induction kept c.size (contains_start.mpr rfl)
    | snoc _ edge inductionHypothesis =>
      exact closed _ (contains_forwardRound.mpr (.inr ⟨_, inductionHypothesis, edge⟩))

/-- The backward search finds the starts of the walks to a state. -/
theorem WellFormed.contains_reachingOwn (made : c.WellFormed) :
    (c.reachingOwn s).contains t = true ↔ ∃ n, c.Walk t s n := by
  have contains_goal {x : Nat} : (StateSet.ofList [s]).contains x = true ↔ x = s := by
    simp [StateSet.contains_ofList]
  have reaches : c.Reaches (StateSet.ofList [s]) .empty t ↔
      (StateSet.ofList [s]).contains t = false ∧
        ∃ u, (StateSet.ofList [s]).contains u = true ∧ c.Leads Set.univ t u := by
    apply reaches_iff
    simp
  simp only [contains_goal, exists_eq_left, leads_univ, ← Bool.not_eq_true] at reaches
  rw [reachingOwn, StateSet.contains_insert, Bool.or_eq_true, made.contains_backward, reaches]
  by_cases same : t = s
  · subst same
    simpa using ⟨0, Walk.nil⟩
  · simp [same]

/-- A component holds the states with walks in both directions. -/
theorem WellFormed.contains_componentOwn (made : c.WellFormed) (own : s < c.size) :
    (c.componentOwn s).contains t = true ↔ c.Linked s t := by
  rw [componentOwn, StateSet.contains_inter, Bool.and_eq_true, made.contains_reachableFrom own,
    made.contains_reachingOwn]
  constructor
  · rintro ⟨there, back⟩
    exact ⟨there, back⟩
  · intro linked
    exact ⟨linked.there, linked.back⟩

theorem WellFormed.linked_own (made : c.WellFormed) (own : s < c.size) (linked : c.Linked s t) :
    t < c.size :=
  made.leads_own (leads_univ.mpr linked.there) own

/-- A chain is irreducible if it has states and they are all linked. -/
theorem WellFormed.isIrreducible_iff (made : c.WellFormed) :
    c.isIrreducible = true ↔ 0 < c.size ∧ ∀ s < c.size, ∀ t < c.size, c.Linked s t := by
  rw [isIrreducible, Bool.and_eq_true, decide_eq_true_eq, decide_eq_true_eq]
  apply and_congr_right
  intro nonempty
  have counted : (c.componentOwn 0).Counted := StateSet.counted_combine _ _ _
  have within : (c.componentOwn 0).Within c.size := fun t member =>
    made.linked_own nonempty ((made.contains_componentOwn nonempty).mp member)
  constructor
  · intro whole s own t own'
    -- A component as large as the chain leaves no state out.
    have all : (c.componentOwn 0).toFinset = Finset.range c.size := by
      apply Finset.eq_of_subset_of_card_le within.subset_range
      rw [Finset.card_range, ← counted, whole]
    have linked (u : Nat) (ownState : u < c.size) : c.Linked 0 u := by
      have member := Finset.mem_range.mpr ownState
      rw [← all, StateSet.mem_toFinset] at member
      exact (made.contains_componentOwn nonempty).mp member
    exact (linked s own).symm.trans (linked t own')
  · intro linked
    have all : (c.componentOwn 0).toFinset = Finset.range c.size := by
      apply Finset.Subset.antisymm within.subset_range
      intro t member
      have own : t < c.size := Finset.mem_range.mp member
      rw [StateSet.mem_toFinset, made.contains_componentOwn nonempty]
      exact linked 0 nonempty t own
    rw [counted, all, Finset.card_range]

end MarkovCheck.Chain

import MarkovCheck.Proofs.Matrix.Entries
import MarkovCheck.Proofs.Chain.Changes

/-!
# Chains that operations make are well formed

States are numbered by their place, transitions join own states with probabilities in `(0, 1]`, and
each pair of states has at most one transition. So the transition matrix has the probabilities as
its entries, and at the rationals an entry is positive exactly where there is a transition.

* `Chain.WellFormed`, `Chain.Constructed.wellFormed`: the invariant of all changes
* `Chain.Edge`: there is a transition from one state to another
* `WellFormed.entry_transitionMatrix`: the entries of the transition matrix
-/

namespace MarkovCheck

namespace Transition

variable {α : Type}

theorem precedes_iff {t u : Transition α} :
    t.precedes u = true ↔ t.source < u.source ∨ t.source = u.source ∧ t.target < u.target := by
  simp [precedes]

theorem sameEdge_iff {t u : Transition α} :
    t.sameEdge u = true ↔ t.source = u.source ∧ t.target = u.target := by
  simp [sameEdge]

theorem mem_insertInto {t u : Transition α} {us : List (Transition α)}
    (member : u ∈ t.insertInto us) : u = t ∨ u ∈ us := by
  induction us with
  | nil => exact .inl (List.mem_singleton.mp member)
  | cons v us inductionHypothesis =>
    simp only [insertInto] at member
    split at member
    · cases List.mem_cons.mp member with
      | inl same => exact .inl same
      | inr rest => exact .inr (List.mem_cons_of_mem v rest)
    · split at member
      · exact List.mem_cons.mp member
      · cases List.mem_cons.mp member with
        | inl same => exact .inr (List.mem_cons.mpr (.inl same))
        | inr rest => exact (inductionHypothesis rest).imp_right (List.mem_cons_of_mem v)

/-- Insertion keeps the order by source and target. -/
theorem pairwise_insertInto (t : Transition α) {us : List (Transition α)}
    (ordered : us.Pairwise (precedes · ·)) : (t.insertInto us).Pairwise (precedes · ·) := by
  induction us with
  | nil => exact List.pairwise_singleton _ t
  | cons v us inductionHypothesis =>
    obtain ⟨first, rest⟩ := List.pairwise_cons.mp ordered
    simp only [insertInto]
    split
    · next same =>
      -- The new transition takes the place of the one with the same states.
      obtain ⟨source, target⟩ := sameEdge_iff.mp same
      refine List.pairwise_cons.mpr ⟨?_, rest⟩
      intro u member
      have before := precedes_iff.mp (first u member)
      exact precedes_iff.mpr (by omega)
    · next different =>
      split
      · next before =>
        refine List.pairwise_cons.mpr ⟨?_, ordered⟩
        intro u member
        obtain rfl | later := List.mem_cons.mp member
        · exact before
        · have here := precedes_iff.mp before
          have there := precedes_iff.mp (first u later)
          exact precedes_iff.mpr (by omega)
      · next notBefore =>
        refine List.pairwise_cons.mpr ⟨?_, inductionHypothesis rest⟩
        intro u member
        obtain rfl | later := mem_insertInto member
        · -- It is neither equal nor before, so it comes after.
          rw [sameEdge_iff] at different
          rw [precedes_iff] at notBefore
          exact precedes_iff.mpr (by omega)
        · exact first u later

end Transition

namespace Chain

section Invariant

variable {α : Type} [Scalar α]

/-- What holds of every chain that operations make. -/
structure WellFormed (c : Chain α) : Prop where
  /-- A state's number is its place. -/
  numbered : ∀ (s : Nat) (state : State), c.states[s]? = some state → state.id = s
  /-- Transitions join own states. -/
  own : ∀ t ∈ c.transitions, t.source < c.size ∧ t.target < c.size
  probable : ∀ t ∈ c.transitions, 0 < t.probability ∧ t.probability ≤ 1
  /-- Transitions are ordered by source and target, so no pair of states has two. -/
  ordered : c.transitions.Pairwise (Transition.precedes · ·)
  current : c.MatrixCurrent

theorem wellFormed_empty (id : Nat) : (Chain.empty id : Chain α).WellFormed where
  numbered := by
    intro s state found
    simp [Chain.empty] at found
  own := fun _ member => nomatch member
  probable := fun _ member => nomatch member
  ordered := List.Pairwise.nil
  current := fun _ kept => nomatch kept

theorem Change.wellFormed {c c' : Chain α} (change : Change c c') (made : c.WellFormed) :
    c'.WellFormed := by
  have current := change.matrixCurrent made.current
  cases change with
  | addState name labels =>
    refine ⟨?_, ?_, made.probable, made.ordered, current⟩
    · intro s state found
      -- The new state has the next place as its number.
      have pushed : (c.states.push ⟨c.size, name.getD (idText c.size), sortLabels labels⟩)[s]? =
          some state := found
      rw [Array.getElem?_push] at pushed
      split at pushed
      · next last =>
        cases pushed
        exact last.symm
      · exact made.numbered s state pushed
    · intro t member
      have own := made.own t member
      have grown : (c.addState name labels).2.size = c.size + 1 := Array.size_push _
      omega
  | addLabel done =>
    obtain rfl | ⟨old, found, rfl⟩ := addLabel_eq_ok done
    · exact made
    · refine ⟨?_, ?_, made.probable, made.ordered, current⟩
      · intro s state there
        simp only [touch, Array.getElem?_setIfInBounds] at there
        -- A label changes a state, not its number.
        split at there
        · next same =>
          split at there
          · cases there
            exact same ▸ made.numbered _ old found
          · cases there
        · exact made.numbered s state there
      · intro t member
        simpa [touch, size] using made.own t member
  | addTransition done =>
    obtain ⟨range, ownSource, ownTarget, rfl, rfl⟩ := addTransition_eq_ok done
    refine ⟨made.numbered, ?_, ?_, Transition.pairwise_insertInto _ made.ordered, current⟩
    · intro t member
      obtain rfl | old := Transition.mem_insertInto member
      · exact ⟨ownSource, ownTarget⟩
      · exact made.own t old
    · intro t member
      obtain rfl | old := Transition.mem_insertInto member
      · exact range
      · exact made.probable t old
  | setInitial done =>
    obtain ⟨_, rfl⟩ := setInitial_eq_ok done
    exact ⟨made.numbered, made.own, made.probable, made.ordered, current⟩
  | keepMatrix => exact ⟨made.numbered, made.own, made.probable, made.ordered, current⟩

theorem Constructed.wellFormed {c : Chain α} (constructed : Constructed c) : c.WellFormed := by
  induction constructed with
  | empty id => exact wellFormed_empty id
  | duplicate _ id made =>
    exact ⟨made.numbered, made.own, made.probable, made.ordered, fun _ kept => nomatch kept⟩
  | change _ changed made => exact changed.wellFormed made

end Invariant

/-! ## Transitions -/

section Transitions

variable {α : Type} {c : Chain α}

def Edge (c : Chain α) (s t : Nat) : Prop :=
  ∃ transition ∈ c.transitions, transition.source = s ∧ transition.target = t

theorem mem_targets {s t : Nat} :
    t ∈ (c.successors s).map Transition.target ↔ c.Edge s t := by
  rw [List.mem_map]
  constructor
  · rintro ⟨transition, leaves, target⟩
    obtain ⟨present, source⟩ := List.mem_filter.mp leaves
    exact ⟨transition, present, of_decide_eq_true source, target⟩
  · rintro ⟨transition, present, source, target⟩
    exact ⟨transition, List.mem_filter.mpr ⟨present, decide_eq_true source⟩, target⟩

theorem transition?_eq_some {s t : Nat} {transition : Transition α}
    (found : c.transition? s t = some transition) :
    transition ∈ c.transitions ∧ transition.source = s ∧ transition.target = t := by
  refine ⟨List.mem_of_find?_eq_some found, ?_⟩
  simpa using List.find?_some found

theorem transition?_eq_none {s t : Nat} : c.transition? s t = none ↔ ¬ c.Edge s t := by
  simp [transition?, Edge]

variable [Scalar α]

theorem probability_of_not_edge {s t : Nat} (none : ¬ c.Edge s t) : c.probability s t = 0 := by
  rw [probability, transition?_eq_none.mpr none]

theorem WellFormed.probability_of_edge (made : c.WellFormed) {s t : Nat} (edge : c.Edge s t) :
    0 < c.probability s t ∧ c.probability s t ≤ 1 := by
  simp only [probability]
  cases found : c.transition? s t with
  | none => exact absurd edge (transition?_eq_none.mp found)
  | some transition => exact made.probable _ (transition?_eq_some found).1

theorem WellFormed.edge_own (made : c.WellFormed) {s t : Nat} (edge : c.Edge s t) :
    s < c.size ∧ t < c.size := by
  obtain ⟨transition, member, rfl, rfl⟩ := edge
  exact made.own transition member

end Transitions

/-! ## The transition matrix -/

section Entries

variable {α : Type} [Scalar α] {c : Chain α}

/-- Putting transitions into a matrix gives the entries of their pairs of states and keeps the
others. -/
theorem entry_foldl_put {n : Nat} {ts : List (Transition α)}
    (own : ∀ t ∈ ts, t.source < n ∧ t.target < n)
    (ordered : ts.Pairwise (Transition.precedes · ·)) {m : Matrix α} (rows : m.rows = n)
    (cols : m.cols = n) {i j : Nat} (inside : j < n) :
    (ts.foldl (fun m t => m.put t.source t.target t.probability) m).entry i j =
      match ts.find? fun t => t.source = i && t.target = j with
      | some t => t.probability
      | none => m.entry i j := by
  induction ts generalizing m with
  | nil => rfl
  | cons t ts inductionHypothesis =>
    obtain ⟨first, rest⟩ := List.pairwise_cons.mp ordered
    have ownHere := own t List.mem_cons_self
    rw [List.foldl_cons, inductionHypothesis (fun u member => own u (List.mem_cons_of_mem t member))
      rest (m := m.put t.source t.target t.probability) rows cols, List.find?_cons,
      Matrix.entry_put m (by omega) (by omega) _ _ (by omega)]
    by_cases here : t.source = i ∧ t.target = j
    · -- No later transition joins the same states, so none replaces this one.
      have last : (ts.find? fun u => u.source = i && u.target = j) = none := by
        refine List.find?_eq_none.mpr ?_
        intro u member
        have before := Transition.precedes_iff.mp (first u member)
        simp only [Bool.and_eq_true, decide_eq_true_eq]
        omega
      simp [here, last]
    · have elsewhere : (decide (t.source = i) && decide (t.target = j)) = false := by
        simpa using here
      simp [here, elsewhere]

theorem WellFormed.entry_transitionMatrix (made : c.WellFormed) {s t : Nat} (source : s < c.size)
    (target : t < c.size) : c.transitionMatrix.entry s t = c.probability s t := by
  have zero : (Matrix.zeros c.size c.size : Matrix α).entry s t = 0 :=
    Matrix.entry_ofFn _ source target
  rw [made.current.transitionMatrix_eq, buildMatrix,
    entry_foldl_put made.own made.ordered rfl rfl target, zero]
  rfl

theorem WellFormed.dim_transitionMatrix (made : c.WellFormed) :
    c.transitionMatrix.rows = c.size ∧ c.transitionMatrix.cols = c.size := by
  rw [made.current.transitionMatrix_eq, buildMatrix]
  refine List.foldlRecOn c.transitions
    (fun (m : Matrix α) (t : Transition α) => m.put t.source t.target t.probability)
    (motive := fun m => m.rows = c.size ∧ m.cols = c.size) ?_ ?_
  · exact ⟨rfl, rfl⟩
  · intro m dims t _
    exact dims

theorem WellFormed.rows_transitionMatrix (made : c.WellFormed) :
    c.transitionMatrix.rows = c.size := made.dim_transitionMatrix.1

theorem WellFormed.cols_transitionMatrix (made : c.WellFormed) :
    c.transitionMatrix.cols = c.size := made.dim_transitionMatrix.2

end Entries

/-! ## Exact probabilities -/

section Exact

variable {c : Chain ℚ}

theorem WellFormed.probability_nonneg (made : c.WellFormed) (s t : Nat) :
    0 ≤ c.probability s t := by
  by_cases edge : c.Edge s t
  · exact le_of_lt (made.probability_of_edge edge).1
  · exact le_of_eq (probability_of_not_edge edge).symm

theorem WellFormed.probability_pos (made : c.WellFormed) {s t : Nat} :
    0 < c.probability s t ↔ c.Edge s t := by
  constructor
  · intro positive
    by_contra none
    exact ne_of_gt positive (probability_of_not_edge none)
  · intro edge
    exact (made.probability_of_edge edge).1

/-- In an average over the next states only those with a transition count. -/
theorem sum_congr_of_edge {s : Nat} {x y : Nat → ℚ} (same : ∀ t, c.Edge s t → x t = y t) :
    ∑ t ∈ Finset.range c.size, c.probability s t * x t =
      ∑ t ∈ Finset.range c.size, c.probability s t * y t := by
  apply Finset.sum_congr rfl
  intro t _
  by_cases edge : c.Edge s t
  · rw [same t edge]
  · rw [probability_of_not_edge edge, zero_mul, zero_mul]

end Exact

end Chain

end MarkovCheck

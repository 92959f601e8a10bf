import MarkovCheck.Proofs.Reachability.PathWeight

/-!
# Larger goals and fewer forbidden states

A state that joins the goal, or is no longer forbidden, makes no value of an analysis with a step
bound smaller. The equations that are solved do not show it: with other sets other states are open,
so that the two systems differ in size and numbering. The weights of paths can be compared, step
bound by step bound: a state of the larger goal has the largest weight that there is, a forbidden
state the smallest, and any other state averages the same next states in both analyses.

* `Chain.WellFormed.pathWeight_le_of_subset`: the weights of paths
* `Chain.reachability_monotone`: the values of the analyses
-/

namespace MarkovCheck.Chain

variable {c : Chain ℚ}

/-- The weight of paths grows with the goal, and with the states that are not blocked. A state of
both the larger goal and the blocked states counts as goal. -/
theorem WellFormed.pathWeight_le_of_subset (made : c.WellFormed)
    (rows : ∀ s < c.size, c.outflow s ≤ 1) {goal goal' blocked blocked' : Set Nat}
    (larger : goal ⊆ goal') (fewer : blocked' ⊆ blocked) (k : Nat) {s : Nat} (own : s < c.size) :
    c.pathWeight goal blocked k s ≤ c.pathWeight goal' blocked' k s := by
  -- No weight exceeds that of a goal state.
  have reached (k : Nat) {s : Nat} (own : s < c.size) (inGoal : s ∈ goal') :
      c.pathWeight goal blocked k s ≤ c.pathWeight goal' blocked' k s := by
    rw [pathWeight_of_goal own inGoal]
    exact made.pathWeight_le_one rows goal blocked k own
  induction k generalizing s with
  | zero =>
    by_cases inGoal : s ∈ goal'
    · exact reached 0 own inGoal
    · have noGoal : s ∉ goal := fun member => inGoal (larger member)
      rw [pathWeight_zero noGoal, pathWeight_zero inGoal]
  | succ k inductionHypothesis =>
    by_cases inGoal : s ∈ goal'
    · exact reached (k + 1) own inGoal
    · have noGoal : s ∉ goal := fun member => inGoal (larger member)
      by_cases isBlocked : s ∈ blocked
      · rw [pathWeight_of_blocked isBlocked noGoal]
        exact made.pathWeight_nonneg goal' blocked' (k + 1) s
      · -- Open in both analyses, the state averages smaller weights in the first.
        have free : s ∉ blocked' := fun member => isBlocked (fewer member)
        rw [pathWeight_succ own noGoal isBlocked, pathWeight_succ own inGoal free]
        apply Finset.sum_le_sum
        intro t member
        exact mul_le_mul_of_nonneg_left (inductionHypothesis (Finset.mem_range.mp member))
          (made.probability_nonneg s t)

/-- Let the outgoing probabilities of each state sum to at most one. With a goal that contains the
other and forbidden states among the other ones, an analysis with the same step bound returns a
value in each state that is at least as large. -/
theorem reachability_monotone (constructed : Constructed c)
    (rows : ∀ s < c.size, c.outflow s ≤ 1) {goal goal' forbidden forbidden' : StateSet}
    (ownGoal : goal'.Within c.size) (ownForbidden : forbidden.Within c.size)
    (larger : goal.members ⊆ goal'.members) (fewer : forbidden'.members ⊆ forbidden.members)
    (k : Nat) {o o' : Options ℚ} (running : o.cancelledAfter = none)
    (running' : o'.cancelledAfter = none)
    {s : Nat} (own : s < c.size) :
    ∃ v v' a a', c.reachability goal forbidden (some k) o = .ok v ∧
      c.reachability goal' forbidden' (some k) o' = .ok v' ∧
      v[s]? = some a ∧ v'[s]? = some a' ∧ a ≤ a' := by
  have made := constructed.wellFormed
  have nonempty : 0 < c.size := Nat.zero_lt_of_lt own
  have ownSmaller : goal.Within c.size := fun t member => ownGoal t (larger member)
  have ownFewer : forbidden'.Within c.size := fun t member => ownForbidden t (fewer member)
  have first := made.reachability_bounded_of_rows rows nonempty ownSmaller ownForbidden k running
  have second := made.reachability_bounded_of_rows rows nonempty ownGoal ownFewer k running'
  refine ⟨_, _, _, _, first, second, ?_, ?_, made.pathWeight_le_of_subset rows larger fewer k own⟩
  · rw [Array.getElem?_ofFn, dif_pos own]
  · rw [Array.getElem?_ofFn, dif_pos own]

/-- Between two doors, of which the second leads back: one that was forbidden joins the goal, and
the other is no longer forbidden. -/
theorem reachability_monotone_doors :
    let c : Chain ℚ := ⟨0, 8, #[⟨0, "hall", []⟩, ⟨1, "left", []⟩, ⟨2, "right", []⟩, ⟨3, "out", []⟩],
      [⟨0, 1, 1 / 4⟩, ⟨0, 2, 1 / 2⟩, ⟨2, 0, 1 / 2⟩, ⟨2, 3, 1 / 2⟩], some 0, none⟩
    Constructed c ∧ (∀ s < c.size, c.outflow s ≤ 1) ∧
      c.reachability (.ofList [3]) (.ofList [1, 2]) (some 3) Options.default =
        .ok #[0, 0, 0, 1] ∧
      c.reachability (.ofList [1, 3]) (.ofList [1]) (some 3) Options.default =
        .ok #[9 / 16, 1, 3 / 4, 1] ∧
      ∃ v v' a a', c.reachability (.ofList [3]) (.ofList [1, 2]) (some 3) Options.default = .ok v ∧
        c.reachability (.ofList [1, 3]) (.ofList [1]) (some 3) Options.default = .ok v' ∧
        v[0]? = some a ∧ v'[0]? = some a' ∧ a ≤ a' := by
  intro c
  have constructed : Constructed c := constructed_of_addAll (by with_unfolding_all rfl)
  have rows : ∀ s < c.size, c.outflow s ≤ 1 := by decide +kernel
  have larger : (StateSet.ofList [3]).members ⊆ (StateSet.ofList [1, 3]).members := by
    intro s member
    simp_all [StateSet.contains_ofList]
  have fewer : (StateSet.ofList [1]).members ⊆ (StateSet.ofList [1, 2]).members := by
    intro s member
    simp_all [StateSet.contains_ofList]
  refine ⟨constructed, rows, by decide +kernel, by decide +kernel, ?_⟩
  exact reachability_monotone constructed rows (StateSet.within_ofList [1, 3] (by decide))
    (StateSet.within_ofList [1, 2] (by decide)) larger fewer 3 rfl rfl (by decide)

end MarkovCheck.Chain

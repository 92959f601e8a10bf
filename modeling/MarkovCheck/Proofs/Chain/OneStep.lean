import MarkovCheck.Proofs.Reachability.Equations
import MarkovCheck.Chain.Transient
import MarkovCheck.Formula.Evaluation

/-!
# One step of a chain

The probability of being in a set after one step, computed in two ways: by the transition matrix
applied to the indicator of the set, and by moving the mass of one state a step along the chain.
Both are `Chain.mass`, the sum of the transition probabilities into the set.
-/

namespace MarkovCheck

namespace Chain

open Classical in
/-- The sum of the probabilities of the transitions from a state into a set. -/
noncomputable def mass (c : Chain ℚ) (s : Nat) (set : Set Nat) : ℚ :=
  ∑ t ∈ Finset.range c.size with t ∈ set, c.probability s t

variable {c : Chain ℚ} {set : StateSet}

theorem mass_members (own : set.Within c.size) (s : Nat) :
    c.mass s set.members = ∑ t ∈ set.toFinset, c.probability s t := by
  have same : set.toFinset = (Finset.range c.size).filter fun t => set.contains t = true := by
    ext t
    rw [StateSet.mem_toFinset, Finset.mem_filter, Finset.mem_range]
    exact ⟨fun member => ⟨own t member, member⟩, And.right⟩
  rw [same, mass]
  congr

/-- The matrix applied to an indicator sums the transitions into the set. -/
theorem WellFormed.nextProbabilities_eq_ok (made : c.WellFormed) (own : set.Within c.size) :
    ∃ v, c.nextProbabilities set = .ok v ∧ v.size = c.size ∧
      ∀ s < c.size, v.getD s 0 = c.mass s set.members := by
  have rows := made.rows_transitionMatrix
  have cols := made.cols_transitionMatrix
  -- The indicator of the set is one in its members.
  have inside : ∀ s ∈ set.toList, s < c.size := fun s member => own s ((set.mem_toList s).mp member)
  let x : Array ℚ := Array.ofFn fun s : Fin c.size => if s.val ∈ set.toList then 1 else 0
  have indicator : Reachability.scatter c.size (set.toList.map (·, (1 : ℚ))) = .ok x :=
    Reachability.scatter_map inside fun _ => 1
  have size : x.size = c.transitionMatrix.cols := Array.size_ofFn.trans cols.symm
  refine ⟨_, Outcome.bind_eq_ok.mpr ⟨x, indicator, if_pos size⟩,
    (Matrix.size_applyRight _ _).trans rows, ?_⟩
  intro s there
  rw [Matrix.getD_applyRight _ _ (rows.symm ▸ there), cols, mass, Finset.sum_filter]
  apply Finset.sum_congr rfl
  intro t member
  have target : t < c.size := Finset.mem_range.mp member
  rw [made.entry_transitionMatrix there target]
  simp [x, target, StateSet.mem_toList]

/-- A point of mass one, moved one step, is spread by the transition probabilities. -/
theorem WellFormed.transient_point (made : c.WellFormed) {s : Nat} (own : s < c.size) :
    ∃ d d', Distribution.point c s = .ok d ∧ c.transient 1 d = .ok d' ∧ d'.size = c.size ∧
      ∀ t < c.size, d'.getD t 0 = c.probability s t := by
  have rows := made.rows_transitionMatrix
  have cols := made.cols_transitionMatrix
  let d : Distribution ℚ := (Array.replicate c.size 0).setIfInBounds s 1
  have size : d.size = c.size := by simp [d]
  have entry (i : Nat) : d.getD i 0 = if s = i then 1 else 0 := by
    by_cases same : s = i
    · subst same
      simp [d, own]
    · simp only [d, Array.getD_eq_getD_getElem?, Array.getElem?_setIfInBounds_ne same,
        Array.getElem?_replicate, if_neg same]
      split
      · rfl
      · rfl
  have point : Distribution.point c s = .ok d :=
    Outcome.bind_eq_ok.mpr ⟨d, if_pos (by simpa using own), rfl⟩
  -- One step never pays for a power of the matrix.
  have few : prefersPower c.size 1 = false := by
    simp [prefersPower]
    omega
  have moved : c.transient 1 d = .ok (c.transitionMatrix.applyLeft d) := by
    rw [transient, if_neg (by omega), if_neg (by simp [size])]
    simp only [few]
    refine Outcome.bind_eq_ok.mpr ⟨_, if_pos (size.trans rows.symm), rfl⟩
  refine ⟨d, _, point, moved, (Matrix.size_applyLeft _ _).trans cols, ?_⟩
  intro t there
  rw [Matrix.getD_applyLeft _ _ (cols.symm ▸ there), rows]
  simp only [entry, ite_mul, one_mul, zero_mul]
  rw [Finset.sum_ite_eq, if_pos (Finset.mem_range.mpr own)]
  exact made.entry_transitionMatrix own there

theorem massOf_eq_sum {d : Distribution ℚ} (size : d.size = c.size) (own : set.Within c.size) :
    d.massOf set = ∑ t ∈ set.toFinset, d.getD t 0 := by
  have found : set.toList.filterMap (fun t => d[t]?) = set.toList.map fun t => d.getD t 0 := by
    rw [← List.filterMap_eq_map]
    apply List.filterMap_congr
    intro t member
    have inside : t < d.size := size ▸ own t ((set.mem_toList t).mp member)
    simp [inside]
  rw [Distribution.massOf, found, Scalar.total_map_eq_sum set.nodup_toList]
  rfl

theorem WellFormed.transient_mass (made : c.WellFormed) (ownSet : set.Within c.size) {s : Nat}
    (own : s < c.size) : ∃ d d', Distribution.point c s = .ok d ∧ c.transient 1 d = .ok d' ∧
      d'.massOf set = c.mass s set.members := by
  obtain ⟨d, d', point, moved, size, spread⟩ := made.transient_point own
  refine ⟨d, d', point, moved, ?_⟩
  rw [massOf_eq_sum size ownSet, mass_members ownSet]
  apply Finset.sum_congr rfl
  intro t member
  exact spread t (ownSet t (StateSet.mem_toFinset.mp member))

end Chain

end MarkovCheck

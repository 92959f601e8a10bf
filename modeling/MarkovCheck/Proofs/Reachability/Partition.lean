import MarkovCheck.Proofs.Reachability.Equations
import MarkovCheck.Proofs.Reachability.Safety

/-!
# What the graph decides

For sets of own states an analysis always sets up its equations. The states taken to have
probability one, apart from the goal, lose no mass and lead only to states taken to have probability
one; together with the open states they are those that reach the goal.

* `Chain.outflow`: the sum of the outgoing probabilities of a state
* `Chain.IsSure`: what is known of the states among `good` that are taken to have probability one
* `System.Poses`: the equations of a reachability problem
* `Chain.WellFormed.system_eq_ok`: the equations that an analysis sets up are those of its problem
-/

namespace MarkovCheck

namespace Chain

def outflow (c : Chain ℚ) (s : Nat) : ℚ := ∑ t ∈ Finset.range c.size, c.probability s t

variable {c : Chain ℚ} {goal forbidden good : StateSet}

/-! ## States of probability one -/

theorem WellFormed.total_row (made : c.WellFormed) {s : Nat} (own : s < c.size) :
    Scalar.total ((List.range c.size).map (c.transitionMatrix.entry s)) = c.outflow s := by
  rw [Scalar.total_map_eq_sum List.nodup_range, List.toFinset_range]
  apply Finset.sum_congr rfl
  intro t member
  exact made.entry_transitionMatrix own (Finset.mem_range.mp member)

theorem WellFormed.fallsShort_iff (made : c.WellFormed) {s : Nat} (own : s < c.size) :
    c.FallsShort s ↔ c.outflow s < 1 - defaultTolerance := by
  rw [FallsShort, made.total_row own]

/-- Non-goal states, all of them good, that lose no mass and lead only to the goal and to each
other. -/
structure IsSure (c : Chain ℚ) (goal good sure : StateSet) : Prop where
  good : ∀ s, sure.contains s = true → good.contains s = true
  full : ∀ s, sure.contains s = true → 1 - defaultTolerance ≤ c.outflow s
  closed : ∀ s t, sure.contains s = true → c.Edge s t →
    goal.contains t = true ∨ sure.contains t = true

/-- The certain states are sure: what they lead to outside the goal is again certain. -/
theorem WellFormed.isSure_of_certain (made : c.WellFormed) {stepBounded : Bool} {sure : StateSet}
    (certain : ∀ s, sure.contains s = true ↔ stepBounded = false ∧ c.Certain goal forbidden s) :
    c.IsSure goal (c.backward goal (forbidden.diff goal)) sure := by
  constructor
  · intro s member
    exact made.contains_backward.mpr ((certain s).mp member).2.1
  · intro s member
    obtain ⟨_, reaches, confined⟩ := (certain s).mp member
    have own : s < c.size := made.within_backward _ _ s (made.contains_backward.mpr reaches)
    exact not_lt.mp fun short =>
      (confined s .refl reaches.outside).2 ((made.fallsShort_iff own).mpr short)
  · intro s t member edge
    obtain ⟨unbounded, reaches, confined⟩ := (certain s).mp member
    have step : s ∈ goal.membersᶜ ∧ c.Edge s t := ⟨by simp [reaches.outside], edge⟩
    cases inGoal : goal.contains t with
    | true => exact .inl rfl
    | false =>
      refine .inr ((certain t).mpr ⟨unbounded, (confined t (.single step) inGoal).1, ?_⟩)
      intro u leads noGoal
      exact confined u (leads.head step) noGoal

theorem WellFormed.equations_eq_ok (made : c.WellFormed) {ones rest : List Nat}
    (ownOnes : ∀ s ∈ ones, s < c.size) (ownRest : ∀ s ∈ rest, s < c.size)
    (nodupOnes : ones.Nodup) :
    c.equations ones.toArray rest.toArray =
      .ok ((System.restricted c ones rest).matrix, (System.restricted c ones rest).vector) := by
  have rows := made.rows_transitionMatrix
  have cols := made.cols_transitionMatrix
  have restricted : c.transitionMatrix.submatrix rest.toArray rest.toArray =
      .ok (System.restricted c ones rest).matrix := by
    rw [Matrix.submatrix_eq_ok _ (by simpa [rows] using ownRest) (by simpa [cols] using ownRest)]
    simp only [System.restricted]
    refine congrArg Except.ok (Matrix.ofFn_congr ?_)
    intro i row j col
    have source : rest.getD i 0 ∈ rest := by
      rw [← List.getElem_eq_getD (h := by simpa using row)]
      exact List.getElem_mem _
    have target : rest.getD j 0 ∈ rest := by
      rw [← List.getElem_eq_getD (h := by simpa using col)]
      exact List.getElem_mem _
    simpa using made.entry_transitionMatrix (ownRest _ source) (ownRest _ target)
  -- The right side sums what flows straight into states of probability one.
  have mass : ∀ s ∈ rest, (do
      let masses ← ones.toArray.mapM (c.transitionMatrix.get s)
      return Scalar.total masses.toList : Except (Error ℚ) ℚ) =
        .ok (∑ t ∈ ones.toFinset, c.probability s t) := by
    intro s member
    have entry : ∀ t ∈ ones, c.transitionMatrix.get s t = .ok (c.probability s t) := by
      intro t one
      rw [Matrix.get_eq_ok _ (rows.symm ▸ ownRest s member) (cols.symm ▸ ownOnes t one),
        made.entry_transitionMatrix (ownRest s member) (ownOnes t one)]
    refine Outcome.bind_eq_ok.mpr ⟨_, Outcome.mapM_eq_ok entry, ?_⟩
    exact congrArg Except.ok (Scalar.total_map_eq_sum nodupOnes _)
  exact Outcome.bind_eq_ok.mpr ⟨_, restricted,
    Outcome.bind_eq_ok.mpr ⟨_, Outcome.mapM_eq_ok mass, rfl⟩⟩

end Chain

/-! ## The equations of a problem -/

/-- The equations determine the probabilities of reaching the goal while avoiding some states. -/
structure System.Poses (system : System ℚ) (c : Chain ℚ) (goal avoid : StateSet) : Prop
    extends system.Restricts c where
  goal_ones : ∀ s, goal.contains s = true → s ∈ system.ones
  full : ∀ s ∈ system.ones, goal.contains s = false →
    1 - Chain.defaultTolerance ≤ c.outflow s
  closed : ∀ s ∈ system.ones, goal.contains s = false → ∀ t, c.Edge s t → t ∈ system.ones
  reaches : ∀ s, goal.contains s = false →
    (s ∈ system.ones ∨ s ∈ system.rest ↔ c.Reaches goal avoid s)

namespace System.Poses

variable {system : System ℚ} {c : Chain ℚ} {goal avoid : StateSet}

theorem goal_of_rest (poses : system.Poses c goal avoid) {s : Nat} (open_ : s ∈ system.rest) :
    goal.contains s = false := by
  rw [← Bool.not_eq_true]
  intro inGoal
  exact poses.disjoint s open_ (poses.goal_ones s inGoal)

theorem rest_reaches (poses : system.Poses c goal avoid) :
    ∀ s ∈ system.rest.toFinset, c.Reaches goal avoid s := by
  intro s member
  have open_ : s ∈ system.rest := List.mem_toFinset.mp member
  exact (poses.reaches s (poses.goal_of_rest open_)).mp (.inr open_)

end System.Poses

/-- The equations of the states that reach the goal and are not sure pose the problem, with the goal
and the sure states as the states of probability one. -/
theorem Chain.WellFormed.restricted_poses {c : Chain ℚ} (made : c.WellFormed)
    {goal avoid sure : StateSet} (ownGoal : goal.Within c.size)
    (isSure : c.IsSure goal (c.backward goal avoid) sure) :
    (System.restricted c (goal.union sure).toList
      ((c.backward goal avoid).diff sure).toList).Poses c goal avoid := by
  have mem_good {s : Nat} : (c.backward goal avoid).contains s = true ↔ c.Reaches goal avoid s :=
    made.contains_backward
  have ownGood := made.within_backward goal avoid
  have mem_ones {s : Nat} : s ∈ (goal.union sure).toList ↔
      goal.contains s = true ∨ sure.contains s = true := by
    simp [StateSet.mem_toList]
  have mem_rest {s : Nat} : s ∈ ((c.backward goal avoid).diff sure).toList ↔
      (c.backward goal avoid).contains s = true ∧ sure.contains s = false := by
    simp [StateSet.mem_toList]
  -- A state of probability one that is no goal is sure.
  have mem_sure {s : Nat} (one : s ∈ (goal.union sure).toList) (noGoal : goal.contains s = false) :
      sure.contains s = true := (mem_ones.mp one).resolve_left (by simp [noGoal])
  refine ⟨⟨?_, ?_, StateSet.nodup_toList _, ?_, rfl, rfl⟩, ?_, ?_, ?_, ?_⟩
  · intro s one
    cases mem_ones.mp one with
    | inl inGoal => exact ownGoal s inGoal
    | inr isSure' => exact ownGood s (isSure.good s isSure')
  · intro s open_
    exact ownGood s (mem_rest.mp open_).1
  · intro s open_ one
    obtain ⟨isGood, notSure⟩ := mem_rest.mp open_
    have isSure' := mem_sure one (mem_good.mp isGood).outside
    simp [notSure] at isSure'
  · intro s inGoal
    exact mem_ones.mpr (.inl inGoal)
  · intro s one noGoal
    exact isSure.full s (mem_sure one noGoal)
  · intro s one noGoal t edge
    exact mem_ones.mpr (isSure.closed s t (mem_sure one noGoal) edge)
  · intro s noGoal
    rw [← mem_good]
    constructor
    · intro listed
      cases listed with
      | inl one => exact isSure.good s (mem_sure one noGoal)
      | inr open_ => exact (mem_rest.mp open_).1
    · intro isGood
      cases decided : sure.contains s with
      | true => exact .inl (mem_ones.mpr (.inr decided))
      | false => exact .inr (mem_rest.mpr ⟨isGood, decided⟩)

/-- For sets of own states, the equations that an analysis sets up are those of its problem. With a
step bound only the goal is taken to have probability one. -/
theorem Chain.WellFormed.system_eq_ok {c : Chain ℚ} (made : c.WellFormed) (nonempty : 0 < c.size)
    {goal forbidden : StateSet} (ownGoal : goal.Within c.size)
    (ownForbidden : forbidden.Within c.size) (stepBounded : Bool) :
    ∃ system, c.system goal forbidden stepBounded = .ok system ∧
      system.Poses c goal (forbidden.diff goal) ∧
      (stepBounded = true → ∀ s ∈ system.ones, goal.contains s = true) := by
  obtain ⟨sure, sorted, certain⟩ := made.partition_eq_ok ownGoal forbidden stepBounded
  have poses := made.restricted_poses ownGoal (made.isSure_of_certain certain)
  have equations :=
    made.equations_eq_ok poses.ownOnes poses.ownRest (goal.union sure).nodup_toList
  have staged : c.system goal forbidden stepBounded = _ := if_neg (Nat.ne_of_gt nonempty)
  refine ⟨_, staged.trans ?_, poses, ?_⟩
  · exact Outcome.bind_eq_ok.mpr ⟨(), Chain.checkStates_eq_ok ownGoal,
      Outcome.bind_eq_ok.mpr ⟨(), Chain.checkStates_eq_ok ownForbidden,
        Outcome.bind_eq_ok.mpr ⟨_, sorted, Outcome.bind_eq_ok.mpr ⟨_, equations, rfl⟩⟩⟩⟩
  · intro isBounded s one
    rw [System.restricted, StateSet.mem_toList, StateSet.contains_union, Bool.or_eq_true,
      certain] at one
    simpa [isBounded] using one

end MarkovCheck

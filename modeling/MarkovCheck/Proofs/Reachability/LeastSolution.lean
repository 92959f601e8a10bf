import MarkovCheck.Proofs.Chain.WellFormed
import MarkovCheck.Proofs.Reachability.MaximumPrinciple
import MarkovCheck.Proofs.Reachability.Partition

/-!
# Reachability without a step bound is the least solution

The probabilities of reaching a goal are the least non-negative solution of equations over all
states: one in the goal, zero in forbidden states, and the average over the next states elsewhere.
An analysis solves other equations, those of the open states only. By the maximum principle these
have exactly one solution, and extended to all states it is the least one.

* `Chain.IsSolution`, `Chain.IsLeastSolution`: solutions of the equations over all states
* `Chain.LosesVisibly`: where outgoing probabilities fall short of one, it shows
* `Chain.WellFormed.exists_isLeastSolution`: there is a least solution
* `Chain.reachability_least`: an analysis by elimination finds the least solution
-/

namespace MarkovCheck

namespace Chain

/-- The numbers solve the equations for reaching the goal without entering a blocked state first. -/
structure IsSolution (c : Chain ℚ) (goal blocked : Set Nat) (x : Nat → ℚ) : Prop where
  nonneg : ∀ s < c.size, 0 ≤ x s
  inGoal : ∀ s < c.size, s ∈ goal → x s = 1
  inBlocked : ∀ s < c.size, s ∈ blocked → s ∉ goal → x s = 0
  average : ∀ s < c.size, s ∉ goal → s ∉ blocked →
    x s = ∑ t ∈ Finset.range c.size, c.probability s t * x t

structure IsLeastSolution (c : Chain ℚ) (goal blocked : Set Nat) (x : Nat → ℚ) : Prop
    extends c.IsSolution goal blocked x where
  least : ∀ y, c.IsSolution goal blocked y → ∀ s < c.size, x s ≤ y s

theorem IsSolution.congr {c : Chain ℚ} {goal blocked : Set Nat} {x y : Nat → ℚ}
    (solution : c.IsSolution goal blocked x) (same : ∀ s < c.size, y s = x s) :
    c.IsSolution goal blocked y := by
  have sum (s : Nat) : ∑ t ∈ Finset.range c.size, c.probability s t * y t =
      ∑ t ∈ Finset.range c.size, c.probability s t * x t :=
    Finset.sum_congr rfl fun t member => by rw [same t (Finset.mem_range.mp member)]
  constructor
  · intro s own
    exact (same s own).symm ▸ solution.nonneg s own
  · intro s own inGoal
    exact (same s own).trans (solution.inGoal s own inGoal)
  · intro s own inBlocked noGoal
    exact (same s own).trans (solution.inBlocked s own inBlocked noGoal)
  · intro s own noGoal free
    rw [same s own, sum]
    exact solution.average s own noGoal free

theorem IsLeastSolution.congr {c : Chain ℚ} {goal blocked : Set Nat} {x y : Nat → ℚ}
    (solution : c.IsLeastSolution goal blocked x) (same : ∀ s < c.size, y s = x s) :
    c.IsLeastSolution goal blocked y := by
  refine ⟨solution.toIsSolution.congr same, ?_⟩
  intro z other s own
  exact (same s own).symm ▸ solution.least z other s own

theorem IsLeastSolution.unique {c : Chain ℚ} {goal blocked : Set Nat} {x y : Nat → ℚ}
    (first : c.IsLeastSolution goal blocked x) (second : c.IsLeastSolution goal blocked y) {s : Nat}
    (own : s < c.size) : x s = y s :=
  le_antisymm (first.least y second.toIsSolution s own) (second.least x first.toIsSolution s own)

/-- The outgoing probabilities of each state sum to one, or fall short of one by more than the
tolerance. -/
def LosesVisibly (c : Chain ℚ) : Prop :=
  ∀ s < c.size, c.outflow s = 1 ∨ c.outflow s < 1 - defaultTolerance

theorem defaultTolerance_nonneg : (0 : ℚ) ≤ defaultTolerance := by
  simp only [defaultTolerance]
  norm_num

variable {c : Chain ℚ}

theorem LosesVisibly.outflow_le (visible : c.LosesVisibly) {s : Nat} (own : s < c.size) :
    c.outflow s ≤ 1 := by
  cases visible s own with
  | inl full => exact le_of_eq full
  | inr short => linarith [defaultTolerance_nonneg]

theorem LosesVisibly.outflow_eq (visible : c.LosesVisibly) {s : Nat} (own : s < c.size)
    (full : 1 - defaultTolerance ≤ c.outflow s) : c.outflow s = 1 :=
  (visible s own).resolve_right (not_lt.mpr full)

/-! ## States that reach the goal -/

section Reaching

variable {goal avoid : StateSet} {U : Finset Nat}

theorem WellFormed.reaches_own (made : c.WellFormed) {s : Nat}
    (reaches : c.Reaches goal avoid s) : s < c.size := by
  cases reaches with
  | arrives _ _ edge | passes _ _ edge => exact (made.edge_own edge).1

theorem WellFormed.sum_lt_outflow (made : c.WellFormed) (own : U ⊆ Finset.range c.size)
    {s t : Nat} (edge : c.Edge s t) (left : t ∉ U) :
    ∑ u ∈ U, c.probability s u < c.outflow s := by
  refine Finset.sum_lt_sum_of_subset own (Finset.mem_range.mpr (made.edge_own edge).2) left
    (made.probability_pos.mpr edge) ?_
  intro u _ _
  exact made.probability_nonneg s u

/-- From states outside the goal that reach it, mass gets lost. -/
theorem WellFormed.loses (made : c.WellFormed) (rows : ∀ s < c.size, c.outflow s ≤ 1)
    (own : U ⊆ Finset.range c.size) (outside : ∀ s ∈ U, goal.contains s = false) {s : Nat}
    (reaches : c.Reaches goal avoid s) : MaximumPrinciple.Loses U c.probability s := by
  -- A transition out of `U` loses mass at once, and on the way to the goal there is one.
  have leaves {s t : Nat} (edge : c.Edge s t) (left : t ∉ U) :
      MaximumPrinciple.Loses U c.probability s :=
    .here ((made.sum_lt_outflow own edge left).trans_le (rows s (made.edge_own edge).1))
  induction reaches with
  | arrives _ _ edge hit =>
    refine leaves edge fun inside => ?_
    rw [outside _ inside] at hit
    cases hit
  | @passes s t _ _ edge _ inductionHypothesis =>
    by_cases inside : t ∈ U
    · exact .along inside (made.probability_pos.mpr edge) inductionHypothesis
    · exact leaves edge inside

theorem WellFormed.lossy (made : c.WellFormed) (rows : ∀ s < c.size, c.outflow s ≤ 1)
    (reaching : ∀ s ∈ U, c.Reaches goal avoid s) : MaximumPrinciple.Lossy U c.probability := by
  have own : U ⊆ Finset.range c.size := fun t member =>
    Finset.mem_range.mpr (made.reaches_own (reaching t member))
  refine ⟨made.probability_nonneg, ?_, ?_⟩
  · intro t member
    refine le_trans (Finset.sum_le_sum_of_subset_of_nonneg own ?_)
      (rows t (made.reaches_own (reaching t member)))
    intro u _ _
    exact made.probability_nonneg t u
  · intro t member
    exact made.loses rows own (fun u there => (reaching u there).outside) (reaching t member)

/-- Let one function nowhere exceed its average over the next states and another nowhere fall short
of it. If the first is not larger where the given states can be left, it is not larger in them. -/
theorem WellFormed.le_of_average (made : c.WellFormed) (rows : ∀ s < c.size, c.outflow s ≤ 1)
    (reaching : ∀ s ∈ U, c.Reaches goal avoid s) {x y : Nat → ℚ}
    (below : ∀ s ∈ U, x s ≤ ∑ t ∈ Finset.range c.size, c.probability s t * x t)
    (above : ∀ s ∈ U, ∑ t ∈ Finset.range c.size, c.probability s t * y t ≤ y s)
    (outside : ∀ s ∈ U, ∀ t, c.Edge s t → t ∉ U → x t ≤ y t) {s : Nat} (inside : s ∈ U) :
    x s ≤ y s := by
  refine sub_nonpos.mp ((made.lossy rows reaching).nonpos (z := fun t => x t - y t) ?_ inside)
  intro t member
  have own : U ⊆ Finset.range c.size := fun u there =>
    Finset.mem_range.mpr (made.reaches_own (reaching u there))
  -- The difference does not exceed its average, and outside `U` it is not positive.
  have average : x t - y t ≤ ∑ u ∈ Finset.range c.size, c.probability t u * (x u - y u) := by
    simp only [mul_sub, Finset.sum_sub_distrib]
    linarith [below t member, above t member]
  apply average.trans
  rw [← Finset.sum_sdiff own]
  refine add_le_of_nonpos_left (Finset.sum_nonpos ?_)
  intro u left
  by_cases edge : c.Edge t u
  · have smaller := outside t member u edge (Finset.mem_sdiff.mp left).2
    exact mul_nonpos_of_nonneg_of_nonpos (made.probability_nonneg t u) (sub_nonpos.mpr smaller)
  · rw [probability_of_not_edge edge, zero_mul]

end Reaching

end Chain

/-! ## The equations of the open states -/

namespace System

/-- In each open state the function is the average of its extension over the next states. -/
def Averages (system : System ℚ) (c : Chain ℚ) (f : Nat → ℚ) : Prop :=
  ∀ s ∈ system.rest, f s = system.average c f s

/-- The states taken to have probability one that are no goals lose no mass at all. -/
def Tight (system : System ℚ) (c : Chain ℚ) (goal : StateSet) : Prop :=
  ∀ s ∈ system.ones, goal.contains s = false → c.outflow s = 1

namespace Poses

variable {system : System ℚ} {c : Chain ℚ} {goal avoid : StateSet}

theorem tight (poses : system.Poses c goal avoid) (visible : c.LosesVisibly) :
    system.Tight c goal := fun s one noGoal =>
  visible.outflow_eq (poses.ownOnes s one) (poses.full s one noGoal)

theorem exists_averages (poses : system.Poses c goal avoid) (made : c.WellFormed)
    (rows : ∀ s < c.size, c.outflow s ≤ 1) : ∃ f, system.Averages c f := by
  obtain ⟨f, average⟩ := (made.lossy rows poses.rest_reaches).exists_average
    fun s => ∑ t ∈ system.ones.toFinset, c.probability s t
  refine ⟨f, ?_⟩
  intro s open_
  rw [poses.average_eq]
  exact average s (List.mem_toFinset.mpr open_)

/-- A function that nowhere in the open states falls short of its average, and nowhere else of the
extended solution, is not smaller than the solution. -/
theorem averages_le (poses : system.Poses c goal avoid) (made : c.WellFormed)
    (rows : ∀ s < c.size, c.outflow s ≤ 1) {f y : Nat → ℚ} (averages : system.Averages c f)
    (above : ∀ s ∈ system.rest, ∑ t ∈ Finset.range c.size, c.probability s t * y t ≤ y s)
    (outside : ∀ s < c.size, s ∉ system.rest → system.extend f s ≤ y s) {s : Nat}
    (open_ : s ∈ system.rest) : f s ≤ y s := by
  rw [← poses.extend_of_rest f open_]
  refine made.le_of_average rows poses.rest_reaches ?_ ?_ ?_ (List.mem_toFinset.mpr open_)
  · intro t member
    have open_ : t ∈ system.rest := List.mem_toFinset.mp member
    rw [poses.extend_of_rest f open_]
    exact le_of_eq (averages t open_)
  · intro t member
    exact above t (List.mem_toFinset.mp member)
  · intro t _ u edge left
    exact outside u (made.edge_own edge).2 fun there => left (List.mem_toFinset.mpr there)

theorem averages_unique (poses : system.Poses c goal avoid) (made : c.WellFormed)
    (rows : ∀ s < c.size, c.outflow s ≤ 1) {f g : Nat → ℚ} (first : system.Averages c f)
    (second : system.Averages c g) {s : Nat} (open_ : s ∈ system.rest) : f s = g s := by
  have smaller {f g : Nat → ℚ} (first : system.Averages c f) (second : system.Averages c g) :
      f s ≤ g s := by
    rw [← poses.extend_of_rest g open_]
    refine poses.averages_le made rows first ?_ ?_ open_
    · intro t there
      rw [poses.extend_of_rest g there]
      exact le_of_eq (second t there).symm
    · intro t _ settled
      simp [extend, settled]
  exact le_antisymm (smaller first second) (smaller second first)

theorem averages_nonneg (poses : system.Poses c goal avoid) (made : c.WellFormed)
    (rows : ∀ s < c.size, c.outflow s ≤ 1) {f : Nat → ℚ} (averages : system.Averages c f)
    {s : Nat} (open_ : s ∈ system.rest) : 0 ≤ f s := by
  rw [← poses.extend_of_rest f open_]
  refine made.le_of_average (x := fun _ => 0) rows poses.rest_reaches ?_ ?_ ?_
    (List.mem_toFinset.mpr open_)
  · intro t _
    simp
  · intro t member
    have there : t ∈ system.rest := List.mem_toFinset.mp member
    rw [poses.extend_of_rest f there]
    exact le_of_eq (averages t there).symm
  · intro t _ u _ left
    have settled : u ∉ system.rest := fun there => left (List.mem_toFinset.mpr there)
    rw [extend, if_neg settled]
    split
    · exact zero_le_one
    · exact le_refl 0

theorem averages_le_one (poses : system.Poses c goal avoid) (made : c.WellFormed)
    (rows : ∀ s < c.size, c.outflow s ≤ 1) {f : Nat → ℚ} (averages : system.Averages c f)
    {s : Nat} (open_ : s ∈ system.rest) : f s ≤ 1 := by
  refine poses.averages_le (y := fun _ => 1) made rows averages ?_ ?_ open_
  · intro t there
    simp only [mul_one]
    exact rows t (poses.ownRest t there)
  · intro t _ settled
    rw [extend, if_neg settled]
    split
    · exact le_refl 1
    · exact zero_le_one

theorem extend_nonneg (poses : system.Poses c goal avoid) (made : c.WellFormed)
    (rows : ∀ s < c.size, c.outflow s ≤ 1) {f : Nat → ℚ} (averages : system.Averages c f)
    (s : Nat) : 0 ≤ system.extend f s := by
  simp only [extend]
  split
  · exact zero_le_one
  · split
    · next open_ => exact poses.averages_nonneg made rows averages open_
    · exact le_refl 0

/-- The average in a state of probability one that is no goal: all its mass goes to states of
probability one. -/
theorem average_of_ones (poses : system.Poses c goal avoid) (tight : system.Tight c goal)
    (f : Nat → ℚ) {s : Nat} (one : s ∈ system.ones) (noGoal : goal.contains s = false) :
    system.average c f s = 1 := by
  have next : ∀ t, c.Edge s t → system.extend f t = 1 := fun t edge =>
    if_pos (poses.closed s one noGoal t edge)
  rw [average, Chain.sum_congr_of_edge next]
  simp only [mul_one]
  exact tight s one noGoal

theorem extend_of_cutOff (poses : system.Poses c goal avoid) (f : Nat → ℚ) {s : Nat}
    (noGoal : goal.contains s = false) (cutOff : ¬ c.Reaches goal avoid s) :
    system.extend f s = 0 := by
  rw [← poses.reaches s noGoal, not_or] at cutOff
  rw [extend, if_neg cutOff.1, if_neg cutOff.2]

theorem average_of_cutOff (poses : system.Poses c goal avoid) (f : Nat → ℚ) {s : Nat}
    (noGoal : goal.contains s = false) (allowed : avoid.contains s = false)
    (cutOff : ¬ c.Reaches goal avoid s) : system.average c f s = 0 := by
  have next : ∀ t, c.Edge s t → system.extend f t = 0 := by
    intro t edge
    obtain ⟨noHit, cutOffNext⟩ := Chain.not_reaches_next cutOff noGoal allowed edge
    exact poses.extend_of_cutOff f noHit cutOffNext
  rw [average, Chain.sum_congr_of_edge next]
  simp

/-- Where a state is neither open nor goal nor to avoid, every extended function is its own
average. -/
theorem extend_eq_average_of_settled (poses : system.Poses c goal avoid)
    (tight : system.Tight c goal) (f : Nat → ℚ) {s : Nat} (noGoal : goal.contains s = false)
    (allowed : avoid.contains s = false) (settled : s ∉ system.rest) :
    system.extend f s = system.average c f s := by
  by_cases one : s ∈ system.ones
  · rw [poses.average_of_ones tight f one noGoal]
    exact if_pos one
  · -- What is neither of probability one nor open does not reach the goal.
    have cutOff : ¬ c.Reaches goal avoid s := by
      rw [← poses.reaches s noGoal, not_or]
      exact ⟨one, settled⟩
    rw [poses.extend_of_cutOff f noGoal cutOff, poses.average_of_cutOff f noGoal allowed cutOff]

/-- Where a state is neither goal nor to avoid, the extended solution is its own average. -/
theorem extend_eq_average (poses : system.Poses c goal avoid) (tight : system.Tight c goal)
    {f : Nat → ℚ} (averages : system.Averages c f) {s : Nat} (noGoal : goal.contains s = false)
    (allowed : avoid.contains s = false) : system.extend f s = system.average c f s := by
  by_cases open_ : s ∈ system.rest
  · rw [poses.extend_of_rest f open_]
    exact averages s open_
  · exact poses.extend_eq_average_of_settled tight f noGoal allowed open_

variable {forbidden : StateSet}

theorem isSolution_extend (poses : system.Poses c goal (forbidden.diff goal))
    (made : c.WellFormed) (rows : ∀ s < c.size, c.outflow s ≤ 1) (tight : system.Tight c goal)
    {f : Nat → ℚ} (averages : system.Averages c f) :
    c.IsSolution goal.members forbidden.members (system.extend f) where
  nonneg := fun s _ => poses.extend_nonneg made rows averages s
  inGoal := fun s _ inGoal => if_pos (poses.goal_ones s inGoal)
  inBlocked := by
    intro s _ blocked noGoal
    rw [StateSet.mem_members, Bool.not_eq_true] at noGoal
    apply poses.extend_of_cutOff f noGoal
    intro reaches
    rw [StateSet.mem_members, reaches.free] at blocked
    cases blocked
  average := by
    intro s _ noGoal free
    rw [StateSet.mem_members, Bool.not_eq_true] at noGoal free
    exact poses.extend_eq_average tight averages noGoal (by simp [free])

/-- Every solution is at least one in the states taken to have probability one. -/
theorem one_le_of_ones (poses : system.Poses c goal (forbidden.diff goal))
    (made : c.WellFormed) (rows : ∀ s < c.size, c.outflow s ≤ 1) (tight : system.Tight c goal)
    {y : Nat → ℚ} (solution : c.IsSolution goal.members forbidden.members y) {s : Nat}
    (one : s ∈ system.ones) : 1 ≤ y s := by
  by_cases inGoal : goal.contains s = true
  · exact le_of_eq (solution.inGoal s (poses.ownOnes s one) inGoal).symm
  · let sure : Finset Nat := (system.ones.filter fun t => !goal.contains t).toFinset
    -- The sure states reach the goal and lead only to the goal and to each other, where the solution
    -- is one or its own average.
    have mem_sure {t : Nat} : t ∈ sure ↔ t ∈ system.ones ∧ goal.contains t = false := by
      simp [sure]
    have reaching : ∀ t ∈ sure, c.Reaches goal (forbidden.diff goal) t := by
      intro t member
      obtain ⟨isOne, noGoal⟩ := mem_sure.mp member
      exact (poses.reaches t noGoal).mp (.inl isOne)
    refine made.le_of_average (x := fun _ => 1) rows reaching ?_ ?_ ?_
      (mem_sure.mpr ⟨one, Bool.not_eq_true _ ▸ inGoal⟩)
    · intro t member
      obtain ⟨isOne, noGoal⟩ := mem_sure.mp member
      simp only [mul_one]
      exact le_of_eq (tight t isOne noGoal).symm
    · intro t member
      obtain ⟨isOne, noGoal⟩ := mem_sure.mp member
      refine le_of_eq (solution.average t (poses.ownOnes t isOne) ?_ ?_).symm
      · simp [noGoal]
      · simp [(reaching t member).free]
    · intro t member u edge left
      obtain ⟨isOne, noGoal⟩ := mem_sure.mp member
      have next : u ∈ system.ones := poses.closed t isOne noGoal u edge
      have hit : goal.contains u = true := by
        rw [mem_sure, not_and, Bool.not_eq_false] at left
        exact left next
      exact le_of_eq (solution.inGoal u (poses.ownOnes u next) hit).symm

theorem isLeastSolution_extend (poses : system.Poses c goal (forbidden.diff goal))
    (made : c.WellFormed) (rows : ∀ s < c.size, c.outflow s ≤ 1) (tight : system.Tight c goal)
    {f : Nat → ℚ} (averages : system.Averages c f) :
    c.IsLeastSolution goal.members forbidden.members (system.extend f) := by
  refine ⟨poses.isSolution_extend made rows tight averages, ?_⟩
  intro y solution s own
  -- In the states that are not open the extension is one or zero.
  have outside : ∀ t < c.size, t ∉ system.rest → system.extend f t ≤ y t := by
    intro t there settled
    rw [extend, if_neg settled]
    split
    · next one => exact poses.one_le_of_ones made rows tight solution one
    · exact solution.nonneg t there
  by_cases open_ : s ∈ system.rest
  · rw [poses.extend_of_rest f open_]
    refine poses.averages_le made rows averages ?_ outside open_
    intro t there
    refine le_of_eq (solution.average t (poses.ownRest t there) ?_ ?_).symm
    · simp [poses.goal_of_rest there]
    · simp [(poses.rest_reaches t (List.mem_toFinset.mpr there)).free]
  · exact outside s own open_

theorem existsUnique_balance (poses : system.Poses c goal avoid) (made : c.WellFormed)
    (rows : ∀ s < c.size, c.outflow s ≤ 1) :
    ∃! x, system.balance.mulVec x = .ok system.vector := by
  obtain ⟨f, averages⟩ := poses.exists_averages made rows
  refine ⟨(system.rest.map f).toArray, (poses.balance_iff f).mpr averages, ?_⟩
  intro y solved
  have size : y.size = system.rest.length :=
    ((Matrix.mulVec_eq_ok _ _ _).mp solved).1.trans poses.size_vector
  -- Any other solution also lists the values of a function in the open states.
  obtain ⟨g, rfl⟩ := System.exists_values poses.nodupRest size
  refine congrArg List.toArray (List.map_congr_left ?_)
  intro s open_
  exact poses.averages_unique made rows ((poses.balance_iff g).mp solved) averages open_

theorem exists_direct (poses : system.Poses c goal avoid)
    (regular : Reachability.direct system.matrix system.vector ≠ .error .singular) :
    ∃ f, system.Averages c f ∧
      Reachability.direct system.matrix system.vector = .ok (system.rest.map f).toArray := by
  obtain ⟨x, found⟩ := Matrix.solve_ne_misuse (m := system.balance) rfl rfl regular
  have solved : system.balance.mulVec x = .ok system.vector :=
    (Matrix.solve_eq_ok found x).mpr rfl
  have size : x.size = system.rest.length :=
    ((Matrix.mulVec_eq_ok _ _ _).mp solved).1.trans poses.size_vector
  obtain ⟨f, rfl⟩ := System.exists_values poses.nodupRest size
  exact ⟨f, (poses.balance_iff f).mp solved, found⟩

end Poses

end System

/-! ## The least solution -/

namespace Chain

variable {c : Chain ℚ} {goal forbidden : StateSet} {system : System ℚ}

section Least

variable (made : c.WellFormed) (rows : ∀ s < c.size, c.outflow s ≤ 1)
  (ownGoal : goal.Within c.size) (ownForbidden : forbidden.Within c.size)
include made rows ownGoal ownForbidden

/-- With all states that reach the goal left open, the equations determine a least solution. -/
theorem WellFormed.exists_extend (nonempty : 0 < c.size) :
    ∃ (system : System ℚ) (f : Nat → ℚ), system.Poses c goal (forbidden.diff goal) ∧
      system.Averages c f ∧
      c.IsLeastSolution goal.members forbidden.members (system.extend f) := by
  obtain ⟨system, _, poses, onlyGoal⟩ := made.system_eq_ok nonempty ownGoal ownForbidden true
  obtain ⟨f, averages⟩ := poses.exists_averages made rows
  have tight : system.Tight c goal := by
    intro s one noGoal
    rw [onlyGoal rfl s one] at noGoal
    cases noGoal
  exact ⟨system, f, poses, averages, poses.isLeastSolution_extend made rows tight averages⟩

theorem WellFormed.exists_isLeastSolution :
    ∃ x, c.IsLeastSolution goal.members forbidden.members x := by
  rcases Nat.eq_zero_or_pos c.size with empty | nonempty
  · -- Without states there is nothing to solve.
    have none {s : Nat} : ¬ s < c.size := by omega
    exact ⟨fun _ => 0, ⟨fun _ own => absurd own none, fun _ own => absurd own none,
      fun _ own => absurd own none, fun _ own => absurd own none⟩, fun _ _ _ own => absurd own none⟩
  · obtain ⟨system, f, _, _, least⟩ := made.exists_extend rows ownGoal ownForbidden nonempty
    exact ⟨_, least⟩

variable {x : Nat → ℚ} (least : c.IsLeastSolution goal.members forbidden.members x)
include least

theorem IsLeastSolution.eq_zero_of_cutOff {s : Nat} (own : s < c.size)
    (noGoal : goal.contains s = false) (cutOff : ¬ c.Reaches goal (forbidden.diff goal) s) :
    x s = 0 := by
  obtain ⟨system, f, poses, _, least'⟩ :=
    made.exists_extend rows ownGoal ownForbidden (Nat.zero_lt_of_lt own)
  rw [least.unique least' own]
  exact poses.extend_of_cutOff f noGoal cutOff

theorem IsLeastSolution.le_one {s : Nat} (own : s < c.size) : x s ≤ 1 := by
  obtain ⟨system, f, poses, averages, least'⟩ :=
    made.exists_extend rows ownGoal ownForbidden (Nat.zero_lt_of_lt own)
  rw [least.unique least' own, System.extend]
  split
  · exact le_refl 1
  · split
    · next open_ => exact poses.averages_le_one made rows averages open_
    · exact zero_le_one

end Least

/-! ## The analysis -/

theorem WellFormed.reachability_isLeast (made : c.WellFormed) (visible : c.LosesVisibly)
    (found : c.system goal forbidden false = .ok system)
    (poses : system.Poses c goal (forbidden.diff goal))
    (regular : Reachability.direct system.matrix system.vector ≠ .error .singular)
    {o : Options ℚ} (byElimination : o.method = .direct) :
    ∃ v, c.reachability goal forbidden none o = .ok v ∧ v.size = c.size ∧
      c.IsLeastSolution goal.members forbidden.members fun s => v.getD s 0 := by
  obtain ⟨f, averages, direct⟩ := poses.exists_direct regular
  have solved : system.solve none o = .ok (system.rest.map f).toArray := by
    simp only [System.solve_none, Reachability.unbounded_eq, byElimination, direct]
  have assembled := poses.assemble_of_unit fun s open_ =>
    ⟨poses.averages_nonneg made (fun _ => visible.outflow_le) averages open_,
      poses.averages_le_one made (fun _ => visible.outflow_le) averages open_⟩
  have returned := (c.reachability_eq goal forbidden none o).trans (Outcome.bind_eq_ok.mpr
    ⟨system, found, Outcome.bind_eq_ok.mpr ⟨_, solved, assembled⟩⟩)
  refine ⟨_, returned, Array.size_ofFn,
    (poses.isLeastSolution_extend made (fun _ => visible.outflow_le) (poses.tight visible)
      averages).congr ?_⟩
  intro s own
  simp [own]

/-- Let the outgoing probabilities of each state sum to one, or to less than one by more than the
tolerance. Then the equations that an analysis without a step bound sets up and solves have exactly
one solution; and unless elimination reports them singular, the analysis returns the least
non-negative solution of the equations over all states. -/
theorem reachability_least (constructed : Constructed c) (nonempty : 0 < c.size)
    (visible : c.LosesVisibly) (ownGoal : goal.Within c.size)
    (ownForbidden : forbidden.Within c.size) :
    ∃ system, c.system goal forbidden false = .ok system ∧
      (∀ o, c.reachability goal forbidden none o = system.solve none o >>= system.assemble c.size) ∧
      (∃! x, system.balance.mulVec x = .ok system.vector) ∧
      (Reachability.direct system.matrix system.vector ≠ .error .singular →
        ∀ o : Options ℚ, o.method = .direct →
          ∃ v, c.reachability goal forbidden none o = .ok v ∧ v.size = c.size ∧
            c.IsLeastSolution goal.members forbidden.members fun s => v.getD s 0) := by
  have made := constructed.wellFormed
  obtain ⟨system, found, poses, _⟩ := made.system_eq_ok nonempty ownGoal ownForbidden false
  refine ⟨system, found, ?_, poses.existsUnique_balance made fun _ => visible.outflow_le, ?_⟩
  · intro o
    rw [reachability_eq, Option.isSome_none, found]
    rfl
  · intro regular o byElimination
    exact made.reachability_isLeast visible found poses regular byElimination

/-- A game that is repeated with probability one half and otherwise won or lost is won with
probability one half. -/
theorem reachability_least_game :
    let c : Chain ℚ := ⟨0, 6, #[⟨0, "play", []⟩, ⟨1, "won", []⟩, ⟨2, "lost", []⟩],
      [⟨0, 0, 1 / 2⟩, ⟨0, 1, 1 / 4⟩, ⟨0, 2, 1 / 4⟩], some 0, none⟩
    let v : Array ℚ := #[1 / 2, 1, 0]
    Constructed c ∧ c.LosesVisibly ∧
      c.reachability (.ofList [1]) (.ofList [2]) none Options.default = .ok v ∧
      c.IsLeastSolution (StateSet.ofList [1]).members (StateSet.ofList [2]).members
        fun s => v.getD s 0 := by
  intro c v
  have constructed : Constructed c := constructed_of_addAll (by with_unfolding_all rfl)
  have visible : c.LosesVisibly := by
    simp only [LosesVisibly]
    decide +kernel
  obtain ⟨system, found, _, _, returns⟩ := reachability_least constructed (by decide) visible
    (StateSet.within_ofList [1] (by decide)) (StateSet.within_ofList [2] (by decide))
  have regular : Reachability.direct system.matrix system.vector ≠ .error .singular := by
    intro singular
    have solvable : (c.system (.ofList [1]) (.ofList [2]) false >>= fun system =>
        Reachability.direct system.matrix system.vector).isOk = true := by decide +kernel
    rw [found] at solvable
    change (Reachability.direct system.matrix system.vector).isOk = true at solvable
    rw [singular] at solvable
    cases solvable
  obtain ⟨v', returned, _, least⟩ := returns regular Options.default rfl
  have value : c.reachability (.ofList [1]) (.ofList [2]) none Options.default = .ok v := by
    decide +kernel
  cases value.symm.trans returned
  exact ⟨constructed, visible, value, least⟩

end Chain

end MarkovCheck

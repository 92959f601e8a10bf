import MarkovCheck.Proofs.Reachability.LeastSolution

/-!
# Reaching the goal with probability one

The graph tells which states reach the goal with probability one: those that, before they get there,
visit only states that reach the goal and lose no mass. An analysis asks the same question with a
tolerance, so it takes a state to be sure even if mass gets lost, as long as no state on the way
loses more than the tolerance. It overlooks no state, and it is mistaken exactly about the states
that can get to a state with such a small loss.

* `Chain.IsLeastSolution.eq_one_iff`: where the least solution is one
* `Chain.almostSure_iff`: what the sure states of an analysis have to do with that
* `Chain.almostSure_small_loss`: a state taken to be sure that fails half of the time
-/

namespace MarkovCheck.Chain

variable {c : Chain ℚ} {goal forbidden : StateSet}

section Least

variable (made : c.WellFormed) (rows : ∀ s < c.size, c.outflow s ≤ 1)
  (ownGoal : goal.Within c.size) (ownForbidden : forbidden.Within c.size) {x : Nat → ℚ}
  (least : c.IsLeastSolution goal.members forbidden.members x)
include made rows ownGoal ownForbidden least

theorem IsLeastSolution.reaches_of_eq_one {s : Nat} (own : s < c.size)
    (noGoal : goal.contains s = false) (one : x s = 1) :
    c.Reaches goal (forbidden.diff goal) s := by
  by_contra cutOff
  have zero := least.eq_zero_of_cutOff made rows ownGoal ownForbidden own noGoal cutOff
  exact zero_ne_one (zero.symm.trans one)

/-- Outside the goal, probability one loses no mass and spreads to the next states. -/
theorem IsLeastSolution.one_spreads {s : Nat} (own : s < c.size)
    (noGoal : goal.contains s = false) (one : x s = 1) :
    c.outflow s = 1 ∧ ∀ t, c.Edge s t → x t = 1 := by
  have reaches := least.reaches_of_eq_one made rows ownGoal ownForbidden own noGoal one
  have average : x s = ∑ t ∈ Finset.range c.size, c.probability s t * x t :=
    least.average s own (by simp [noGoal]) (by simp [reaches.free])
  have largest : ∀ t ∈ Finset.range c.size, x t ≤ x s := by
    intro t member
    rw [one]
    exact least.le_one made rows ownGoal ownForbidden (Finset.mem_range.mp member)
  obtain ⟨full, same⟩ := MaximumPrinciple.largest_spreads made.probability_nonneg (rows s own)
    largest (one ▸ zero_lt_one) (le_of_eq average)
  refine ⟨full, ?_⟩
  intro t edge
  rw [← one]
  exact same t (Finset.mem_range.mpr (made.edge_own edge).2) (made.probability_pos.mpr edge)

/-- The goal is reached with probability one from the states that, outside the goal, lead only to
states that reach the goal and lose no mass. -/
theorem IsLeastSolution.eq_one_iff {s : Nat} (own : s < c.size)
    (noGoal : goal.contains s = false) :
    x s = 1 ↔ ∀ t, c.Leads goal.membersᶜ s t → goal.contains t = false →
      c.Reaches goal (forbidden.diff goal) t ∧ c.outflow t = 1 := by
  constructor
  · intro one t leads noGoalThere
    -- Probability one spreads along the path.
    have oneThere : x t = 1 := by
      clear noGoalThere
      induction leads with
      | refl => exact one
      | tail before step inductionHypothesis =>
        exact (least.one_spreads made rows ownGoal ownForbidden (made.leads_own before own)
          (by simpa using step.1) inductionHypothesis).2 _ step.2
    have ownThere := made.leads_own leads own
    exact ⟨least.reaches_of_eq_one made rows ownGoal ownForbidden ownThere noGoalThere oneThere,
      (least.one_spreads made rows ownGoal ownForbidden ownThere noGoalThere oneThere).1⟩
  · intro confined
    apply le_antisymm (least.le_one made rows ownGoal ownForbidden own)
    classical
    -- On the states that `s` leads to outside the goal, one is its own average, as the solution is.
    let visited : Finset Nat := (Finset.range c.size).filter fun t =>
      c.Leads goal.membersᶜ s t ∧ goal.contains t = false
    have confinedThere {t : Nat} (member : t ∈ visited) :
        c.Reaches goal (forbidden.diff goal) t ∧ c.outflow t = 1 := by
      obtain ⟨_, leads, noGoalThere⟩ := Finset.mem_filter.mp member
      exact confined t leads noGoalThere
    refine made.le_of_average (U := visited) (x := fun _ => 1) rows
      (fun t member => (confinedThere member).1) ?_ ?_ ?_
      (Finset.mem_filter.mpr ⟨Finset.mem_range.mpr own, .refl, noGoal⟩)
    · intro t member
      simp only [mul_one]
      exact le_of_eq (confinedThere member).2.symm
    · intro t member
      obtain ⟨reaches, _⟩ := confinedThere member
      refine le_of_eq (least.average t (made.reaches_own reaches) ?_ ?_).symm
      · simp [reaches.outside]
      · simp [reaches.free]
    · intro t member u edge left
      obtain ⟨_, leads, noGoalThere⟩ := Finset.mem_filter.mp member
      have further : c.Leads goal.membersᶜ s u := leads.tail ⟨by simp [noGoalThere], edge⟩
      have ownNext := (made.edge_own edge).2
      -- What is left of the visited states is the goal.
      have hit : goal.contains u = true := by
        by_contra outside
        exact left (Finset.mem_filter.mpr
          ⟨Finset.mem_range.mpr ownNext, further, by simpa using outside⟩)
      exact le_of_eq (least.inGoal u ownNext hit).symm

/-- A certain state has probability one exactly if it leads only to states that lose no mass. -/
theorem IsLeastSolution.eq_one_iff_certain {s : Nat}
    (reaches : c.Reaches goal (forbidden.diff goal) s) :
    x s = 1 ↔ c.Certain goal forbidden s ∧
      ∀ t, c.Leads goal.membersᶜ s t → goal.contains t = false → c.outflow t = 1 := by
  have own := made.reaches_own reaches
  rw [least.eq_one_iff made rows ownGoal ownForbidden own reaches.outside]
  constructor
  · intro confined
    refine ⟨⟨reaches, ?_⟩, fun t leads noGoal => (confined t leads noGoal).2⟩
    intro t leads noGoal
    obtain ⟨reachesThere, full⟩ := confined t leads noGoal
    refine ⟨reachesThere, ?_⟩
    rw [made.fallsShort_iff (made.leads_own leads own), full, not_lt]
    exact sub_le_self 1 defaultTolerance_nonneg
  · rintro ⟨⟨_, confined⟩, full⟩ t leads noGoal
    exact ⟨(confined t leads noGoal).1, full t leads noGoal⟩

end Least

/-- Let no state give out more than all its mass. Then the good states from which the goal is
reached with probability one are those that an analysis takes to be sure and that, outside the goal,
lead only to states that lose no mass. So no such state is overlooked, and if every loss is larger
than the tolerance, they are the sure states. -/
theorem almostSure_iff (constructed : Constructed c) (rows : ∀ s < c.size, c.outflow s ≤ 1)
    (ownGoal : goal.Within c.size) (ownForbidden : forbidden.Within c.size) :
    ∃ (good sure : StateSet) (x : Nat → ℚ),
      c.canReach goal (forbidden.diff goal) = .ok good ∧ c.almostSure goal good = .ok sure ∧
      c.partition goal forbidden false = .ok ⟨sure, good.diff sure⟩ ∧
      c.IsLeastSolution goal.members forbidden.members x ∧
      (∀ s, s ∈ good.members ∧ x s = 1 ↔ s ∈ sure.members ∧
        ∀ t ∉ goal.members, c.Leads goal.membersᶜ s t → c.outflow t = 1) ∧
      (c.LosesVisibly → ∀ s, s ∈ sure.members ↔ s ∈ good.members ∧ x s = 1) := by
  have made := constructed.wellFormed
  obtain ⟨x, least⟩ := made.exists_isLeastSolution rows ownGoal ownForbidden
  have reached := canReach_eq_ok ownGoal (forbidden.diff goal)
  obtain ⟨sure, found, certain⟩ := made.almostSure_certain goal forbidden
  have lossless (s : Nat) : s ∈ (c.backward goal (forbidden.diff goal)).members ∧ x s = 1 ↔
      s ∈ sure.members ∧ ∀ t ∉ goal.members, c.Leads goal.membersᶜ s t → c.outflow t = 1 := by
    rw [StateSet.mem_members, StateSet.mem_members, certain, made.contains_backward]
    constructor
    · rintro ⟨reaches, one⟩
      obtain ⟨isCertain, full⟩ :=
        (least.eq_one_iff_certain made rows ownGoal ownForbidden reaches).mp one
      exact ⟨isCertain, fun t noGoal leads => full t leads (by simpa using noGoal)⟩
    · rintro ⟨isCertain, full⟩
      have one := (least.eq_one_iff_certain made rows ownGoal ownForbidden isCertain.1).mpr
        ⟨isCertain, fun t leads noGoal => full t (by simp [noGoal]) leads⟩
      exact ⟨isCertain.1, one⟩
  refine ⟨_, sure, x, reached, found, Outcome.bind_eq_ok.mpr ⟨_, reached,
    Outcome.bind_eq_ok.mpr ⟨sure, found, rfl⟩⟩, least, lossless, ?_⟩
  intro visible s
  rw [lossless]
  refine (and_iff_left_of_imp ?_).symm
  intro member t noGoal leads
  obtain ⟨reaches, confined⟩ := (certain s).mp member
  have own := made.leads_own leads (made.reaches_own reaches)
  obtain ⟨_, full⟩ := confined t leads (by simpa using noGoal)
  rw [made.fallsShort_iff own, not_lt] at full
  exact visible.outflow_eq own full

/-- A state that gets to the goal with probability one quarter and otherwise tries again, or goes to
a state that loses a quarter of its mass: the first is sure, and the second is not. -/
theorem almostSure_iff_visible :
    let c : Chain ℚ := ⟨0, 7, #[⟨0, "try", []⟩, ⟨1, "done", []⟩, ⟨2, "risk", []⟩],
      [⟨0, 0, 3 / 4⟩, ⟨0, 1, 1 / 4⟩, ⟨2, 0, 1 / 2⟩, ⟨2, 1, 1 / 4⟩], some 0, none⟩
    let goal := StateSet.ofList [1]
    Constructed c ∧ c.LosesVisibly ∧
      ∃ (good sure : StateSet) (x : Nat → ℚ), c.almostSure goal good = .ok sure ∧
        c.IsLeastSolution goal.members StateSet.empty.members x ∧
        sure.contains 0 = true ∧ sure.contains 2 = false ∧
        ∀ s, s ∈ sure.members ↔ s ∈ good.members ∧ x s = 1 := by
  intro c goal
  have constructed : Constructed c := constructed_of_addAll (by with_unfolding_all rfl)
  have visible : c.LosesVisibly := by
    simp only [LosesVisibly]
    decide +kernel
  have ownGoal : goal.Within c.size := StateSet.within_ofList [1] (by decide)
  obtain ⟨good, sure, x, reached, found, _, least, _, same⟩ := almostSure_iff constructed
    (fun _ => visible.outflow_le) ownGoal (StateSet.within_empty _)
  have sorted : (c.canReach goal (StateSet.empty.diff goal) >>= c.almostSure goal).map
      (fun sure => (sure.contains 0, sure.contains 2)) = .ok (true, false) := by decide +kernel
  rw [reached] at sorted
  change (c.almostSure goal good).map _ = _ at sorted
  rw [found] at sorted
  have members := Prod.mk.inj (Except.ok.inj sorted)
  exact ⟨constructed, visible, good, sure, x, found, least, members.1, members.2, same visible⟩

/-- A state that gets to the goal as rarely as it loses its mass, both with probability less than
the tolerance, is taken to be sure; but the least solution is one half there. -/
theorem almostSure_small_loss :
    let c : Chain ℚ := ⟨0, 4, #[⟨0, "try", []⟩, ⟨1, "done", []⟩],
      [⟨0, 0, 1 - 1 / 2 ^ 30⟩, ⟨0, 1, 1 / 2 ^ 31⟩], some 0, none⟩
    let goal := StateSet.ofList [1]
    let x : Nat → ℚ := fun s => if s = 0 then 1 / 2 else 1
    Constructed c ∧ (∀ s < c.size, c.outflow s ≤ 1) ∧
      c.IsLeastSolution goal.members StateSet.empty.members x ∧
      (∃ good sure, c.canReach goal (StateSet.empty.diff goal) = .ok good ∧
        c.almostSure goal good = .ok sure ∧ 0 ∈ sure.members ∧ x 0 ≠ 1) ∧
      c.reachability goal .empty none Options.default = .ok #[1, 1] := by
  intro c goal x
  have constructed : Constructed c := constructed_of_addAll (by with_unfolding_all rfl)
  have goal_iff {s : Nat} : s ∈ goal.members ↔ s = 1 := by
    simp [goal, StateSet.contains_ofList]
  have again : c.probability 0 0 = 1 - 1 / 2 ^ 30 := by decide +kernel
  have done : c.probability 0 1 = 1 / 2 ^ 31 := by decide +kernel
  have average (y : Nat → ℚ) : ∑ t ∈ Finset.range c.size, c.probability 0 t * y t =
      (1 - 1 / 2 ^ 30) * y 0 + 1 / 2 ^ 31 * y 1 := by
    change ∑ t ∈ Finset.range 2, c.probability 0 t * y t = _
    rw [Finset.sum_range_succ, Finset.sum_range_one, again, done]
  have first {s : Nat} (own : s < c.size) (noGoal : s ∉ goal.members) : s = 0 := by
    have below : s < 2 := own
    rw [goal_iff] at noGoal
    omega
  have solution : c.IsSolution goal.members StateSet.empty.members x := by
    constructor
    · intro s _
      simp only [x]
      split <;> norm_num
    · intro s _ inGoal
      simp [x, goal_iff.mp inGoal]
    · intro s _ blocked
      simp at blocked
    · intro s own noGoal _
      rw [first own noGoal, average]
      norm_num [x]
  have least : c.IsLeastSolution goal.members StateSet.empty.members x := by
    refine ⟨solution, ?_⟩
    intro y other s own
    have hit : y 1 = 1 := other.inGoal 1 (by decide) (goal_iff.mpr rfl)
    by_cases inGoal : s ∈ goal.members
    · rw [goal_iff.mp inGoal, hit]
      norm_num [x]
    · have equation := other.average s own inGoal (by simp)
      rw [first own inGoal, average, hit] at equation
      rw [first own inGoal]
      simp only [x, if_pos]
      linarith
  have sorted : (c.canReach goal (StateSet.empty.diff goal) >>= c.almostSure goal).map
      (·.contains 0) = .ok true := by decide +kernel
  have made := constructed.wellFormed
  have ownGoal : goal.Within c.size := StateSet.within_ofList [1] (by decide)
  have reached := canReach_eq_ok ownGoal (StateSet.empty.diff goal)
  obtain ⟨sure, found, _⟩ := made.almostSure_certain goal .empty
  rw [reached] at sorted
  change (c.almostSure goal _).map _ = _ at sorted
  rw [found] at sorted
  refine ⟨constructed, by decide +kernel, least, ⟨_, sure, reached, found, ?_, ?_⟩, ?_⟩
  · exact Except.ok.inj sorted
  · norm_num [x]
  · decide +kernel

end MarkovCheck.Chain

import Mathlib.Algebra.Order.Archimedean.Basic
import MarkovCheck.Proofs.Reachability.LeastSolution
import MarkovCheck.Proofs.Reachability.PathWeight

/-!
# More steps approach the probability without a bound

With more steps allowed, the probability of reaching the goal does not fall, and it stays below the
probability without a bound. The difference is spread over the states that reach the goal, and there
it moves like mass that is not yet lost: from every such state some mass gets lost within a fixed
number of steps, so what is left after many rounds of these steps falls geometrically.

* `MaximumPrinciple.remaining`: the mass that is left after a number of steps
* `MaximumPrinciple.Lossy.exists_remaining_lt`: it gets as small as one likes
* `Chain.IsLeastSolution.exists_shortfall_lt`: the weight of paths approaches the least solution
* `Chain.reachability_approaches`: the analyses with step bounds approach the one without
-/

namespace MarkovCheck

/-! ## Mass that is left -/

namespace MaximumPrinciple

variable {S : Type}

/-- Of a unit of mass in a state, what is left in `U` after a number of steps. -/
def remaining (U : Finset S) (P : S → S → ℚ) : Nat → S → ℚ
  | 0, _ => 1
  | k + 1, s => ∑ t ∈ U, P s t * remaining U P k t

namespace Lossy

variable {U : Finset S} {P : S → S → ℚ}

theorem remaining_nonneg (lossy : Lossy U P) (k : Nat) (s : S) : 0 ≤ remaining U P k s := by
  induction k generalizing s with
  | zero => exact zero_le_one
  | succ k inductionHypothesis =>
    exact Finset.sum_nonneg fun t _ => mul_nonneg (lossy.nonneg s t) (inductionHypothesis t)

theorem remaining_succ_le (lossy : Lossy U P) (k : Nat) {s : S} (inside : s ∈ U) :
    remaining U P (k + 1) s ≤ remaining U P k s := by
  induction k generalizing s with
  | zero =>
    simp only [remaining, mul_one]
    exact lossy.rows s inside
  | succ k inductionHypothesis =>
    exact Finset.sum_le_sum fun t member =>
      mul_le_mul_of_nonneg_left (inductionHypothesis member) (lossy.nonneg s t)

theorem remaining_anti (lossy : Lossy U P) {s : S} (inside : s ∈ U) :
    Antitone fun k => remaining U P k s :=
  antitone_nat_of_succ_le fun k => lossy.remaining_succ_le k inside

/-- Along a way that loses mass, some is lost when it has been gone. -/
theorem exists_remaining_lt_one (lossy : Lossy U P) {s : S} (inside : s ∈ U) :
    ∃ n, remaining U P n s < 1 := by
  have way := lossy.loses s inside
  induction way with
  | here short => exact ⟨1, by simpa [remaining] using short⟩
  | @along s t next weight _ inductionHypothesis =>
    obtain ⟨n, less⟩ := inductionHypothesis next
    refine ⟨n + 1, lt_of_lt_of_le (Finset.sum_lt_sum ?_ ⟨t, next, ?_⟩)
      (lossy.rows s inside)⟩
    · intro u member
      exact mul_le_of_le_one_right (lossy.nonneg s u) (lossy.remaining_anti member n.zero_le)
    · exact mul_lt_of_lt_one_right weight less

/-- One number of steps serves all states, and leaves no more than a certain part anywhere. -/
theorem exists_uniform (lossy : Lossy U P) :
    ∃ n r, 0 ≤ r ∧ r < 1 ∧ ∀ s ∈ U, remaining U P n s ≤ r := by
  classical
  choose! enough less using fun s (inside : s ∈ U) => lossy.exists_remaining_lt_one inside
  rcases U.eq_empty_or_nonempty with rfl | nonempty
  · exact ⟨0, 0, le_refl 0, zero_lt_one, by simp⟩
  · let n := U.sup enough
    obtain ⟨top, topInside, largest⟩ := U.exists_max_image (remaining U P n) nonempty
    refine ⟨n, remaining U P n top, lossy.remaining_nonneg n top, ?_, largest⟩
    exact lt_of_le_of_lt (lossy.remaining_anti topInside (Finset.le_sup topInside))
      (less top topInside)

theorem remaining_add_le (lossy : Lossy U P) {n : Nat} {r : ℚ}
    (left : ∀ s ∈ U, remaining U P n s ≤ r) (k : Nat) {s : S} (inside : s ∈ U) :
    remaining U P (k + n) s ≤ r * remaining U P k s := by
  induction k generalizing s with
  | zero =>
    rw [Nat.zero_add, remaining, mul_one]
    exact left s inside
  | succ k inductionHypothesis =>
    rw [Nat.succ_add, remaining, remaining, Finset.mul_sum]
    apply Finset.sum_le_sum
    intro t member
    rw [mul_left_comm]
    exact mul_le_mul_of_nonneg_left (inductionHypothesis member) (lossy.nonneg s t)

theorem remaining_mul_le (lossy : Lossy U P) {n : Nat} {r : ℚ} (nonneg : 0 ≤ r)
    (left : ∀ s ∈ U, remaining U P n s ≤ r) (j : Nat) {s : S} (inside : s ∈ U) :
    remaining U P (j * n) s ≤ r ^ j := by
  induction j with
  | zero => simp [remaining]
  | succ j inductionHypothesis =>
    rw [Nat.succ_mul, pow_succ']
    exact (lossy.remaining_add_le left (j * n) inside).trans
      (mul_le_mul_of_nonneg_left inductionHypothesis nonneg)

theorem exists_remaining_lt (lossy : Lossy U P) {ε : ℚ} (positive : 0 < ε) :
    ∃ K, ∀ k ≥ K, ∀ s ∈ U, remaining U P k s < ε := by
  obtain ⟨n, r, nonneg, less, left⟩ := lossy.exists_uniform
  obtain ⟨j, small⟩ := exists_pow_lt_of_lt_one positive less
  refine ⟨j * n, ?_⟩
  intro k late s inside
  calc remaining U P k s
      ≤ remaining U P (j * n) s := lossy.remaining_anti inside late
    _ ≤ r ^ j := lossy.remaining_mul_le nonneg left j inside
    _ < ε := small

/-- Quantities that start at most at one, and each of which is at most the average of the one before
over the next states, get as small as one likes. -/
theorem exists_lt_of_average (lossy : Lossy U P) {e : Nat → S → ℚ} (start : ∀ s ∈ U, e 0 s ≤ 1)
    (average : ∀ k, ∀ s ∈ U, e (k + 1) s ≤ ∑ t ∈ U, P s t * e k t) {ε : ℚ} (positive : 0 < ε) :
    ∃ K, ∀ k ≥ K, ∀ s ∈ U, e k s < ε := by
  have below : ∀ k, ∀ s ∈ U, e k s ≤ remaining U P k s := by
    intro k
    induction k with
    | zero => exact start
    | succ k inductionHypothesis =>
      intro s inside
      exact (average k s inside).trans (Finset.sum_le_sum fun t member =>
        mul_le_mul_of_nonneg_left (inductionHypothesis t member) (lossy.nonneg s t))
  obtain ⟨K, small⟩ := lossy.exists_remaining_lt positive
  exact ⟨K, fun k late s inside => (below k s inside).trans_lt (small k late s inside)⟩

end Lossy

end MaximumPrinciple

/-! ## The weight of paths and the least solution -/

namespace Chain

variable {c : Chain ℚ} {goal forbidden : StateSet} {x : Nat → ℚ}

theorem WellFormed.pathWeight_mono (made : c.WellFormed) (goal blocked : Set Nat) (s : Nat) :
    Monotone fun k => c.pathWeight goal blocked k s := by
  apply monotone_nat_of_le_succ
  intro k
  rw [pathWeight, pathWeight, Finset.sum_range_succ _ (k + 1)]
  refine le_add_of_nonneg_right (Finset.sum_nonneg fun w _ => ?_)
  exact Finset.prod_nonneg fun i _ => made.probability_nonneg _ _

/-- Paths of any length weigh no more than a solution says. -/
theorem IsSolution.pathWeight_le {goal blocked : Set Nat} (solution : c.IsSolution goal blocked x)
    (made : c.WellFormed) (k : Nat) {s : Nat} (own : s < c.size) :
    c.pathWeight goal blocked k s ≤ x s := by
  induction k generalizing s with
  | zero =>
    by_cases inGoal : s ∈ goal
    · rw [pathWeight_of_goal own inGoal, solution.inGoal s own inGoal]
    · rw [pathWeight_zero inGoal]
      exact solution.nonneg s own
  | succ k inductionHypothesis =>
    by_cases inGoal : s ∈ goal
    · rw [pathWeight_of_goal own inGoal, solution.inGoal s own inGoal]
    · by_cases isBlocked : s ∈ blocked
      · rw [pathWeight_of_blocked isBlocked inGoal]
        exact solution.nonneg s own
      · rw [pathWeight_succ own inGoal isBlocked, solution.average s own inGoal isBlocked]
        apply Finset.sum_le_sum
        intro t member
        exact mul_le_mul_of_nonneg_left (inductionHypothesis (Finset.mem_range.mp member))
          (made.probability_nonneg s t)

open Classical in
/-- The states outside the goal that reach it. -/
noncomputable def openStates (c : Chain ℚ) (goal forbidden : StateSet) : Finset Nat :=
  (Finset.range c.size).filter (c.Reaches goal (forbidden.diff goal))

/-- By how much the paths of at most `k` transitions weigh less than a solution says. -/
noncomputable def shortfall (c : Chain ℚ) (goal forbidden : StateSet) (x : Nat → ℚ)
    (k s : Nat) : ℚ :=
  x s - c.pathWeight goal.members forbidden.members k s

theorem WellFormed.mem_openStates (made : c.WellFormed) {s : Nat} :
    s ∈ c.openStates goal forbidden ↔ c.Reaches goal (forbidden.diff goal) s := by
  simp only [openStates, Finset.mem_filter, Finset.mem_range, and_iff_right_iff_imp]
  exact made.reaches_own

section Least

variable (made : c.WellFormed) (rows : ∀ s < c.size, c.outflow s ≤ 1)
  (ownGoal : goal.Within c.size) (ownForbidden : forbidden.Within c.size)
  (least : c.IsLeastSolution goal.members forbidden.members x)
include made rows ownGoal ownForbidden least

/-- Where the goal is reached or out of reach, no weight is missing. -/
theorem IsLeastSolution.shortfall_of_settled (k : Nat) {s : Nat} (own : s < c.size)
    (settled : s ∉ c.openStates goal forbidden) : c.shortfall goal forbidden x k s = 0 := by
  by_cases inGoal : s ∈ goal.members
  · rw [shortfall, pathWeight_of_goal own inGoal, least.inGoal s own inGoal, sub_self]
  · have noGoal : goal.contains s = false := by simpa using inGoal
    have cutOff : ¬ c.Reaches goal (forbidden.diff goal) s := by
      rwa [← made.mem_openStates]
    rw [shortfall, pathWeight_of_cutOff k own noGoal cutOff, sub_zero]
    exact least.eq_zero_of_cutOff made rows ownGoal ownForbidden own noGoal cutOff

/-- What is missing with one more transition allowed is the average of what was missing in the next
states. -/
theorem IsLeastSolution.shortfall_succ (k : Nat) {s : Nat}
    (open_ : s ∈ c.openStates goal forbidden) :
    c.shortfall goal forbidden x (k + 1) s =
      ∑ t ∈ c.openStates goal forbidden, c.probability s t * c.shortfall goal forbidden x k t := by
  have reaches := made.mem_openStates.mp open_
  have own := made.reaches_own reaches
  have noGoal : s ∉ goal.members := by simp [reaches.outside]
  have free : s ∉ forbidden.members := by simp [reaches.free]
  have whole : c.shortfall goal forbidden x (k + 1) s =
      ∑ t ∈ Finset.range c.size, c.probability s t * c.shortfall goal forbidden x k t := by
    simp only [shortfall, mul_sub, Finset.sum_sub_distrib, pathWeight_succ own noGoal free,
      ← least.average s own noGoal free]
  rw [whole]
  have inside : c.openStates goal forbidden ⊆ Finset.range c.size := fun t member =>
    Finset.mem_range.mpr (made.reaches_own (made.mem_openStates.mp member))
  refine (Finset.sum_subset inside ?_).symm
  intro t there settled
  rw [least.shortfall_of_settled made rows ownGoal ownForbidden k (Finset.mem_range.mp there)
    settled, mul_zero]

end Least

/-- The weight of the paths approaches the least solution in all states at once. -/
theorem IsLeastSolution.exists_shortfall_lt
    (least : c.IsLeastSolution goal.members forbidden.members x) (made : c.WellFormed)
    (visible : c.LosesVisibly) (ownGoal : goal.Within c.size)
    (ownForbidden : forbidden.Within c.size) {ε : ℚ} (positive : 0 < ε) :
    ∃ K, ∀ k ≥ K, ∀ s < c.size, c.shortfall goal forbidden x k s < ε := by
  have rows : ∀ s < c.size, c.outflow s ≤ 1 := fun _ => visible.outflow_le
  have lossy : MaximumPrinciple.Lossy (c.openStates goal forbidden) c.probability :=
    made.lossy rows fun s member => made.mem_openStates.mp member
  have start : ∀ s ∈ c.openStates goal forbidden, c.shortfall goal forbidden x 0 s ≤ 1 := by
    intro s member
    have own := made.reaches_own (made.mem_openStates.mp member)
    exact (sub_le_self _ (made.pathWeight_nonneg _ _ 0 s)).trans
      (least.le_one made rows ownGoal ownForbidden own)
  obtain ⟨K, below⟩ := lossy.exists_lt_of_average start (fun k s member =>
    le_of_eq (least.shortfall_succ made rows ownGoal ownForbidden k member)) positive
  refine ⟨K, ?_⟩
  intro k late s own
  by_cases member : s ∈ c.openStates goal forbidden
  · exact below k late s member
  · exact (least.shortfall_of_settled made rows ownGoal ownForbidden k own member).trans_lt
      positive

/-! ## The analysis -/

/-- Let the outgoing probabilities of each state sum to one, or to less than one by more than the
tolerance, and let elimination not report singular equations. Then the analyses with step bounds
return values that do not fall with the bound and do not exceed those of the analysis without one,
and that come as close to them as one likes, in all states at once. -/
theorem reachability_approaches (constructed : Constructed c) (visible : c.LosesVisibly)
    (ownGoal : goal.Within c.size) (ownForbidden : forbidden.Within c.size) {system : System ℚ}
    (found : c.system goal forbidden false = .ok system)
    (regular : Reachability.direct system.matrix system.vector ≠ .error .singular)
    {o : Options ℚ} (byElimination : o.method = .direct) (running : o.cancelledAfter = none) :
    ∃ (u : Array ℚ) (v : Nat → Array ℚ), c.reachability goal forbidden none o = .ok u ∧
      (∀ k, c.reachability goal forbidden (some k) o = .ok (v k)) ∧
      u.size = c.size ∧ (∀ k, (v k).size = c.size) ∧
      (∀ s < c.size, Monotone fun k => (v k).getD s 0) ∧
      (∀ s < c.size, ∀ k, (v k).getD s 0 ≤ u.getD s 0) ∧
      ∀ ε > 0, ∃ K, ∀ k ≥ K, ∀ s < c.size, |u.getD s 0 - (v k).getD s 0| < ε := by
  have made := constructed.wellFormed
  have nonempty : 0 < c.size := Nat.pos_of_ne_zero fun none => by
    rw [Chain.system, if_pos none] at found
    cases found
  obtain ⟨system', found', poses, _⟩ := made.system_eq_ok nonempty ownGoal ownForbidden false
  cases found.symm.trans found'
  obtain ⟨u, returned, size, least⟩ :=
    made.reachability_isLeast visible found poses regular byElimination
  -- The values with a step bound are the weights of the paths.
  let v (k : Nat) : Array ℚ := Array.ofFn fun s : Fin c.size =>
    c.pathWeight goal.members forbidden.members k s
  have bounded : ∀ k, c.reachability goal forbidden (some k) o = .ok (v k) := fun k =>
    made.reachability_bounded_of_rows (fun _ => visible.outflow_le) nonempty ownGoal ownForbidden k
      running
  have value {k s : Nat} (own : s < c.size) :
      (v k).getD s 0 = c.pathWeight goal.members forbidden.members k s := by
    simp [v, own]
  refine ⟨u, v, returned, bounded, size, fun k => Array.size_ofFn, ?_, ?_, ?_⟩
  · intro s own
    simp only [value own]
    exact made.pathWeight_mono goal.members forbidden.members s
  · intro s own k
    rw [value own]
    exact least.pathWeight_le made k own
  · intro ε positive
    obtain ⟨K, close⟩ := least.exists_shortfall_lt made visible ownGoal ownForbidden positive
    refine ⟨K, ?_⟩
    intro k late s own
    rw [value own, abs_of_nonneg (sub_nonneg.mpr (least.pathWeight_le made k own))]
    exact close k late s own

/-- A state that almost surely reaches the goal is not among the unknowns of the analysis without a
bound, but any number of steps may fail to get there. Another state gets to it with probability one
quarter and else nowhere. -/
theorem reachability_approaches_sure :
    let c : Chain ℚ := ⟨0, 6, #[⟨0, "try", []⟩, ⟨1, "done", []⟩, ⟨2, "enter", []⟩],
      [⟨0, 0, 1 / 2⟩, ⟨0, 1, 1 / 2⟩, ⟨2, 0, 1 / 4⟩], some 0, none⟩
    let u : Array ℚ := #[1, 1, 1 / 4]
    Constructed c ∧ c.LosesVisibly ∧
      c.reachability (.ofList [1]) .empty none Options.default = .ok u ∧
      c.reachability (.ofList [1]) .empty (some 2) Options.default = .ok #[3 / 4, 1, 1 / 8] ∧
      ∃ v : Nat → Array ℚ,
        (∀ k, c.reachability (.ofList [1]) .empty (some k) Options.default = .ok (v k)) ∧
        ∀ ε > 0, ∃ K, ∀ k ≥ K, ∀ s < 3, |u.getD s 0 - (v k).getD s 0| < ε := by
  intro c u
  have constructed : Constructed c := constructed_of_addAll (by with_unfolding_all rfl)
  have visible : c.LosesVisibly := by
    simp only [LosesVisibly]
    decide +kernel
  have value : c.reachability (.ofList [1]) .empty none Options.default = .ok u := by
    decide +kernel
  have twoSteps : c.reachability (.ofList [1]) .empty (some 2) Options.default =
      .ok #[3 / 4, 1, 1 / 8] := by
    decide +kernel
  have ownGoal : (StateSet.ofList [1]).Within c.size := StateSet.within_ofList [1] (by decide)
  obtain ⟨system, found, _⟩ := constructed.wellFormed.system_eq_ok (by decide) ownGoal
    (StateSet.within_empty _) false
  have regular : Reachability.direct system.matrix system.vector ≠ .error .singular := by
    intro singular
    have solvable : (c.system (.ofList [1]) .empty false >>= fun system =>
        Reachability.direct system.matrix system.vector).isOk = true := by decide +kernel
    rw [found] at solvable
    change (Reachability.direct system.matrix system.vector).isOk = true at solvable
    rw [singular] at solvable
    cases solvable
  obtain ⟨u', v, returned, bounded, _, _, _, _, approaches⟩ := reachability_approaches constructed
    visible ownGoal (StateSet.within_empty _) found regular
    (show (Options.default : Options ℚ).method = .direct from rfl) rfl
  cases value.symm.trans returned
  exact ⟨constructed, visible, value, twoSteps, v, bounded, approaches⟩

end Chain

end MarkovCheck

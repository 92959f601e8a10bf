import MarkovCheck.Proofs.Reachability.Partition

/-!
# Reachability within a number of steps is the weight of paths

A path that reaches the goal has a first visit to it. The probability of reaching the goal within
`k` steps is the total weight of the paths of at most `k` transitions that end with their first
visit and meet no forbidden state before, where the weight of a path is the product of its
transition probabilities.

The analysis never looks at paths. Its steps compute the same numbers because paths can be taken
apart at their first transition: `pathWeight_succ` is the equation that a step applies.

* `Chain.IsFirstHit`, `Chain.pathWeight`: paths and their total weight
* `Chain.pathWeight_succ`: the weight of paths by their first transition
* `Chain.reachability_pathWeight`: an analysis with a step bound returns the weight, clamped
-/

namespace MarkovCheck

namespace Chain

/-- The states form a path of the chain that starts in `s`, ends with its first visit to the goal
and meets no blocked state before. -/
structure IsFirstHit (c : Chain ℚ) (goal blocked : Set Nat) (s : Nat) {j : Nat}
    (w : Fin (j + 1) → Fin c.size) : Prop where
  start : (w 0).val = s
  edge : ∀ i : Fin j, c.Edge (w i.castSucc) (w i.succ)
  before : ∀ i : Fin j, (w i.castSucc).val ∉ goal ∧ (w i.castSucc).val ∉ blocked
  hit : (w (Fin.last j)).val ∈ goal

/-- The product of the transition probabilities along some states. -/
def along (c : Chain ℚ) {j : Nat} (w : Fin (j + 1) → Fin c.size) : ℚ :=
  ∏ i : Fin j, c.probability (w i.castSucc) (w i.succ)

open Classical in
/-- The paths of `j` transitions from a state to its first visit to the goal. -/
noncomputable def firstHits (c : Chain ℚ) (goal blocked : Set Nat) (j s : Nat) :
    Finset (Fin (j + 1) → Fin c.size) :=
  Finset.univ.filter (c.IsFirstHit goal blocked s)

noncomputable def hitWeight (c : Chain ℚ) (goal blocked : Set Nat) (j s : Nat) : ℚ :=
  ∑ w ∈ c.firstHits goal blocked j s, c.along w

/-- The total weight of the paths of at most `k` transitions from a state to its first visit to the
goal. -/
noncomputable def pathWeight (c : Chain ℚ) (goal blocked : Set Nat) (k s : Nat) : ℚ :=
  ∑ j ∈ Finset.range (k + 1), c.hitWeight goal blocked j s

variable {c : Chain ℚ} {goal blocked : Set Nat}

@[simp] theorem mem_firstHits {j s : Nat} {w : Fin (j + 1) → Fin c.size} :
    w ∈ c.firstHits goal blocked j s ↔ c.IsFirstHit goal blocked s w := by
  simp [firstHits]

/-! ## Paths by their first transition -/

theorem along_cons {j : Nat} (s : Fin c.size) (w : Fin (j + 1) → Fin c.size) :
    c.along (Fin.cons s w : Fin (j + 2) → Fin c.size) = c.probability s (w 0) * c.along w := by
  rw [along, Fin.prod_univ_succ]
  rfl

theorem isFirstHit_cons {j : Nat} (s : Fin c.size) (w : Fin (j + 1) → Fin c.size) :
    c.IsFirstHit goal blocked s (Fin.cons s w : Fin (j + 2) → Fin c.size) ↔
      (s.val ∉ goal ∧ s.val ∉ blocked) ∧ c.Edge s (w 0) ∧
        c.IsFirstHit goal blocked (w 0) w := by
  constructor
  · intro path
    refine ⟨path.before 0, path.edge 0, rfl, ?_, ?_, path.hit⟩
    · intro i
      exact path.edge i.succ
    · intro i
      exact path.before i.succ
  · rintro ⟨free, edge, path⟩
    refine ⟨rfl, ?_, ?_, path.hit⟩
    · exact Fin.forall_fin_succ.mpr ⟨edge, path.edge⟩
    · exact Fin.forall_fin_succ.mpr ⟨free, path.before⟩

theorem hitWeight_zero_of_goal {s : Nat} (own : s < c.size) (inGoal : s ∈ goal) :
    c.hitWeight goal blocked 0 s = 1 := by
  have only : c.firstHits goal blocked 0 s = {fun _ => ⟨s, own⟩} := by
    ext w
    rw [mem_firstHits, Finset.mem_singleton]
    constructor
    · intro path
      funext i
      rw [Fin.fin_one_eq_zero i]
      exact Fin.ext path.start
    · rintro rfl
      exact ⟨rfl, fun i => i.elim0, fun i => i.elim0, inGoal⟩
  rw [hitWeight, only, Finset.sum_singleton]
  rfl

theorem hitWeight_zero_of_not_goal {s : Nat} (noGoal : s ∉ goal) :
    c.hitWeight goal blocked 0 s = 0 := by
  apply Finset.sum_eq_zero
  intro w member
  have path := mem_firstHits.mp member
  exact absurd path.hit (path.start ▸ noGoal)

/-- No path with a transition leaves the goal or a blocked state. -/
theorem hitWeight_succ_of_stopped {j s : Nat} (stopped : s ∈ goal ∨ s ∈ blocked) :
    c.hitWeight goal blocked (j + 1) s = 0 := by
  apply Finset.sum_eq_zero
  intro w member
  have path := mem_firstHits.mp member
  have free := path.before 0
  rw [Fin.castSucc_zero, path.start] at free
  cases stopped with
  | inl inGoal => exact absurd inGoal free.1
  | inr isBlocked => exact absurd isBlocked free.2

theorem mem_firstHits_succ {j s t : Nat} {w : Fin (j + 2) → Fin c.size} :
    w ∈ c.firstHits goal blocked (j + 1) s ∧ (w 1).val = t ↔
      (w 0).val = s ∧ (s ∉ goal ∧ s ∉ blocked) ∧ c.Edge s t ∧
        Fin.tail w ∈ c.firstHits goal blocked j t := by
  -- A path with a transition is its first state followed by the rest.
  have path : c.IsFirstHit goal blocked (w 0) w ↔ _ :=
    Fin.cons_self_tail w ▸ isFirstHit_cons (w 0) (Fin.tail w)
  rw [mem_firstHits, mem_firstHits]
  constructor
  · rintro ⟨whole, rfl⟩
    obtain rfl := whole.start
    exact ⟨rfl, path.mp whole⟩
  · rintro ⟨rfl, free, edge, rest⟩
    obtain rfl := rest.start
    exact ⟨path.mpr ⟨free, edge, rest⟩, rfl⟩

theorem sum_firstHits_succ {j s : Nat} (own : s < c.size) (noGoal : s ∉ goal)
    (free : s ∉ blocked) {t : Nat} (edge : c.Edge s t) :
    ∑ w ∈ c.firstHits goal blocked (j + 1) s with (w 1).val = t, c.along w =
      c.probability s t * c.hitWeight goal blocked j t := by
  rw [hitWeight, Finset.mul_sum]
  refine Finset.sum_nbij' (fun w => Fin.tail w) (fun u => Fin.cons ⟨s, own⟩ u) ?_ ?_ ?_ ?_ ?_
  · intro w member
    exact (mem_firstHits_succ.mp (Finset.mem_filter.mp member)).2.2.2
  · intro u member
    exact Finset.mem_filter.mpr (mem_firstHits_succ.mpr ⟨rfl, ⟨noGoal, free⟩, edge, member⟩)
  · intro w member
    obtain ⟨rfl, _⟩ := mem_firstHits_succ.mp (Finset.mem_filter.mp member)
    exact Fin.cons_self_tail w
  · intro u _
    exact Fin.tail_cons _ _
  · intro w member
    obtain ⟨listed, rfl⟩ := Finset.mem_filter.mp member
    obtain rfl := (mem_firstHits.mp listed).start
    exact Fin.cons_self_tail w ▸ along_cons (w 0) (Fin.tail w)

theorem hitWeight_succ {j s : Nat} (own : s < c.size) (noGoal : s ∉ goal) (free : s ∉ blocked) :
    c.hitWeight goal blocked (j + 1) s =
      ∑ t ∈ Finset.range c.size, c.probability s t * c.hitWeight goal blocked j t := by
  -- The paths are sorted by their second state.
  have second : ∀ w ∈ c.firstHits goal blocked (j + 1) s,
      (w 1).val ∈ Finset.range c.size := fun w _ => Finset.mem_range.mpr (w 1).isLt
  rw [hitWeight, ← Finset.sum_fiberwise_of_maps_to second]
  apply Finset.sum_congr rfl
  intro t _
  by_cases edge : c.Edge s t
  · exact sum_firstHits_succ own noGoal free edge
  · rw [probability_of_not_edge edge, zero_mul]
    apply Finset.sum_eq_zero
    intro w member
    have first := mem_firstHits_succ.mp (Finset.mem_filter.mp member)
    exact absurd first.2.2.1 edge

theorem pathWeight_of_goal {s : Nat} (own : s < c.size) (inGoal : s ∈ goal) (k : Nat) :
    c.pathWeight goal blocked k s = 1 := by
  rw [pathWeight, Finset.sum_range_succ', hitWeight_zero_of_goal own inGoal,
    Finset.sum_eq_zero fun j _ => hitWeight_succ_of_stopped (.inl inGoal), zero_add]

theorem pathWeight_of_blocked {s : Nat} (isBlocked : s ∈ blocked) (noGoal : s ∉ goal) (k : Nat) :
    c.pathWeight goal blocked k s = 0 := by
  rw [pathWeight, Finset.sum_range_succ', hitWeight_zero_of_not_goal noGoal,
    Finset.sum_eq_zero fun j _ => hitWeight_succ_of_stopped (.inr isBlocked), zero_add]

theorem pathWeight_zero {s : Nat} (noGoal : s ∉ goal) : c.pathWeight goal blocked 0 s = 0 := by
  rw [pathWeight, Finset.sum_range_one, hitWeight_zero_of_not_goal noGoal]

/-- With one more transition allowed, the weight in an open state is the average over the next
states. -/
theorem pathWeight_succ {s : Nat} (own : s < c.size) (noGoal : s ∉ goal) (free : s ∉ blocked)
    (k : Nat) : c.pathWeight goal blocked (k + 1) s =
      ∑ t ∈ Finset.range c.size, c.probability s t * c.pathWeight goal blocked k t := by
  rw [pathWeight, Finset.sum_range_succ', hitWeight_zero_of_not_goal noGoal, add_zero]
  simp only [hitWeight_succ own noGoal free, pathWeight, Finset.mul_sum]
  exact Finset.sum_comm

theorem WellFormed.pathWeight_nonneg (made : c.WellFormed) (goal blocked : Set Nat) (k s : Nat) :
    0 ≤ c.pathWeight goal blocked k s :=
  Finset.sum_nonneg fun _ _ => Finset.sum_nonneg fun _ _ => Finset.prod_nonneg fun _ _ =>
    made.probability_nonneg _ _

theorem WellFormed.pathWeight_le_one (made : c.WellFormed) (rows : ∀ s < c.size, c.outflow s ≤ 1)
    (goal blocked : Set Nat) (k : Nat) {s : Nat} (own : s < c.size) :
    c.pathWeight goal blocked k s ≤ 1 := by
  induction k generalizing s with
  | zero =>
    by_cases inGoal : s ∈ goal
    · exact le_of_eq (pathWeight_of_goal own inGoal 0)
    · rw [pathWeight_zero inGoal]
      exact zero_le_one
  | succ k inductionHypothesis =>
    by_cases inGoal : s ∈ goal
    · exact le_of_eq (pathWeight_of_goal own inGoal (k + 1))
    · by_cases isBlocked : s ∈ blocked
      · rw [pathWeight_of_blocked isBlocked inGoal]
        exact zero_le_one
      · rw [pathWeight_succ own inGoal isBlocked]
        refine le_trans (Finset.sum_le_sum ?_) (rows s own)
        intro t member
        exact mul_le_of_le_one_right (made.probability_nonneg s t)
          (inductionHypothesis (Finset.mem_range.mp member))

theorem pathWeight_of_cutOff {goal forbidden : StateSet} (k : Nat) {s : Nat} (own : s < c.size)
    (noGoal : goal.contains s = false) (cutOff : ¬ c.Reaches goal (forbidden.diff goal) s) :
    c.pathWeight goal.members forbidden.members k s = 0 := by
  have outside : s ∉ goal.members := by simp [noGoal]
  induction k generalizing s with
  | zero => exact pathWeight_zero outside
  | succ k inductionHypothesis =>
    by_cases isBlocked : s ∈ forbidden.members
    · exact pathWeight_of_blocked isBlocked outside (k + 1)
    · have allowed : (forbidden.diff goal).contains s = false := by simp_all
      rw [pathWeight_succ own outside isBlocked]
      apply Finset.sum_eq_zero
      intro t member
      by_cases edge : c.Edge s t
      · obtain ⟨noHit, cutOffNext⟩ := not_reaches_next cutOff noGoal allowed edge
        rw [inductionHypothesis (Finset.mem_range.mp member) noHit cutOffNext (by simp [noHit]),
          mul_zero]
      · rw [probability_of_not_edge edge, zero_mul]

end Chain

/-! ## The steps of the analysis -/

namespace System

variable {system : System ℚ} {c : Chain ℚ}

/-- The function on the open states after a number of steps from zero. -/
def stepped (system : System ℚ) (c : Chain ℚ) : Nat → Nat → ℚ
  | 0 => fun _ => 0
  | k + 1 => system.average c (stepped system c k)

theorem Restricts.bounded_eq (restricts : system.Restricts c) {o : Options ℚ}
    (running : o.cancelledAfter = none) (k j : Nat) :
    Reachability.bounded system.matrix system.vector o k
        (system.rest.map (system.stepped c j)).toArray =
      .ok (system.rest.map (system.stepped c (k + j))).toArray := by
  induction k generalizing j with
  | zero =>
    rw [Nat.zero_add]
    rfl
  | succ k inductionHypothesis =>
    rw [Reachability.bounded_succ running]
    refine Outcome.bind_eq_ok.mpr ⟨_, restricts.step_eq _, ?_⟩
    rw [Nat.succ_add_eq_add_succ]
    exact inductionHypothesis (j + 1)

theorem Restricts.start_eq (restricts : system.Restricts c) :
    Reachability.start system.vector.size = (system.rest.map (system.stepped c 0)).toArray := by
  rw [Reachability.start, restricts.size_vector, ← List.toArray_replicate, stepped]
  simp

variable {goal forbidden : StateSet}

/-- In the states that are not open, every extended function is the weight of the paths. -/
theorem Poses.extend_settled (poses : system.Poses c goal (forbidden.diff goal))
    (onlyGoal : ∀ s ∈ system.ones, goal.contains s = true) (f : Nat → ℚ) (k : Nat) {s : Nat}
    (own : s < c.size) (settled : s ∉ system.rest) : system.extend f s =
      c.pathWeight goal.members forbidden.members k s := by
  rw [extend, if_neg settled]
  split
  · next one => exact (Chain.pathWeight_of_goal own (onlyGoal s one) k).symm
  · next notOne =>
    -- Neither of probability one nor open, the state is cut off from the goal.
    have noGoal : goal.contains s = false := by
      rw [← Bool.not_eq_true]
      exact fun inGoal => notOne (poses.goal_ones s inGoal)
    refine (Chain.pathWeight_of_cutOff k own noGoal ?_).symm
    rw [← poses.reaches s noGoal, not_or]
    exact ⟨notOne, settled⟩

/-- After `k` steps the extended function is the weight of the paths of at most `k` transitions. -/
theorem Poses.extend_stepped (poses : system.Poses c goal (forbidden.diff goal))
    (onlyGoal : ∀ s ∈ system.ones, goal.contains s = true) (k : Nat) {s : Nat}
    (own : s < c.size) : system.extend (system.stepped c k) s =
      c.pathWeight goal.members forbidden.members k s := by
  induction k generalizing s with
  | zero =>
    by_cases open_ : s ∈ system.rest
    · have noGoal := poses.goal_of_rest open_
      rw [poses.extend_of_rest _ open_, Chain.pathWeight_zero (by simp [noGoal])]
      rfl
    · exact poses.extend_settled onlyGoal _ 0 own open_
  | succ k inductionHypothesis =>
    by_cases open_ : s ∈ system.rest
    · have noGoal := poses.goal_of_rest open_
      -- An open state is neither goal nor forbidden, so the weight is an average as well.
      have free := (poses.rest_reaches s (List.mem_toFinset.mpr open_)).free
      rw [poses.extend_of_rest _ open_,
        Chain.pathWeight_succ own (by simp [noGoal]) (by simp [free]), stepped, average]
      apply Finset.sum_congr rfl
      intro t member
      rw [inductionHypothesis (Finset.mem_range.mp member)]
    · exact poses.extend_settled onlyGoal _ (k + 1) own open_

theorem extend_clampUnit (system : System ℚ) (f : Nat → ℚ) (s : Nat) :
    system.extend (fun t => Scalar.clampUnit (f t)) s = Scalar.clampUnit (system.extend f s) := by
  simp only [extend]
  split
  · rfl
  · split
    · rfl
    · rfl

end System

namespace Chain

theorem WellFormed.reachability_bounded {c : Chain ℚ} (made : c.WellFormed)
    (nonempty : 0 < c.size) {goal forbidden : StateSet} (ownGoal : goal.Within c.size)
    (ownForbidden : forbidden.Within c.size) (k : Nat) {o : Options ℚ}
    (running : o.cancelledAfter = none) :
    c.reachability goal forbidden (some k) o = .ok (Array.ofFn fun s : Fin c.size =>
      Scalar.clampUnit (c.pathWeight goal.members forbidden.members k s)) := by
  obtain ⟨system, found, poses, onlyGoal⟩ :=
    made.system_eq_ok nonempty ownGoal ownForbidden true
  have solved : system.solve (some k) o = .ok (system.rest.map (system.stepped c k)).toArray := by
    rw [System.solve_some, poses.start_eq]
    exact poses.bounded_eq running k 0
  have assembled : system.assemble c.size (system.rest.map (system.stepped c k)).toArray =
      .ok (Array.ofFn fun s : Fin c.size =>
        Scalar.clampUnit (c.pathWeight goal.members forbidden.members k s)) := by
    rw [poses.assemble_eq]
    refine congrArg Except.ok (congrArg Array.ofFn (funext ?_))
    intro s
    rw [System.extend_clampUnit, poses.extend_stepped (onlyGoal rfl) k s.isLt]
  rw [reachability_eq]
  exact Outcome.bind_eq_ok.mpr ⟨system, found, Outcome.bind_eq_ok.mpr ⟨_, solved, assembled⟩⟩

/-- Where no more than all mass goes out, the weight of paths needs no clamping. -/
theorem WellFormed.reachability_bounded_of_rows {c : Chain ℚ} (made : c.WellFormed)
    (rows : ∀ s < c.size, c.outflow s ≤ 1) (nonempty : 0 < c.size) {goal forbidden : StateSet}
    (ownGoal : goal.Within c.size) (ownForbidden : forbidden.Within c.size) (k : Nat)
    {o : Options ℚ} (running : o.cancelledAfter = none) :
    c.reachability goal forbidden (some k) o = .ok (Array.ofFn fun s : Fin c.size =>
      c.pathWeight goal.members forbidden.members k s) := by
  rw [made.reachability_bounded nonempty ownGoal ownForbidden k running]
  refine congrArg Except.ok (congrArg Array.ofFn (funext ?_))
  intro s
  exact Scalar.clampUnit_of_mem (made.pathWeight_nonneg _ _ k s)
    (made.pathWeight_le_one rows _ _ k s.isLt)

/-- An analysis with a step bound that is not told to stop returns, in each state, the weight of the
paths to the first visit to the goal within the bound, clamped to the unit interval. -/
theorem reachability_pathWeight {c : Chain ℚ} (constructed : Constructed c)
    (nonempty : 0 < c.size) {goal forbidden : StateSet} (ownGoal : goal.Within c.size)
    (ownForbidden : forbidden.Within c.size) (k : Nat) {o : Options ℚ}
    (running : o.cancelledAfter = none) :
    ∃ v, c.reachability goal forbidden (some k) o = .ok v ∧ v.size = c.size ∧
      ∀ s < c.size, v[s]? =
        some (max 0 (min 1 (c.pathWeight goal.members forbidden.members k s))) := by
  refine ⟨_, constructed.wellFormed.reachability_bounded nonempty ownGoal ownForbidden k running,
    Array.size_ofFn, ?_⟩
  intro s own
  rw [Array.getElem?_ofFn, dif_pos own, Scalar.clampUnit_eq]

/-- Outgoing probabilities may sum to more than one: from a state that is kept with probability one
and left with probability one quarter, two steps have two paths of weight one quarter. -/
theorem reachability_pathWeight_excess :
    let c : Chain ℚ := ⟨0, 4, #[⟨0, "wait", []⟩, ⟨1, "done", []⟩], [⟨0, 0, 1⟩, ⟨0, 1, 1 / 4⟩],
      some 0, none⟩
    let v : Array ℚ := #[1 / 2, 1]
    Constructed c ∧ c.reachability (.ofList [1]) .empty (some 2) Options.default = .ok v ∧
      ∀ s < 2, v[s]? = some (max 0 (min 1 (c.pathWeight (StateSet.ofList [1]).members
        StateSet.empty.members 2 s))) := by
  intro c v
  have constructed : Constructed c := constructed_of_addAll (by with_unfolding_all rfl)
  obtain ⟨v', returned, _, weights⟩ := reachability_pathWeight constructed (by decide)
    (StateSet.within_ofList [1] (by decide)) (StateSet.within_empty _) 2
    (show (Options.default : Options ℚ).cancelledAfter = none from rfl)
  have value : c.reachability (.ofList [1]) .empty (some 2) Options.default = .ok v := by
    decide +kernel
  cases value.symm.trans returned
  exact ⟨constructed, value, weights⟩

end Chain

end MarkovCheck

import MarkovCheck.Proofs.Chain.Search
import MarkovCheck.Proofs.Reachability.System
import MarkovCheck.Proofs.StateSet.Listing

/-!
# How a reachability analysis ends

Asked about sets of own states, an analysis stays inside the chain: every index it uses is in range
and all lengths fit, whatever the numbers are. It ends with one value for each state, or because it
was told to stop, or, without a step bound, because iteration used up its allowance.

* `Reachability.Ends`: the ways to end
* `System.Fits`: the equations have one row and one column for each open state
* `Chain.WellFormed.reachabilityPolling_ends`: an analysis of own states ends in one of the ways
* `Chain.WellFormed.tally_le`: goal, blocked and good states are different states of the chain
-/

namespace MarkovCheck

/-! ## Solving -/

namespace Reachability

variable {α : Type}

/-- How an analysis of `n` states ends under some settings. `endless` says that the number of steps
was left open. -/
inductive Ends (n : Nat) (o : Options α) (endless : Prop) : Except (Error α) (Array α) → Prop where
  | returned {v : Array α} (size : v.size = n) : Ends n o endless (.ok v)
  | stopped {vain : Nat} (told : o.cancelledAfter = some vain) :
      Ends n o endless (.error .cancelled)
  | exhausted (left : endless) (change : Option α) :
      Ends n o endless (.error (.notConverged o.maxIterations change))

theorem Ends.bind {n m : Nat} {o : Options α} {endless : Prop} {x : Except (Error α) (Array α)}
    {f : Array α → Except (Error α) (Array α)} (ends : Ends n o endless x)
    (next : ∀ v : Array α, v.size = n → Ends m o endless (f v)) : Ends m o endless (x >>= f) := by
  cases ends with
  | returned size => exact next _ size
  | stopped told => exact .stopped told
  | exhausted left change => exact .exhausted left change

/-- A matrix with `n` rows and columns beside a vector with `n` entries. -/
structure Square (a : Matrix α) (b : Array α) (n : Nat) : Prop where
  rows : a.rows = n
  cols : a.cols = n
  size : b.size = n

variable [Scalar α] {a : Matrix α} {b : Array α} {n : Nat} {o : Options α} {endless : Prop}

theorem Square.step_eq_ok (square : Square a b n) {x : Array α} (fits : x.size = n) :
    ∃ y, step a b x = .ok y ∧ y.size = n := by
  have product : a.mulVec x = .ok (a.applyRight x) := if_pos (fits.trans square.cols.symm)
  refine ⟨_, Outcome.bind_eq_ok.mpr ⟨_, product, rfl⟩, ?_⟩
  simp [square.rows, square.size]

omit [Scalar α] in
/-- A signal that is found ends an analysis as it may end. -/
theorem ends_poll {polls : Nat} {x : Except (Error α) (Array α)}
    (ends : o.isCancelled polls = false → Ends n o endless x) :
    Ends n o endless (if o.isCancelled polls then .error .cancelled else x) := by
  cases told : o.isCancelled polls with
  | true =>
    obtain ⟨vain, given⟩ := Options.exists_cancelledAfter told
    exact .stopped given
  | false => exact ends told

theorem Square.boundedPolling_ends (square : Square a b n) (k polls : Nat) {x : Array α}
    (fits : x.size = n) : Ends n o endless ((boundedPolling a b o k x).run' polls) := by
  induction k generalizing x polls with
  | zero => exact .returned fits
  | succ k inductionHypothesis =>
    rw [run'_boundedPolling]
    refine ends_poll fun _ => ?_
    obtain ⟨y, stepped, size⟩ := square.step_eq_ok fits
    rw [stepped]
    exact inductionHypothesis (polls + 1) size

theorem Square.iteratePolling_ends (square : Square a b n) (left : endless) (allowance polls : Nat)
    {x : Array α} (fits : x.size = n) (last : Option α) :
    Ends n o endless ((iteratePolling a b o allowance x last).run' polls) := by
  induction allowance generalizing x polls last with
  | zero => exact .exhausted left last
  | succ allowance inductionHypothesis =>
    rw [run'_iteratePolling]
    refine ends_poll fun _ => ?_
    obtain ⟨y, stepped, size⟩ := square.step_eq_ok fits
    rw [stepped]
    change Ends n o endless (if change y x < o.tolerance then .ok y else _)
    split
    · exact .returned size
    · exact inductionHypothesis (polls + 1) size _

/-- Elimination solves the equations or reports that they are singular. -/
theorem direct_eq (a : Matrix α) (b : Array α) :
    (∃ x, direct a b = .ok x ∧ x.size = b.size) ∨ direct a b = .error .singular := by
  simp only [direct, Matrix.solve]
  rw [if_pos ⟨rfl, rfl⟩]
  split
  · next x _ => exact .inl ⟨x.toArray, rfl, x.size_toArray⟩
  · exact .inr rfl

theorem Square.unboundedPolling_ends (square : Square a b n) (left : endless) (polls : Nat) :
    Ends n o endless ((unboundedPolling a b o).run' polls) := by
  have start : (start b.size : Array α).size = n := Array.size_replicate.trans square.size
  have byIteration := square.iteratePolling_ends (o := o) left o.maxIterations polls start none
  unfold unboundedPolling
  cases o.method with
  | iterative => exact byIteration
  | direct =>
    obtain ⟨x, solved, size⟩ | singular := direct_eq a b
    · rw [solved]
      exact .returned (size.trans square.size)
    · rw [singular]
      exact byIteration

/-- Values for places below `n` give a vector of length `n`. -/
theorem scatter_eq_ok {values : List (Nat × α)} (inside : ∀ p ∈ values, p.1 < n) :
    ∃ v, scatter n values = .ok v ∧ v.size = n := by
  refine ⟨_, if_pos (by simpa using inside), ?_⟩
  refine List.foldlRecOn values _ (motive := fun (v : Array α) => v.size = n) ?_ ?_
  · exact Array.size_replicate
  · intro v size p _
    exact Array.size_setIfInBounds.trans size

end Reachability

/-! ## Equations -/

namespace System

variable {α : Type} [Scalar α] {system : System α} {n : Nat} {o : Options α}

/-- The listed states are below `n`, and the equations have one row and one column for each open
state. -/
structure Fits (system : System α) (n : Nat) : Prop where
  ownOnes : ∀ s ∈ system.ones, s < n
  ownRest : ∀ s ∈ system.rest, s < n
  square : Reachability.Square system.matrix system.vector system.rest.length

theorem Fits.solvePolling_ends (fits : system.Fits n) (steps : Option Nat) (polls : Nat) :
    Reachability.Ends system.rest.length o (steps = none)
      ((system.solvePolling steps o).run' polls) := by
  cases steps with
  | none => exact fits.square.unboundedPolling_ends rfl polls
  | some k =>
    exact fits.square.boundedPolling_ends k polls
      (Array.size_replicate.trans fits.square.size)

theorem Fits.assemble_eq_ok (fits : system.Fits n) (x : Array α) :
    ∃ v, system.assemble n x = .ok v ∧ v.size = n := by
  refine Reachability.scatter_eq_ok fun p listed => ?_
  cases List.mem_append.mp listed with
  | inl one =>
    obtain ⟨s, member, rfl⟩ := List.mem_map.mp one
    exact fits.ownOnes s member
  | inr open_ => exact fits.ownRest p.1 (List.of_mem_zip open_).1

end System

/-! ## Asking the graph -/

namespace Chain

variable {α : Type} [Scalar α] {c : Chain α} {goal forbidden good : StateSet}

omit [Scalar α] in
theorem checkStates_eq_ok {set : StateSet} (own : set.Within c.size) :
    c.checkStates set = .ok () := by
  simp only [checkStates]
  cases last : set.max? with
  | none => rfl
  | some s =>
    -- Only the largest member is looked at.
    have member : s ∈ set.toList := List.mem_of_getLast? (set.max?_eq_getLast? ▸ last)
    have inside : s < c.size := own s ((set.mem_toList s).mp member)
    simp only [checkState, if_pos inside]

/-- The row of a state in the transition matrix sums to less than one by more than the tolerance. -/
def FallsShort (c : Chain α) (s : Nat) : Prop :=
  Scalar.total ((List.range c.size).map (c.transitionMatrix.entry s)) < 1 - defaultTolerance

/-- The leaking states of a set are those whose rows fall short of one. -/
theorem WellFormed.leaking_eq_ok (made : c.WellFormed) (own : good.Within c.size) :
    ∃ leaks, c.leaking good = .ok leaks ∧ ∀ s, leaks.contains s = true ↔
      good.contains s = true ∧ c.FallsShort s := by
  have row : ∀ s ∈ good.toList, (do
      let row ← c.transitionMatrix.row s
      return decide (Scalar.total row < 1 - defaultTolerance) : Except (Error α) Bool) =
        .ok (decide (Scalar.total ((List.range c.size).map (c.transitionMatrix.entry s)) <
          1 - defaultTolerance)) := by
    intro s member
    have inside : s < c.size := own s ((good.mem_toList s).mp member)
    have found := c.transitionMatrix.row_eq_ok (made.rows_transitionMatrix.symm ▸ inside)
    rw [made.cols_transitionMatrix] at found
    exact Outcome.bind_eq_ok.mpr ⟨_, found, rfl⟩
  refine ⟨_, Outcome.bind_eq_ok.mpr ⟨_, Outcome.filterM_eq_ok row, rfl⟩, ?_⟩
  intro s
  simp [StateSet.contains_ofList, StateSet.mem_toList, FallsShort]

/-- The good states taken to have probability one are those that, outside the goal, lead only to
good states whose rows do not fall short. -/
theorem WellFormed.almostSure_eq_ok (made : c.WellFormed) (own : good.Within c.size)
    (outside : ∀ s, good.contains s = true → goal.contains s = false) :
    ∃ sure, c.almostSure goal good = .ok sure ∧ ∀ s, sure.contains s = true ↔
      good.contains s = true ∧ ∀ t, c.Leads goal.membersᶜ s t → goal.contains t = false →
        good.contains t = true ∧ ¬ c.FallsShort t := by
  obtain ⟨leaks, found, leaking⟩ := made.leaking_eq_ok own
  let traps := ((goal.union good).complement c.size).union leaks
  have trapping {s : Nat} : traps.contains s = true ↔ s < c.size ∧ goal.contains s = false ∧
      ¬ (good.contains s = true ∧ ¬ c.FallsShort s) := by
    have leak := leaking s
    have ownGood := own s
    have outsideGood := outside s
    simp only [traps, StateSet.contains_union, StateSet.contains_complement]
    grind
  have ownTraps : traps.Within c.size := fun s member => (trapping.mp member).1
  refine ⟨_, Outcome.bind_eq_ok.mpr ⟨leaks, found, Outcome.bind_eq_ok.mpr
    ⟨_, canReach_eq_ok ownTraps goal, rfl⟩⟩, fun s => ?_⟩
  have reaches : c.Reaches traps goal s ↔ traps.contains s = false ∧
      ∃ t, traps.contains t = true ∧ c.Leads goal.membersᶜ s t := reaches_iff (by simp)
  rw [StateSet.contains_diff, StateSet.contains_union, Bool.and_eq_true, Bool.not_eq_true',
    Bool.or_eq_false_iff, ← Bool.not_eq_true, ← Bool.not_eq_true, made.contains_backward, leaking]
  apply and_congr_right
  intro isGood
  constructor
  · rintro ⟨safe, tight⟩ t leads noGoal
    by_contra bad
    have trapped : traps.contains t = true :=
      trapping.mpr ⟨made.leads_own leads (own s isGood), noGoal, bad⟩
    -- The state is itself no trap, since a good trap leaks.
    have free : traps.contains s = false := by
      rw [← Bool.not_eq_true, trapping]
      grind
    exact safe (reaches.mpr ⟨free, t, trapped, leads⟩)
  · intro confined
    constructor
    · intro trapped
      obtain ⟨_, t, trap, leads⟩ := reaches.mp trapped
      obtain ⟨_, noGoal, bad⟩ := trapping.mp trap
      exact bad (confined t leads noGoal)
    · intro leak
      exact (confined s .refl (outside s isGood)).2 leak.2

/-- Outside the goal, an analysis without a step bound takes the states to have probability one that
reach the goal and lead only to states that do so and do not fall short. -/
def Certain (c : Chain α) (goal forbidden : StateSet) (s : Nat) : Prop :=
  c.Reaches goal (forbidden.diff goal) s ∧
    ∀ t, c.Leads goal.membersᶜ s t → goal.contains t = false →
      c.Reaches goal (forbidden.diff goal) t ∧ ¬ c.FallsShort t

theorem WellFormed.almostSure_certain (made : c.WellFormed) (goal forbidden : StateSet) :
    ∃ sure, c.almostSure goal (c.backward goal (forbidden.diff goal)) = .ok sure ∧
      ∀ s, sure.contains s = true ↔ c.Certain goal forbidden s := by
  have outside : ∀ s, (c.backward goal (forbidden.diff goal)).contains s = true →
      goal.contains s = false := fun s member => (made.contains_backward.mp member).outside
  obtain ⟨sure, found, confined⟩ :=
    made.almostSure_eq_ok (made.within_backward goal (forbidden.diff goal)) outside
  refine ⟨sure, found, fun s => ?_⟩
  simp only [confined, made.contains_backward, Certain]

/-- The states that reach the goal are sorted into certain and unsettled ones. With a step bound
none is certain. -/
theorem WellFormed.partition_eq_ok (made : c.WellFormed) (ownGoal : goal.Within c.size)
    (forbidden : StateSet) (stepBounded : Bool) :
    ∃ sure, c.partition goal forbidden stepBounded =
        .ok ⟨sure, (c.backward goal (forbidden.diff goal)).diff sure⟩ ∧
      ∀ s, sure.contains s = true ↔ stepBounded = false ∧ c.Certain goal forbidden s := by
  have reached := canReach_eq_ok ownGoal (forbidden.diff goal)
  cases stepBounded with
  | true => exact ⟨StateSet.empty, Outcome.bind_eq_ok.mpr ⟨_, reached, rfl⟩, by simp⟩
  | false =>
    obtain ⟨sure, found, certain⟩ := made.almostSure_certain goal forbidden
    refine ⟨sure, Outcome.bind_eq_ok.mpr ⟨_, reached, Outcome.bind_eq_ok.mpr ⟨sure, found, rfl⟩⟩,
      fun s => ?_⟩
    simp only [certain, true_and]

theorem WellFormed.equations_square (made : c.WellFormed) {ones rest : List Nat}
    (ownOnes : ∀ s ∈ ones, s < c.size) (ownRest : ∀ s ∈ rest, s < c.size) :
    ∃ a b, c.equations ones.toArray rest.toArray = .ok (a, b) ∧
      Reachability.Square a b rest.length := by
  have rows := made.rows_transitionMatrix
  have cols := made.cols_transitionMatrix
  have restricted : c.transitionMatrix.submatrix rest.toArray rest.toArray = .ok _ :=
    Matrix.submatrix_eq_ok _ (by simpa [rows] using ownRest) (by simpa [cols] using ownRest)
  have mass : ∀ s ∈ rest, (do
      let masses ← ones.toArray.mapM (c.transitionMatrix.get s)
      return Scalar.total masses.toList : Except (Error α) α) =
        .ok (Scalar.total (ones.map (c.transitionMatrix.entry s))) := by
    intro s member
    have entry : ∀ t ∈ ones, c.transitionMatrix.get s t = .ok (c.transitionMatrix.entry s t) :=
      fun t one => Matrix.get_eq_ok _ (rows.symm ▸ ownRest s member) (cols.symm ▸ ownOnes t one)
    exact Outcome.bind_eq_ok.mpr ⟨_, Outcome.mapM_eq_ok entry, rfl⟩
  refine ⟨_, _, Outcome.bind_eq_ok.mpr ⟨_, restricted,
    Outcome.bind_eq_ok.mpr ⟨_, Outcome.mapM_eq_ok mass, rfl⟩⟩, ?_⟩
  exact ⟨by simp [Matrix.crossings], by simp [Matrix.crossings], by simp⟩

/-- The equations are those of the unsettled states of a problem: a state is listed with the states
of probability one if it is a goal or, without a step bound, certain, and otherwise with the rest if
it reaches the goal. -/
structure Sorts (c : Chain α) (goal forbidden : StateSet) (stepBounded : Bool)
    (system : System α) : Prop extends system.Fits c.size where
  nodupRest : system.rest.Nodup
  mem_ones : ∀ s, s ∈ system.ones ↔
    goal.contains s = true ∨ stepBounded = false ∧ c.Certain goal forbidden s
  mem_rest : ∀ s, s ∈ system.rest ↔
    c.Reaches goal (forbidden.diff goal) s ∧ ¬ (stepBounded = false ∧ c.Certain goal forbidden s)

theorem WellFormed.system_sorts (made : c.WellFormed) (nonempty : 0 < c.size)
    (ownGoal : goal.Within c.size) (ownForbidden : forbidden.Within c.size)
    (stepBounded : Bool) :
    ∃ system, c.system goal forbidden stepBounded = .ok system ∧
      c.Sorts goal forbidden stepBounded system := by
  obtain ⟨sure, sorted, certain⟩ := made.partition_eq_ok ownGoal forbidden stepBounded
  have ownGood := made.within_backward goal (forbidden.diff goal)
  have mem_ones (s : Nat) : s ∈ (goal.union sure).toList ↔
      goal.contains s = true ∨ stepBounded = false ∧ c.Certain goal forbidden s := by
    rw [StateSet.mem_toList, StateSet.contains_union, Bool.or_eq_true, certain]
  have mem_rest (s : Nat) : s ∈ ((c.backward goal (forbidden.diff goal)).diff sure).toList ↔
      c.Reaches goal (forbidden.diff goal) s ∧
        ¬ (stepBounded = false ∧ c.Certain goal forbidden s) := by
    rw [StateSet.mem_toList, StateSet.contains_diff, Bool.and_eq_true, Bool.not_eq_true',
      ← Bool.not_eq_true, made.contains_backward, certain]
  have ownOnes : ∀ s ∈ (goal.union sure).toList, s < c.size := by
    intro s one
    obtain inGoal | ⟨_, reaches, _⟩ := (mem_ones s).mp one
    · exact ownGoal s inGoal
    · exact ownGood s (made.contains_backward.mpr reaches)
  have ownRest : ∀ s ∈ ((c.backward goal (forbidden.diff goal)).diff sure).toList, s < c.size :=
    fun s open_ => ownGood s (made.contains_backward.mpr ((mem_rest s).mp open_).1)
  obtain ⟨a, b, equations, square⟩ := made.equations_square ownOnes ownRest
  have staged : c.system goal forbidden stepBounded = _ := if_neg (Nat.ne_of_gt nonempty)
  refine ⟨⟨_, _, a, b⟩, staged.trans ?_,
    ⟨ownOnes, ownRest, square⟩, StateSet.nodup_toList _, mem_ones, mem_rest⟩
  exact Outcome.bind_eq_ok.mpr ⟨(), checkStates_eq_ok ownGoal,
    Outcome.bind_eq_ok.mpr ⟨(), checkStates_eq_ok ownForbidden,
      Outcome.bind_eq_ok.mpr ⟨_, sorted, Outcome.bind_eq_ok.mpr ⟨_, equations, rfl⟩⟩⟩⟩

/-- For sets of own states the equations are set up, and they fit. -/
theorem WellFormed.system_fits (made : c.WellFormed) (nonempty : 0 < c.size)
    (ownGoal : goal.Within c.size) (ownForbidden : forbidden.Within c.size)
    (stepBounded : Bool) :
    ∃ system, c.system goal forbidden stepBounded = .ok system ∧ system.Fits c.size := by
  obtain ⟨system, setUp, sorts⟩ := made.system_sorts nonempty ownGoal ownForbidden stepBounded
  exact ⟨system, setUp, sorts.toFits⟩

/-- An analysis of own states returns one value for each state, unless it is told to stop or runs
out of iterations. -/
theorem WellFormed.reachabilityPolling_ends (made : c.WellFormed) (nonempty : 0 < c.size)
    (ownGoal : goal.Within c.size) (ownForbidden : forbidden.Within c.size) (steps : Option Nat)
    (o : Options α) (polls : Nat) :
    Reachability.Ends c.size o (steps = none)
      ((c.reachabilityPolling goal forbidden steps o).run' polls) := by
  obtain ⟨system, setUp, fits⟩ := made.system_fits nonempty ownGoal ownForbidden steps.isSome
  rw [reachabilityPolling_eq, Polling.run'_bind_lift, setUp, Outcome.ok_bind,
    Polling.run'_bind fun x => Polling.steady_lift _]
  refine (fits.solvePolling_ends steps polls).bind fun x _ => ?_
  obtain ⟨v, assembled, size⟩ := fits.assemble_eq_ok x
  rw [Polling.value_lift, assembled]
  exact .returned size

/-! ## Counting -/

theorem WellFormed.counted_backward (made : c.WellFormed) (goal avoid : StateSet) :
    (c.backward goal avoid).Counted :=
  saturate_induction (made.isRound_backwardRound goal avoid).counted c.size
    (StateSet.counted_withCapacity c.size)

/-- Goal states, blocked states and good states are three kinds of own states, so together they are
no more than there are states. -/
theorem WellFormed.tally_le (made : c.WellFormed) (ownGoal : goal.Within c.size)
    (counted : goal.Counted) (ownForbidden : forbidden.Within c.size) :
    goal.size + (forbidden.diff goal).size + (c.backward goal (forbidden.diff goal)).size ≤
      c.size := by
  have blocked : Disjoint goal.toFinset (forbidden.diff goal).toFinset := by
    apply Finset.disjoint_left.mpr
    intro s inGoal inBlocked
    simp_all
  have good : Disjoint (goal.toFinset ∪ (forbidden.diff goal).toFinset)
      (c.backward goal (forbidden.diff goal)).toFinset := by
    apply Finset.disjoint_left.mpr
    intro s settled reached
    have reaches := made.contains_backward.mp (StateSet.mem_toFinset.mp reached)
    simp [reaches.outside, reaches.free] at settled
  have inside : goal.toFinset ∪ (forbidden.diff goal).toFinset ∪
      (c.backward goal (forbidden.diff goal)).toFinset ⊆ Finset.range c.size := by
    refine Finset.union_subset (Finset.union_subset ownGoal.subset_range ?_)
      (made.within_backward _ _).subset_range
    apply StateSet.Within.subset_range
    intro s member
    rw [StateSet.contains_diff, Bool.and_eq_true] at member
    exact ownForbidden s member.1
  have cards := Finset.card_le_card inside
  rw [Finset.card_union_of_disjoint good, Finset.card_union_of_disjoint blocked,
    Finset.card_range] at cards
  have blockedCounted : (forbidden.diff goal).Counted := StateSet.counted_combine _ _ _
  rw [counted, blockedCounted, made.counted_backward]
  exact cards

end Chain

end MarkovCheck

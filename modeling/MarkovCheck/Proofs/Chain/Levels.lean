import Mathlib.Data.Finset.Card
import MarkovCheck.Chain.Worklist
import MarkovCheck.Proofs.Chain.Walks

/-!
# Levels

A search that starts with one state of level zero and passes levels on gives the distances from that
state: each higher level comes from a state one level below, and no transition inside the set leads
up by more than one level. There is only one labelling of this kind.

In rounds, the states of the levels below the round have passed their level on. With a queue, those
that have left the queue have; the queue holds states of one level and behind them states of the
next, so no state has a higher level than the one passed on. Both searches end with the distances.

* `Chain.Grown`, `Chain.Distances`, `Chain.Distances.unique`: what makes levels distances
* `Chain.WellFormed.distances_levels`: the rounds find them
* `Chain.Draining`: what holds before and after each step of the search with a queue
* `Chain.WellFormed.levelsByQueue_eq_ok`: that search finds the same levels
-/

namespace MarkovCheck.Chain

variable {α : Type} {c : Chain α} {within : StateSet} {s t u : Nat}
  {levels levels' : Array (Option Nat)}

/-! ## Distances -/

theorem levelOf_own {j : Nat} (level : levelOf levels t = some j) : t < levels.size := by
  by_contra outside
  simp [levelOf, outside] at level

theorem levelOf_setIfInBounds (own : t < levels.size) (level : Option Nat) :
    levelOf (levels.setIfInBounds t level) u = if u = t then level else levelOf levels u := by
  rw [levelOf, levelOf, Array.getD_eq_getD_getElem?, Array.getElem?_setIfInBounds,
    Array.getD_eq_getD_getElem?]
  by_cases same : t = u
  · subst same
    simp [own]
  · simp [same, Ne.symm same]

theorem levelOf_start (own : s < c.size) {j : Nat} :
    levelOf ((Array.replicate c.size none).setIfInBounds s (some 0)) t = some j ↔
      t = s ∧ j = 0 := by
  have none : levelOf (Array.replicate c.size (none : Option Nat)) t = none := by
    rw [levelOf, Array.getD_eq_getD_getElem?, Array.getElem?_replicate]
    split
    · rfl
    · rfl
  rw [levelOf_setIfInBounds (by simpa using own), none]
  by_cases same : t = s
  · simp [same, eq_comm]
  · simp [same]

/-- Only the state `s` has level zero, and each higher level comes from a state one level below, by
a transition into the set. -/
structure Grown (c : Chain α) (within : StateSet) (s : Nat) (levels : Array (Option Nat)) :
    Prop where
  size : levels.size = c.size
  start : levelOf levels s = some 0
  zero : ∀ t, levelOf levels t = some 0 → t = s
  below : ∀ t j, levelOf levels t = some (j + 1) →
    within.contains t = true ∧ ∃ u, levelOf levels u = some j ∧ c.Edge u t

/-- Every state one transition away from `t` inside the set has a level, at most one above `j`. -/
def PassedOn (c : Chain α) (within : StateSet) (levels : Array (Option Nat)) (t j : Nat) : Prop :=
  ∀ u, c.Edge t u → within.contains u = true → ∃ i ≤ j + 1, levelOf levels u = some i

/-- The levels are the distances from `s` inside the set. -/
structure Distances (c : Chain α) (within : StateSet) (s : Nat) (levels : Array (Option Nat)) :
    Prop extends c.Grown within s levels where
  passedOn : ∀ t j, levelOf levels t = some j → c.PassedOn within levels t j

theorem grown_start (own : s < c.size) :
    c.Grown within s ((Array.replicate c.size none).setIfInBounds s (some 0)) where
  size := by simp
  start := (levelOf_start own).mpr ⟨rfl, rfl⟩
  zero := fun _ level => ((levelOf_start own).mp level).1
  below := by
    intro t j level
    cases ((levelOf_start own).mp level).2

/-- The level of a state is the length of a walk to it. -/
theorem Grown.walk (grown : c.Grown within s levels) {j : Nat}
    (level : levelOf levels t = some j) : c.Walk s t j := by
  induction j generalizing t with
  | zero =>
    rw [grown.zero t level]
    exact .nil
  | succ j inductionHypothesis =>
    obtain ⟨_, u, before, edge⟩ := grown.below t j level
    exact (inductionHypothesis before).snoc edge

/-- The levels up to that of a state all occur, so a level is below the number of states. -/
theorem Grown.lt_size (grown : c.Grown within s levels) {j : Nat}
    (level : levelOf levels t = some j) : j < c.size := by
  have occurs : ∀ i ≤ j, ∃ u, levelOf levels u = some i := by
    intro i atMost
    induction atMost using Nat.decreasingInduction with
    | self => exact ⟨t, level⟩
    | of_succ i _ inductionHypothesis =>
      obtain ⟨u, above⟩ := inductionHypothesis
      obtain ⟨_, u', here, _⟩ := grown.below u i above
      exact ⟨u', here⟩
  choose! f levelAt using occurs
  -- States of different levels are different.
  have injective : Set.InjOn f (Finset.range (j + 1)) := by
    intro i member i' member' same
    have first := levelAt i (Nat.lt_succ_iff.mp (Finset.mem_range.mp member))
    have second := levelAt i' (Nat.lt_succ_iff.mp (Finset.mem_range.mp member'))
    rw [same, second] at first
    exact (Option.some.inj first).symm
  have own : ∀ i ∈ Finset.range (j + 1), f i ∈ Finset.range c.size := by
    intro i member
    have here := levelAt i (Nat.lt_succ_iff.mp (Finset.mem_range.mp member))
    exact Finset.mem_range.mpr (grown.size ▸ levelOf_own here)
  have atMost := Finset.card_le_card_of_injOn f own injective
  rw [Finset.card_range, Finset.card_range] at atMost
  exact atMost

theorem Distances.level_eq (distances : c.Distances within s levels)
    (distances' : c.Distances within s levels') {j : Nat} (level : levelOf levels t = some j) :
    levelOf levels' t = some j := by
  induction j using Nat.strongRecOn generalizing t levels levels' with
  | ind j inductionHypothesis =>
    cases j with
    | zero =>
      rw [distances.zero t level]
      exact distances'.start
    | succ j =>
      obtain ⟨inside, u, before, edge⟩ := distances.below t j level
      have before' := inductionHypothesis j (Nat.lt_succ_self j) distances distances' before
      obtain ⟨i, atMost, level'⟩ := distances'.passedOn u j before' t edge inside
      -- A lower level in the second labelling would be the level in the first as well.
      obtain low | rfl := Nat.lt_or_eq_of_le atMost
      · rw [inductionHypothesis i low distances' distances level'] at level
        cases level
        exact absurd low (Nat.lt_irrefl _)
      · exact level'

theorem Distances.unique (distances : c.Distances within s levels)
    (distances' : c.Distances within s levels') : levels = levels' := by
  have same (t : Nat) : levelOf levels t = levelOf levels' t := by
    apply Option.ext
    intro j
    exact ⟨distances.level_eq distances', distances'.level_eq distances⟩
  apply Array.ext (distances.size.trans distances'.size.symm)
  intro t own own'
  have here := same t
  simpa [levelOf, own, own'] using here

/-! ## Rounds -/

/-- The targets of transitions that a round gives a level. -/
def fresh (c : Chain α) (within : StateSet) (levels : Array (Option Nat)) (k : Nat) : List Nat :=
  (c.transitions.filter fun t =>
    levelOf levels t.source = some k && within.contains t.target
      && (levelOf levels t.target).isNone).map Transition.target

theorem levelRound_eq (levels : Array (Option Nat)) (k : Nat) :
    c.levelRound within levels k =
      (c.fresh within levels k).foldl (fun ls t => ls.setIfInBounds t (some (k + 1))) levels := by
  rw [fresh, List.foldl_map]
  rfl

theorem levels_congr {within' : StateSet}
    (same : ∀ t, within.contains t = within'.contains t) (s : Nat) :
    c.levels within s = c.levels within' s := by
  have round : c.levelRound within = c.levelRound within' := by
    funext levels k
    simp only [levelRound, same]
  rw [levels, levels, round]

theorem mem_fresh {k : Nat} :
    t ∈ c.fresh within levels k ↔ levelOf levels t = none ∧ within.contains t = true ∧
      ∃ u, levelOf levels u = some k ∧ c.Edge u t := by
  rw [fresh, List.mem_map]
  constructor
  · rintro ⟨transition, member, rfl⟩
    obtain ⟨present, conditions⟩ := List.mem_filter.mp member
    simp only [Bool.and_eq_true, decide_eq_true_eq, Option.isNone_iff_eq_none] at conditions
    exact ⟨conditions.2, conditions.1.2, _, conditions.1.1, transition, present, rfl, rfl⟩
  · rintro ⟨open_, inside, u, level, transition, present, rfl, rfl⟩
    refine ⟨transition, List.mem_filter.mpr ⟨present, ?_⟩, rfl⟩
    simp [open_, inside, level]

theorem size_levelRound (levels : Array (Option Nat)) (k : Nat) :
    (c.levelRound within levels k).size = levels.size := by
  rw [levelRound_eq]
  exact Matrix.size_foldl_set _ (fun _ => some (k + 1)) levels

/-- After rounds up to `k` no level is above `k`, and the states of lower levels have passed theirs
on. -/
structure Levelled (c : Chain α) (within : StateSet) (s k : Nat) (levels : Array (Option Nat)) :
    Prop extends c.Grown within s levels where
  low : ∀ t j, levelOf levels t = some j → j ≤ k
  passedOn : ∀ t j, levelOf levels t = some j → j < k → c.PassedOn within levels t j

theorem levelled_start (own : s < c.size) : c.Levelled within s 0
    ((Array.replicate c.size none).setIfInBounds s (some 0)) where
  toGrown := grown_start own
  low := by
    intro t j level
    exact Nat.le_of_eq ((levelOf_start own).mp level).2
  passedOn := by
    intro t j _ impossible
    omega

section Labelling

variable [Scalar α]

/-- After a round a state has the level it had, or the next level if it is new. -/
theorem WellFormed.levelOf_levelRound (made : c.WellFormed) {k j : Nat}
    (size : levels.size = c.size) :
    levelOf (c.levelRound within levels k) t = some j ↔
      levelOf levels t = some j ∨ j = k + 1 ∧ t ∈ c.fresh within levels k := by
  by_cases own : t < levels.size
  · rw [levelRound_eq, levelOf, levelOf, Array.getD_eq_getD_getElem?,
      Matrix.getElem?_foldl_set _ (fun _ => some (k + 1)) levels own]
    by_cases new : t ∈ c.fresh within levels k
    · have none := (mem_fresh.mp new).1
      rw [levelOf, Array.getD_eq_getD_getElem?] at none
      simp [new, none, eq_comm]
    · simp [new]
  · -- No transition leads out of the chain.
    constructor
    · intro level
      exact absurd (size_levelRound (c := c) levels k ▸ levelOf_own level) own
    · intro level
      cases level with
      | inl level => exact absurd (levelOf_own level) own
      | inr new =>
        obtain ⟨_, _, u, _, edge⟩ := mem_fresh.mp new.2
        exact absurd (size ▸ (made.edge_own edge).2) own

theorem WellFormed.levelled_levelRound (made : c.WellFormed) {k : Nat}
    (levelled : c.Levelled within s k levels) :
    c.Levelled within s (k + 1) (c.levelRound within levels k) := by
  have level {t j : Nat} : levelOf (c.levelRound within levels k) t = some j ↔
      levelOf levels t = some j ∨ j = k + 1 ∧ t ∈ c.fresh within levels k :=
    made.levelOf_levelRound levelled.size
  refine ⟨⟨?size, ?start, ?zero, ?below⟩, ?low, ?passedOn⟩
  case size => exact (size_levelRound levels k).trans levelled.size
  case start => exact level.mpr (.inl levelled.start)
  case zero =>
    intro t here
    obtain old | ⟨impossible, _⟩ := level.mp here
    · exact levelled.zero t old
    · omega
  case below =>
    intro t j here
    obtain old | ⟨same, isFresh⟩ := level.mp here
    · obtain ⟨inside, u, before, edge⟩ := levelled.below t j old
      exact ⟨inside, u, level.mpr (.inl before), edge⟩
    · obtain rfl : j = k := by omega
      obtain ⟨_, inside, u, before, edge⟩ := mem_fresh.mp isFresh
      exact ⟨inside, u, level.mpr (.inl before), edge⟩
  case low =>
    intro t j here
    obtain old | ⟨rfl, _⟩ := level.mp here
    · exact Nat.le_succ_of_le (levelled.low t j old)
    · exact Nat.le_refl _
  case passedOn =>
    intro t j here below u edge inside
    obtain before | ⟨rfl, _⟩ := level.mp here
    · by_cases earlier : j < k
      · obtain ⟨i, atMost, found⟩ := levelled.passedOn t j before earlier u edge inside
        exact ⟨i, atMost, level.mpr (.inl found)⟩
      · -- The states of level `k` pass theirs on in this round.
        obtain rfl : j = k := by omega
        cases old : levelOf levels u with
        | some i =>
          exact ⟨i, Nat.le_succ_of_le (levelled.low u i old), level.mpr (.inl old)⟩
        | none =>
          have isFresh := mem_fresh.mpr ⟨old, inside, t, before, edge⟩
          exact ⟨j + 1, Nat.le_refl _, level.mpr (.inr ⟨rfl, isFresh⟩)⟩
    · omega

theorem WellFormed.distances_levels (made : c.WellFormed) (within : StateSet) (own : s < c.size) :
    c.Distances within s (c.levels within s) := by
  have rounds (n : Nat) : c.Levelled within s n ((List.range n).foldl (c.levelRound within)
      ((Array.replicate c.size none).setIfInBounds s (some 0))) := by
    induction n with
    | zero => exact levelled_start own
    | succ n inductionHypothesis =>
      rw [List.range_succ, List.foldl_append]
      exact made.levelled_levelRound inductionHypothesis
  have levelled := rounds c.size
  exact ⟨levelled.toGrown, fun t j level =>
    levelled.passedOn t j level (levelled.lt_size level)⟩

end Labelling

/-! ## The queue -/

/-- The queue holds states of one level and behind them states of the next, no state has a higher
level, and the states outside the queue have passed theirs on. -/
structure Draining (c : Chain α) (within : StateSet) (s : Nat) (levels : Array (Option Nat))
    (queue : List Nat) (level : Nat) : Prop extends c.Grown within s levels where
  low : ∀ t j, levelOf levels t = some j → j ≤ level + 1
  queued : ∃ now next, queue = now ++ next ∧ (∀ t ∈ now, levelOf levels t = some level) ∧
    ∀ t ∈ next, levelOf levels t = some (level + 1)
  passedOn : ∀ t j, levelOf levels t = some j → t ∉ queue → c.PassedOn within levels t j

theorem draining_start (own : s < c.size) : c.Draining within s
    ((Array.replicate c.size none).setIfInBounds s (some 0)) [s] 0 where
  toGrown := grown_start own
  low := by
    intro t j level
    rw [((levelOf_start own).mp level).2]
    exact Nat.zero_le _
  queued := ⟨[s], [], rfl, by simp [levelOf_start own], by simp⟩
  passedOn := by
    intro t j level outside
    exact absurd (List.mem_singleton.mpr ((levelOf_start own).mp level).1) outside

theorem Draining.distances {level : Nat} (draining : c.Draining within s levels [] level) :
    c.Distances within s levels where
  toGrown := draining.toGrown
  passedOn := fun t j here => draining.passedOn t j here (List.not_mem_nil)

/-- The first state of the queue can be taken to be of the lower of its two levels. -/
theorem Draining.front {rest : List Nat} {level : Nat}
    (draining : c.Draining within s levels (t :: rest) level) :
    ∃ here, levelOf levels t = some here ∧ c.Draining within s levels (t :: rest) here := by
  obtain ⟨now, next, split, isNow, isNext⟩ := draining.queued
  cases now with
  | cons first now =>
    obtain rfl : t = first := (List.cons.inj split).1
    exact ⟨level, isNow t List.mem_cons_self, draining⟩
  | nil =>
    -- All states of the queue are of the higher level.
    rw [List.nil_append] at split
    subst split
    refine ⟨level + 1, isNext t List.mem_cons_self, draining.toGrown, ?_,
      ⟨t :: rest, [], (List.append_nil _).symm, isNext, by simp⟩, draining.passedOn⟩
    intro u j here
    exact Nat.le_succ_of_le (draining.low u j here)

/-- A state whose neighbours have levels can leave the queue. -/
theorem Draining.leave {rest : List Nat} {level : Nat}
    (draining : c.Draining within s levels (t :: rest) level)
    (here : levelOf levels t = some level)
    (seen : ∀ u, c.Edge t u → within.contains u = true → ∃ i, levelOf levels u = some i) :
    c.Draining within s levels rest level where
  toGrown := draining.toGrown
  low := draining.low
  queued := by
    obtain ⟨now, next, split, isNow, isNext⟩ := draining.queued
    cases now with
    | cons first now =>
      exact ⟨now, next, (List.cons.inj split).2,
        fun u member => isNow u (List.mem_cons_of_mem first member), isNext⟩
    | nil =>
      rw [List.nil_append] at split
      subst split
      exact ⟨[], rest, rfl, by simp, fun u member => isNext u (List.mem_cons_of_mem t member)⟩
  passedOn := by
    intro u j level' outside
    by_cases same : u = t
    · subst same
      cases here.symm.trans level'
      intro v edge inside
      obtain ⟨i, found⟩ := seen v edge inside
      exact ⟨i, draining.low v i found, found⟩
    · exact draining.passedOn u j level' (by simp [same, outside])

/-- The states that have a level keep it. -/
def Extends (levels levels' : Array (Option Nat)) : Prop :=
  ∀ t j, levelOf levels t = some j → levelOf levels' t = some j

theorem extends_setIfInBounds (own : t < levels.size) (absent : levelOf levels t = none)
    (level : Option Nat) : Extends levels (levels.setIfInBounds t level) := by
  intro u j here
  have different : u ≠ t := by
    rintro rfl
    rw [absent] at here
    cases here
  rw [levelOf_setIfInBounds own, if_neg different]
  exact here

theorem PassedOn.extends {j : Nat} (passed : c.PassedOn within levels t j)
    (kept : Extends levels levels') : c.PassedOn within levels' t j := by
  intro u edge inside
  obtain ⟨i, atMost, here⟩ := passed u edge inside
  exact ⟨i, atMost, kept u i here⟩

/-- A new state gets the level after that of a state one transition before it. -/
theorem Grown.grow (grown : c.Grown within s levels) {j : Nat}
    (before : levelOf levels u = some j) (edge : c.Edge u t) (own : t < levels.size)
    (inside : within.contains t = true) (absent : levelOf levels t = none) :
    c.Grown within s (levels.setIfInBounds t (some (j + 1))) := by
  have kept := extends_setIfInBounds own absent (some (j + 1))
  refine ⟨(Array.size_setIfInBounds).trans grown.size, kept s 0 grown.start, ?zero, ?below⟩
  case zero =>
    intro x level
    rw [levelOf_setIfInBounds own] at level
    split at level
    · cases level
    · exact grown.zero x level
  case below =>
    intro x i level
    rw [levelOf_setIfInBounds own] at level
    split at level
    · next same =>
      subst same
      cases level
      exact ⟨inside, u, kept u j before, edge⟩
    · obtain ⟨inside', u', before', edge'⟩ := grown.below x i level
      exact ⟨inside', u', kept u' i before', edge'⟩

/-- The level passed on is the higher one of the queue, so the new state can join it at the end. -/
theorem Draining.join {queue : List Nat} {level : Nat}
    (draining : c.Draining within s levels queue level) (before : levelOf levels u = some level)
    (edge : c.Edge u t) (own : t < levels.size) (inside : within.contains t = true)
    (absent : levelOf levels t = none) :
    c.Draining within s (levels.setIfInBounds t (some (level + 1))) (queue ++ [t]) level := by
  have kept := extends_setIfInBounds own absent (some (level + 1))
  have new : levelOf (levels.setIfInBounds t (some (level + 1))) t = some (level + 1) := by
    rw [levelOf_setIfInBounds own, if_pos rfl]
  refine ⟨draining.toGrown.grow before edge own inside absent, ?low, ?queued, ?passedOn⟩
  case low =>
    intro x j here
    rw [levelOf_setIfInBounds own] at here
    split at here
    · cases here
      exact Nat.le_refl _
    · exact draining.low x j here
  case queued =>
    obtain ⟨now, next, rfl, isNow, isNext⟩ := draining.queued
    refine ⟨now, next ++ [t], List.append_assoc now next [t],
      fun x member => kept x _ (isNow x member), ?_⟩
    intro x member
    obtain old | last := List.mem_append.mp member
    · exact kept x _ (isNext x old)
    · rw [List.mem_singleton.mp last]
      exact new
  case passedOn =>
    intro x j here outside
    rw [List.mem_append, List.mem_singleton, not_or] at outside
    rw [levelOf_setIfInBounds own, if_neg outside.2] at here
    exact (draining.passedOn x j here outside.1).extends kept

section Queue

variable [Scalar α] (made : c.WellFormed) {f : Labelling} {level : Nat}
include made

/-- Looking at one neighbour. The state whose neighbour it is stays in front of the queue here until
all its neighbours were looked at. -/
theorem WellFormed.visit_eq_ok
    (draining : c.Draining within s f.levels (u :: f.queue) level)
    (before : levelOf f.levels u = some level) (edge : c.Edge u t) :
    ∃ f', f.visit (α := α) within (level + 1) t = .ok f' ∧
      c.Draining within s f'.levels (u :: f'.queue) level ∧ Extends f.levels f'.levels ∧
      (within.contains t = true → ∃ j, levelOf f'.levels t = some j) := by
  have own : t < f.levels.size := draining.size ▸ (made.edge_own edge).2
  have access : f.levels[t]? = some (levelOf f.levels t) := by simp [levelOf, own]
  rw [Labelling.visit, access]
  by_cases inside : within.contains t = true
  · rw [if_pos inside]
    cases here : levelOf f.levels t with
    | some j => exact ⟨f, rfl, draining, fun _ _ kept => kept, fun _ => ⟨j, here⟩⟩
    | none =>
      refine ⟨_, rfl, draining.join before edge own inside here,
        extends_setIfInBounds own here _, fun _ => ⟨level + 1, ?_⟩⟩
      rw [levelOf_setIfInBounds own, if_pos rfl]
  · rw [if_neg inside]
    exact ⟨f, rfl, draining, fun _ _ kept => kept, fun member => absurd member inside⟩

theorem WellFormed.visitAll_eq_ok {ts : List Nat}
    (draining : c.Draining within s f.levels (u :: f.queue) level)
    (before : levelOf f.levels u = some level) (edges : ∀ t ∈ ts, c.Edge u t) :
    ∃ f', f.visitAll (α := α) within (level + 1) ts = .ok f' ∧
      c.Draining within s f'.levels (u :: f'.queue) level ∧ Extends f.levels f'.levels ∧
      ∀ t ∈ ts, within.contains t = true → ∃ j, levelOf f'.levels t = some j := by
  induction ts generalizing f with
  | nil => exact ⟨f, rfl, draining, fun _ _ kept => kept, by simp⟩
  | cons t ts inductionHypothesis =>
    obtain ⟨f', visited, draining', kept, here⟩ :=
      made.visit_eq_ok draining before (edges t List.mem_cons_self)
    obtain ⟨f'', rest, draining'', kept', there⟩ := inductionHypothesis draining'
      (kept u level before) fun t member => edges t (List.mem_cons_of_mem _ member)
    refine ⟨f'', ?_, draining'', fun x j old => kept' x j (kept x j old), ?_⟩
    · rw [Labelling.visitAll, List.foldlM_cons, visited]
      exact rest
    · intro x member inside
      obtain rfl | later := List.mem_cons.mp member
      · obtain ⟨j, level⟩ := here inside
        exact ⟨j, kept' x j level⟩
      · exact there x later inside

/-- A step takes the first state from the queue and passes its level on. -/
theorem WellFormed.lookFrom_eq_ok {rest : List Nat}
    (draining : c.Draining within s levels (u :: rest) level) :
    ∃ f' level', c.lookFrom within ⟨levels, rest⟩ u = .ok f' ∧
      c.Draining within s f'.levels f'.queue level' := by
  obtain ⟨here, before, front⟩ := draining.front
  have own : u < levels.size := levelOf_own before
  have access : levels[u]? = some (some here) := by simpa [levelOf, own] using before
  have edges : ∀ t ∈ (c.successors u).map Transition.target, c.Edge u t :=
    fun _ member => mem_targets.mp member
  obtain ⟨f', visited, draining', kept, seen⟩ :=
    made.visitAll_eq_ok (f := ⟨levels, rest⟩) front before edges
  refine ⟨f', here, ?_, draining'.leave (kept u here before) ?_⟩
  · rw [lookFrom, access]
    exact visited
  · intro t edge inside
    exact seen t (mem_targets.mpr edge) inside

theorem WellFormed.labelAll_eq_ok (draining : c.Draining within s f.levels f.queue level) :
    ∃ levels, c.labelAll within f = .ok levels ∧ c.Distances within s levels := by
  fun_induction labelAll c within f generalizing level with
  | case1 levels => exact ⟨levels, rfl, draining.distances⟩
  | case2 levels u rest f' looked inductionHypothesis =>
    obtain ⟨_, level', looked', draining'⟩ := made.lookFrom_eq_ok draining
    cases looked.symm.trans looked'
    exact inductionHypothesis draining'
  | case3 levels u rest e failed =>
    obtain ⟨_, _, looked, _⟩ := made.lookFrom_eq_ok draining
    cases failed.symm.trans looked

/-- The search with a queue finds the levels that the rounds find. -/
theorem WellFormed.levelsByQueue_eq_ok (within : StateSet) (own : s < c.size) :
    c.levelsByQueue within s = .ok (c.levels within s) := by
  have start : c.Draining within s _ [s] 0 := draining_start own
  obtain ⟨levels, returned, distances⟩ :=
    made.labelAll_eq_ok (f := ⟨(Array.replicate c.size none).setIfInBounds s (some 0), [s]⟩) start
  rw [levelsByQueue, if_pos own, returned,
    distances.unique (made.distances_levels within own)]

end Queue

end MarkovCheck.Chain

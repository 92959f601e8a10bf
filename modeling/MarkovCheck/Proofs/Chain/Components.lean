import Mathlib.Logic.Relation
import MarkovCheck.Chain.Worklist
import MarkovCheck.Proofs.Chain.Walks
import MarkovCheck.Proofs.Reachability.Safety
import MarkovCheck.Proofs.StateSet.Refinement

/-!
# Components

A search with a queue finds what can be reached from the states it starts with: whatever it found
came from there, and of every state that it knows it has either looked at the neighbours or the
state is in the queue. So it finds the same states as the search in rounds, forward and backward,
although backward the states it starts with are not among them.

The states linked with a state make up its component, and being linked is an equivalence, so
components of two states are equal or have nothing in common.

* `Guide.Progress`: what holds before and after each step of a search
* `Guide.search_eq_ok`: what a search finds
* `Chain.WellFormed.reachableFromByQueue_eq_ok`, `Chain.WellFormed.canReachByQueue_eq_ok`: the two
  searches of a chain
* `Chain.component_partition`: components partition the states
-/

namespace MarkovCheck

/-! ## Neighbours that are found -/

namespace Frontier

variable {f : Frontier} {t x : Nat} {ts : List Nat}

theorem found_discover (f : Frontier) (t : Nat) : (f.discover t).found = f.found.insert t := by
  cases present : f.found.contains t with
  | true => rw [discover_of_found present]
  | false => rw [discover_of_new present]

theorem mem_queue_discover :
    x ∈ (f.discover t).queue ↔ x ∈ f.queue ∨ x = t ∧ f.found.contains x = false := by
  cases present : f.found.contains t with
  | true =>
    rw [discover_of_found present]
    constructor
    · exact .inl
    · rintro (queued | ⟨rfl, absent⟩)
      · exact queued
      · simp [present] at absent
  | false =>
    rw [discover_of_new present, List.mem_append, List.mem_singleton]
    apply or_congr_right
    constructor
    · rintro rfl
      exact ⟨rfl, present⟩
    · exact And.left

theorem contains_discoverAll :
    (f.discoverAll ts).found.contains x = true ↔ x ∈ ts ∨ f.found.contains x = true := by
  induction ts generalizing f with
  | nil => simp [discoverAll]
  | cons t ts inductionHypothesis =>
    refine (inductionHypothesis (f := f.discover t)).trans ?_
    rw [found_discover, StateSet.contains_insert, Bool.or_eq_true, decide_eq_true_eq,
      List.mem_cons, ← or_assoc, or_comm (a := x ∈ ts)]

/-- The queue grows by the neighbours that are new. -/
theorem mem_queue_discoverAll :
    x ∈ (f.discoverAll ts).queue ↔ x ∈ f.queue ∨ x ∈ ts ∧ f.found.contains x = false := by
  induction ts generalizing f with
  | nil => simp [discoverAll]
  | cons t ts inductionHypothesis =>
    refine (inductionHypothesis (f := f.discover t)).trans ?_
    rw [mem_queue_discover, found_discover, StateSet.contains_insert, List.mem_cons]
    by_cases same : x = t
    · simp [same]
    · simp [same]

theorem counted_discoverAll (counted : f.found.Counted) : (f.discoverAll ts).found.Counted := by
  induction ts generalizing f with
  | nil => exact counted
  | cons t ts inductionHypothesis =>
    apply inductionHypothesis (f := f.discover t)
    rw [found_discover]
    exact counted.insert t

end Frontier

/-! ## One step, and all steps -/

namespace Guide

variable {ε : Type} {g : Guide ε} {inside : Nat → Prop} {start f : Frontier}

def Next (g : Guide ε) (s t : Nat) : Prop := ∃ ts, g.neighbours s = .ok ts ∧ t ∈ ts

/-- Inside some states, looking at neighbours succeeds and leads to such states only. -/
def Stays (g : Guide ε) (inside : Nat → Prop) : Prop :=
  ∀ s, inside s → ∃ ts, g.neighbours s = .ok ts ∧ ∀ t ∈ ts, inside t

/-- How far a search has come: the states in the queue are inside and can be reached from the start,
as those that were found; and of the states that it knows, those whose neighbours are not all found
are in the queue. -/
structure Progress (g : Guide ε) (inside : Nat → Prop) (start f : Frontier) : Prop where
  counted : f.found.Counted
  inside : ∀ s ∈ f.queue, inside s
  queued : ∀ s ∈ f.queue, ∃ u ∈ start.queue, Relation.ReflTransGen g.Next u s
  reached : ∀ t, f.found.contains t = true →
    start.found.contains t = true ∨ ∃ u ∈ start.queue, Relation.TransGen g.Next u t
  kept : ∀ t, start.found.contains t = true → f.found.contains t = true
  closed : ∀ s, s ∈ start.queue ∨ f.found.contains s = true →
    s ∈ f.queue ∨ ∀ t, g.Next s t → f.found.contains t = true

theorem progress_start (counted : start.found.Counted) (inStart : ∀ s ∈ start.queue, inside s)
    (queued : ∀ s, start.found.contains s = true → s ∈ start.queue) :
    g.Progress inside start start where
  counted := counted
  inside := inStart
  queued := fun s member => ⟨s, member, .refl⟩
  reached := fun _ member => .inl member
  kept := fun _ member => member
  closed := by
    rintro s (member | member)
    · exact .inl member
    · exact .inl (queued s member)

/-- A step looks at the neighbours of the first state in the queue. -/
theorem Progress.step (stays : g.Stays inside) {found : StateSet} {s : Nat} {rest ts : List Nat}
    (looked : g.neighbours s = .ok ts) (progress : g.Progress inside start ⟨found, s :: rest⟩) :
    g.Progress inside start (Frontier.discoverAll ⟨found, rest⟩ ts) := by
  obtain ⟨u, fromStart, path⟩ := progress.queued s List.mem_cons_self
  have next {t : Nat} (member : t ∈ ts) : g.Next s t := ⟨ts, looked, member⟩
  refine ⟨Frontier.counted_discoverAll progress.counted, ?_, ?_, ?_, ?_, ?_⟩
  · intro t member
    obtain old | ⟨new, _⟩ := Frontier.mem_queue_discoverAll.mp member
    · exact progress.inside t (List.mem_cons_of_mem s old)
    · obtain ⟨_, looked', insideNext⟩ := stays s (progress.inside s List.mem_cons_self)
      cases looked.symm.trans looked'
      exact insideNext t new
  · intro t member
    obtain old | ⟨new, _⟩ := Frontier.mem_queue_discoverAll.mp member
    · exact progress.queued t (List.mem_cons_of_mem s old)
    · exact ⟨u, fromStart, path.tail (next new)⟩
  · intro t member
    obtain new | old := Frontier.contains_discoverAll.mp member
    · exact .inr ⟨u, fromStart, .tail' path (next new)⟩
    · exact progress.reached t old
  · intro t member
    exact Frontier.contains_discoverAll.mpr (.inr (progress.kept t member))
  · intro x known
    -- A state is new and in the queue, or was known before.
    by_cases fresh : x ∈ ts ∧ found.contains x = false
    · exact .inl (Frontier.mem_queue_discoverAll.mpr (.inr fresh))
    · have before : x ∈ start.queue ∨ found.contains x = true := by
        obtain member | member := known
        · exact .inl member
        · obtain new | old := Frontier.contains_discoverAll.mp member
          · exact .inr (by simpa [new] using fresh)
          · exact .inr old
      obtain member | closed := progress.closed x before
      · obtain rfl | later := List.mem_cons.mp member
        · right
          rintro t ⟨_, looked', member'⟩
          cases looked.symm.trans looked'
          exact Frontier.contains_discoverAll.mpr (.inl member')
        · exact .inl (Frontier.mem_queue_discoverAll.mpr (.inl later))
      · right
        intro t adjacent
        exact Frontier.contains_discoverAll.mpr (.inr (closed t adjacent))

/-- With the queue empty, everything that can be reached from the start was found. -/
theorem Progress.complete {found : StateSet} (progress : g.Progress inside start ⟨found, []⟩)
    {u t : Nat} (member : u ∈ start.queue) (path : Relation.TransGen g.Next u t) :
    found.contains t = true := by
  have closed : ∀ s, s ∈ start.queue ∨ found.contains s = true →
      ∀ t, g.Next s t → found.contains t = true := by
    intro s known
    obtain queued | done := progress.closed s known
    · cases queued
    · exact done
  induction path with
  | single adjacent => exact closed u (.inl member) _ adjacent
  | tail _ adjacent inductionHypothesis => exact closed _ (.inr inductionHypothesis) _ adjacent

theorem Progress.search_eq_ok (stays : g.Stays inside) (progress : g.Progress inside start f) :
    ∃ found, g.search f = .ok found ∧ g.Progress inside start ⟨found, []⟩ := by
  fun_induction search g f with
  | case1 found => exact ⟨found, rfl, progress⟩
  | case2 found s rest ts looked inductionHypothesis =>
    exact inductionHypothesis (progress.step stays looked)
  | case3 found s rest e failed =>
    obtain ⟨ts, looked, _⟩ := stays s (progress.inside s List.mem_cons_self)
    cases failed.symm.trans looked

/-- A search ends with the states that were found at the start, which have to be in the queue, and
those that can be reached from the queue. -/
theorem search_eq_ok (stays : g.Stays inside) (counted : start.found.Counted)
    (inStart : ∀ s ∈ start.queue, inside s)
    (queued : ∀ s, start.found.contains s = true → s ∈ start.queue) :
    ∃ found, g.search start = .ok found ∧ found.Counted ∧ ∀ t, found.contains t = true ↔
      start.found.contains t = true ∨ ∃ u ∈ start.queue, Relation.TransGen g.Next u t := by
  obtain ⟨found, returned, progress⟩ :=
    (progress_start counted inStart queued).search_eq_ok stays
  refine ⟨found, returned, progress.counted, ?_⟩
  intro t
  constructor
  · exact progress.reached t
  · rintro (member | ⟨u, member, path⟩)
    · exact progress.kept t member
    · exact progress.complete member path

end Guide

namespace Chain

variable {α : Type} {c : Chain α} {goal avoid : StateSet} {s t : Nat}

/-! ## Forward -/

theorem next_forwardGuide : c.forwardGuide.Next s t ↔ c.Edge s t := by
  constructor
  · rintro ⟨ts, looked, member⟩
    cases looked
    exact mem_targets.mp member
  · intro edge
    exact ⟨_, rfl, mem_targets.mpr edge⟩

theorem exists_walk_iff : (∃ n, c.Walk s t n) ↔ t = s ∨ Relation.TransGen c.Edge s t := by
  rw [← leads_univ, ← Relation.reflTransGen_iff_eq_or_transGen]
  simp [Leads]

theorem reachableFromByQueue_eq_ok (own : s < c.size) :
    ∃ set, c.reachableFromByQueue s = .ok set ∧ set.Counted ∧
      ∀ t, set.contains t = true ↔ ∃ n, c.Walk s t n := by
  have stays : c.forwardGuide.Stays fun _ => True := fun s _ => ⟨_, rfl, fun _ _ => trivial⟩
  let start : Frontier := ⟨(StateSet.withCapacity c.size).insert s, [s]⟩
  have contains_start (t : Nat) : start.found.contains t = true ↔ t = s := by simp [start]
  have queued : ∀ t, start.found.contains t = true → t ∈ start.queue := fun t member =>
    List.mem_singleton.mpr ((contains_start t).mp member)
  obtain ⟨set, returned, counted, found⟩ := Guide.search_eq_ok stays
    ((StateSet.counted_withCapacity c.size).insert s) (fun _ _ => trivial) queued
  refine ⟨set, (if_pos own).trans returned, counted, ?_⟩
  have same : c.forwardGuide.Next = c.Edge := by
    funext s t
    exact propext next_forwardGuide
  intro t
  rw [found, contains_start, exists_walk_iff, same]
  simp [start]

/-! ## Backward -/

theorem enterSource_eq_ok {table : Array (List Nat)} {entered : Transition α}
    (inside : entered.target < table.size) :
    ∃ table', enterSource table entered = .ok table' ∧ table'.size = table.size ∧
      ∀ s t, t ∈ table'.getD s [] ↔
        t ∈ table.getD s [] ∨ entered.source = t ∧ entered.target = s := by
  refine ⟨_, if_pos inside, Array.size_modify, ?_⟩
  intro s t
  simp only [Array.getD_eq_getD_getElem?, Array.getElem?_modify]
  by_cases same : entered.target = s
  · subst same
    simp [inside, eq_comm]
  · simp [same]

/-- Sources are entered one after the other, each in the row of its target. -/
theorem foldlM_enterSource {ts : List (Transition α)} {table : Array (List Nat)}
    (inside : ∀ entered ∈ ts, entered.target < table.size) :
    ∃ table', ts.foldlM enterSource table = .ok table' ∧ table'.size = table.size ∧
      ∀ s t, t ∈ table'.getD s [] ↔ t ∈ table.getD s [] ∨
        ∃ entered ∈ ts, entered.source = t ∧ entered.target = s := by
  induction ts generalizing table with
  | nil => exact ⟨table, rfl, rfl, by simp⟩
  | cons first ts inductionHypothesis =>
    obtain ⟨next, entered, size, row⟩ := enterSource_eq_ok (inside first List.mem_cons_self)
    have still : ∀ later ∈ ts, later.target < next.size := fun later member =>
      size ▸ inside later (List.mem_cons_of_mem first member)
    obtain ⟨last, rest, size', row'⟩ := inductionHypothesis still
    refine ⟨last, Outcome.bind_eq_ok.mpr ⟨next, entered, rest⟩, size'.trans size, ?_⟩
    intro s t
    rw [row', row, or_assoc]
    simp

theorem next_backwardGuide {table : Array (List Nat)} :
    (backwardGuide table goal avoid : Guide (Error α)).Next s t ↔
      t ∈ table.getD s [] ∧ goal.contains t = false ∧ avoid.contains t = false := by
  cases row : table[s]? with
  | none => simp [Guide.Next, backwardGuide, row]
  | some sources => simp [Guide.Next, backwardGuide, row, List.mem_filter]

variable [Scalar α]

theorem WellFormed.sourceTable_eq_ok (made : c.WellFormed) :
    ∃ table, c.sourceTable = .ok table ∧ table.size = c.size ∧
      ∀ s t, t ∈ table.getD s [] ↔ c.Edge t s := by
  let empty : Array (List Nat) := Array.replicate c.size []
  have inside : ∀ entered ∈ c.transitions, entered.target < empty.size := fun entered member => by
    simpa [empty] using (made.own entered member).2
  obtain ⟨table, built, size, row⟩ := foldlM_enterSource inside
  refine ⟨table, built, size.trans Array.size_replicate, ?_⟩
  intro s t
  have noSource : t ∉ empty.getD s [] := by
    rw [Array.getD_eq_getD_getElem?, Array.getElem?_replicate]
    split <;> simp
  rw [row, or_iff_right noSource]
  rfl

/-- The search finds the states that reach the goal. -/
theorem WellFormed.canReachByQueue_eq_ok (made : c.WellFormed) (own : goal.Within c.size)
    (avoid : StateSet) : ∃ set, c.canReachByQueue goal avoid = .ok set ∧ set.Counted ∧
      ∀ t, set.contains t = true ↔ c.Reaches goal avoid t := by
  obtain ⟨table, built, size, row⟩ := made.sourceTable_eq_ok
  let g : Guide (Error α) := backwardGuide table goal avoid
  have next {s t : Nat} : g.Next s t ↔
      c.Edge t s ∧ goal.contains t = false ∧ avoid.contains t = false := by
    rw [next_backwardGuide, row]
  have stays : g.Stays fun s => s < c.size := by
    intro s inside
    have there : s < table.size := size.symm ▸ inside
    have looked : ∃ ts, g.neighbours s = .ok ts := by simp [g, backwardGuide, there]
    obtain ⟨ts, looked⟩ := looked
    exact ⟨ts, looked, fun t member => (made.edge_own (next.mp ⟨ts, looked, member⟩).1).1⟩
  let start : Frontier := ⟨StateSet.withCapacity c.size, goal.toList⟩
  have none (t : Nat) : ¬ start.found.contains t = true := by simp [start]
  obtain ⟨set, returned, counted, found⟩ := Guide.search_eq_ok stays
    (StateSet.counted_withCapacity c.size)
    (fun s member => own s ((goal.mem_toList s).mp member)) fun t member => absurd member (none t)
  refine ⟨set, Outcome.bind_eq_ok.mpr ⟨table, built, returned⟩, counted, ?_⟩
  intro t
  rw [found, or_iff_right (none t)]
  constructor
  · rintro ⟨u, member, path⟩
    have hit : goal.contains u = true := (goal.mem_toList u).mp member
    induction path with
    | single adjacent =>
      obtain ⟨edge, outside, allowed⟩ := next.mp adjacent
      exact .arrives outside allowed edge hit
    | tail _ adjacent inductionHypothesis =>
      obtain ⟨edge, outside, allowed⟩ := next.mp adjacent
      exact .passes outside allowed edge inductionHypothesis
  · intro reaches
    induction reaches with
    | arrives outside allowed edge hit =>
      exact ⟨_, (goal.mem_toList _).mpr hit, .single (next.mpr ⟨edge, outside, allowed⟩)⟩
    | passes outside allowed edge _ inductionHypothesis =>
      obtain ⟨u, member, path⟩ := inductionHypothesis
      exact ⟨u, member, path.tail (next.mpr ⟨edge, outside, allowed⟩)⟩

/-! ## Both ways -/

theorem WellFormed.reachingByQueue_eq_ok (made : c.WellFormed) (own : s < c.size) :
    ∃ set, c.reachingByQueue s = .ok set ∧ set.Counted ∧
      ∀ t, set.contains t = true ↔ ∃ n, c.Walk t s n := by
  have ownGoal : (StateSet.ofList [s]).Within c.size := StateSet.within_ofList [s] (by simpa)
  obtain ⟨set, returned, counted, found⟩ :=
    made.canReachByQueue_eq_ok ownGoal StateSet.empty
  refine ⟨set.insert s, Outcome.bind_eq_ok.mpr ⟨set, returned, ?_⟩, counted.insert s, ?_⟩
  · rw [if_pos own]
    rfl
  · -- The state that the search leaves out is added here as it is in the search in rounds.
    intro t
    rw [← made.contains_reachingOwn, reachingOwn, StateSet.contains_insert,
      StateSet.contains_insert, Bool.or_eq_true, Bool.or_eq_true, found, made.contains_backward]

theorem WellFormed.componentByQueue_eq_ok (made : c.WellFormed) (own : s < c.size) :
    ∃ set, c.componentByQueue s = .ok set ∧ set.Counted ∧
      ∀ t, set.contains t = true ↔ c.Linked s t := by
  obtain ⟨there, forward, _, ends⟩ := reachableFromByQueue_eq_ok own
  obtain ⟨back, backward, _, starts⟩ := made.reachingByQueue_eq_ok own
  refine ⟨there.inter back, ?_, StateSet.counted_combine _ _ _, ?_⟩
  · exact Outcome.bind_eq_ok.mpr ⟨there, forward, Outcome.bind_eq_ok.mpr ⟨back, backward, rfl⟩⟩
  · intro t
    rw [StateSet.contains_inter, Bool.and_eq_true, ends, starts]
    exact ⟨fun walks => ⟨walks.1, walks.2⟩, fun linked => ⟨linked.there, linked.back⟩⟩

theorem WellFormed.counted_reachableFrom (made : c.WellFormed) (s : Nat) :
    (c.reachableFrom s).Counted := by
  rw [reachableFrom]
  split
  · exact saturate_induction made.isRound_forwardRound.counted c.size
      ((StateSet.counted_withCapacity c.size).insert s)
  · exact StateSet.counted_withCapacity c.size

theorem WellFormed.counted_reachingOwn (made : c.WellFormed) (s : Nat) :
    (c.reachingOwn s).Counted :=
  (made.counted_backward _ _).insert s

omit [Scalar α] in
theorem counted_componentOwn (c : Chain α) (s : Nat) : (c.componentOwn s).Counted :=
  StateSet.counted_combine _ _ _

theorem WellFormed.isIrreducibleByQueue_eq_ok (made : c.WellFormed) :
    c.isIrreducibleByQueue = .ok c.isIrreducible := by
  by_cases nonempty : 0 < c.size
  · obtain ⟨set, returned, counted, linked⟩ := made.componentByQueue_eq_ok nonempty
    have same : set.size = (c.componentOwn 0).size := by
      rw [counted, c.counted_componentOwn 0]
      congr 1
      ext t
      rw [StateSet.mem_toFinset, StateSet.mem_toFinset, linked, made.contains_componentOwn nonempty]
    rw [isIrreducibleByQueue, if_pos nonempty]
    refine Outcome.bind_eq_ok.mpr ⟨set, returned, congrArg Except.ok ?_⟩
    rw [isIrreducible, same, decide_eq_true nonempty, Bool.true_and]
  · rw [isIrreducibleByQueue, if_neg nonempty, isIrreducible, decide_eq_false nonempty,
      Bool.false_and]

/-! ## The partition -/

/-- The component of a linked state is the same set. -/
theorem WellFormed.componentOwn_beq (made : c.WellFormed) (own : s < c.size) (own' : t < c.size) :
    (c.componentOwn t == c.componentOwn s) = true ↔ c.Linked s t := by
  rw [StateSet.beq_iff_contains (c.counted_componentOwn t) (c.counted_componentOwn s)]
  simp only [made.contains_componentOwn own, made.contains_componentOwn own']
  constructor
  · intro same
    exact (same t).mp (linked_refl t)
  · intro linked u
    exact ⟨linked.trans, linked.symm.trans⟩

/-- From an own state, the searches find the ends of the walks that start there, the starts of the
walks that end there, and as its component the states with walks in both directions. Two own states
have the same component exactly if one is in the component of the other, so the components partition
the states. A chain is irreducible exactly if it has states and each can reach every other one. The
searches with a queue succeed and find the same. -/
theorem component_partition (constructed : Constructed c) :
    (∀ s < c.size, ∃ reaching component : StateSet,
      c.reaching s = .ok reaching ∧ c.component s = .ok component ∧
      (∀ t, t ∈ (c.reachableFrom s).members ↔ ∃ n, c.Walk s t n) ∧
      (∀ t, t ∈ reaching.members ↔ ∃ n, c.Walk t s n) ∧
      (∀ t, t ∈ component.members ↔ (∃ n, c.Walk s t n) ∧ ∃ n, c.Walk t s n) ∧
      component.Within c.size ∧
      (∀ t < c.size, ∃ other, c.component t = .ok other ∧
        (t ∈ component.members ↔ (other == component) = true)) ∧
      ∃ reached' reaching' component' : StateSet,
        c.reachableFromByQueue s = .ok reached' ∧ (reached' == c.reachableFrom s) = true ∧
        c.reachingByQueue s = .ok reaching' ∧ (reaching' == reaching) = true ∧
        c.componentByQueue s = .ok component' ∧ (component' == component) = true) ∧
    (c.isIrreducible = true ↔
      0 < c.size ∧ ∀ s < c.size, ∀ t < c.size, ∃ n, c.Walk s t n) ∧
    c.isIrreducibleByQueue = .ok c.isIrreducible := by
  have made := constructed.wellFormed
  refine ⟨?_, ?_, made.isIrreducibleByQueue_eq_ok⟩
  · intro s own
    have linked {t : Nat} : (c.componentOwn s).contains t = true ↔ c.Linked s t :=
      made.contains_componentOwn own
    refine ⟨c.reachingOwn s, c.componentOwn s, if_pos own, if_pos own,
      fun _ => made.contains_reachableFrom own, fun _ => made.contains_reachingOwn, ?members,
      fun t member => made.linked_own own (linked.mp member), ?blocks, ?queue⟩
    case members =>
      intro t
      rw [StateSet.mem_members, linked]
      exact ⟨fun walks => ⟨walks.there, walks.back⟩, fun walks => ⟨walks.1, walks.2⟩⟩
    case blocks =>
      intro t own'
      refine ⟨c.componentOwn t, if_pos own', ?_⟩
      rw [StateSet.mem_members, linked, made.componentOwn_beq own own']
    case queue =>
      obtain ⟨reached, forward, counted, ends⟩ := reachableFromByQueue_eq_ok own
      obtain ⟨reaching, backward, counted', starts⟩ := made.reachingByQueue_eq_ok own
      obtain ⟨component, both, counted'', joined⟩ := made.componentByQueue_eq_ok own
      refine ⟨reached, reaching, component, forward, ?_, backward, ?_, both, ?_⟩
      · rw [StateSet.beq_iff_contains counted (made.counted_reachableFrom s)]
        intro t
        rw [ends, made.contains_reachableFrom own]
      · rw [StateSet.beq_iff_contains counted' (made.counted_reachingOwn s)]
        intro t
        rw [starts, made.contains_reachingOwn]
      · rw [StateSet.beq_iff_contains counted'' (c.counted_componentOwn s)]
        intro t
        rw [joined, linked]
  · rw [made.isIrreducible_iff]
    apply and_congr_right
    intro _
    constructor
    · intro linked s own t own'
      exact (linked s own t own').there
    · intro walks s own t own'
      exact ⟨walks s own t own', walks t own' s own⟩

/-- Two states that lead to each other, and from there a way without return to two others: there are
two components, each found from both of its states, and the chain is not irreducible. -/
theorem component_partition_oneWay :
    let c : Chain ℚ := ⟨0, 9, #[⟨0, "a", []⟩, ⟨1, "b", []⟩, ⟨2, "c", []⟩, ⟨3, "d", []⟩],
      [⟨0, 1, 1⟩, ⟨1, 0, 1 / 2⟩, ⟨1, 2, 1 / 2⟩, ⟨2, 3, 1⟩, ⟨3, 2, 1⟩], some 0, none⟩
    Constructed c ∧ (∃ n, c.Walk 0 3 n) ∧ (¬ ∃ n, c.Walk 3 0 n) ∧
      (∃ k k', c.component 0 = .ok k ∧ c.component 1 = .ok k' ∧ (k' == k) = true) ∧
      (∃ k k', c.component 0 = .ok k ∧ c.component 3 = .ok k' ∧ (k' == k) = false) ∧
      c.isIrreducibleByQueue = .ok false ∧
      ¬ ∀ s < c.size, ∀ t < c.size, ∃ n, c.Walk s t n := by
  intro c
  have constructed : Constructed c := constructed_of_addAll (by with_unfolding_all rfl)
  obtain ⟨searches, irreducible, byQueue⟩ := component_partition constructed
  obtain ⟨_, k, _, found, ends, _, _, _, others, _⟩ := searches 0 (by decide)
  obtain ⟨_, _, _, _, ends', _⟩ := searches 3 (by decide)
  obtain ⟨k', found', near⟩ := others 1 (by decide)
  obtain ⟨k'', found'', far⟩ := others 3 (by decide)
  have members : (c.component 0).map (fun set => (set.contains 1, set.contains 3)) =
      .ok (true, false) := by decide +kernel
  rw [found] at members
  obtain ⟨inside, outside⟩ := Prod.mk.inj (Except.ok.inj members)
  have reducible : c.isIrreducible = false := by decide +kernel
  refine ⟨constructed, (ends 3).mp (show (c.reachableFrom 0).contains 3 = true by decide +kernel),
    ?_, ⟨k, k', found, found', near.mp inside⟩, ⟨k, k'', found, found'', ?_⟩, ?_, ?_⟩
  · rw [← ends' 0]
    exact (show ¬ (c.reachableFrom 3).contains 0 = true by decide +kernel)
  · rw [← Bool.not_eq_true, ← far]
    simp [outside]
  · rw [byQueue, reducible]
  · intro walks
    rw [irreducible.mpr ⟨by decide, walks⟩] at reducible
    cases reducible

end Chain

end MarkovCheck

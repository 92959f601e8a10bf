import MarkovCheck.Chain.Graph
import MarkovCheck.StateSet.Lemmas

/-!
# Searches with a queue

The searches in the graph of a chain, state by state instead of in rounds. A queue holds the states
that were found and whose neighbours were not looked at. A step takes the first of them, looks at
its neighbours in order, and puts those that are new at the end; the search ends with the queue.
Forward the neighbours are the targets of the transitions that leave a state, backward they are read
from a table of sources that is made beforehand, and every access to the table is checked.

A step takes one state from the queue, and each state that it puts there can be found only once. So
the states still to be found and the states in the queue become fewer, which is why a search ends.

The levels inside a component are given in the same way: a state is new if it has no level, and it
gets the level after that of the state whose neighbour it is.

* `Frontier`, `Frontier.discover`: the state of a search, and what one neighbour changes
* `Guide`, `Guide.search`: where a search can go, and the search
* `Chain.reachableFromByQueue`, `Chain.canReachByQueue`, `Chain.componentByQueue`
* `Labelling`, `Labelling.visit`: the same for a search that gives levels
* `Chain.levelsByQueue`, `Chain.periodByQueue`
-/

namespace MarkovCheck

/-- The states that a search has found, and those of which it has still to look at the
neighbours. -/
structure Frontier where
  found : StateSet
  queue : List Nat

namespace Frontier

/-- Adds a state that is new to the found ones and to the end of the queue. -/
def discover (f : Frontier) (t : Nat) : Frontier :=
  match f.found.insertNew t with
  | (true, found) => ⟨found, f.queue ++ [t]⟩
  | (false, found) => ⟨found, f.queue⟩

def discoverAll (f : Frontier) (ts : List Nat) : Frontier := ts.foldl discover f

/-- The states of the pool that were not found. -/
def hidden (pool : List Nat) (found : StateSet) : Nat := pool.countP fun t => !found.contains t

/-- An upper bound for the steps that a search has still to take, if it finds states of the pool
only. -/
def work (pool : List Nat) (f : Frontier) : Nat := hidden pool f.found + f.queue.length

theorem discover_of_found {f : Frontier} {t : Nat} (present : f.found.contains t = true) :
    f.discover t = ⟨f.found.insert t, f.queue⟩ := by
  simp [discover, StateSet.insert, StateSet.insertNew, present]

theorem discover_of_new {f : Frontier} {t : Nat} (absent : f.found.contains t = false) :
    f.discover t = ⟨f.found.insert t, f.queue ++ [t]⟩ := by
  simp [discover, StateSet.insert, StateSet.insertNew, absent]

theorem hidden_insert_le (pool : List Nat) (found : StateSet) (t : Nat) :
    hidden pool (found.insert t) ≤ hidden pool found := by
  apply List.countP_mono_left
  simp

/-- A state of the pool that is found is no longer hidden. -/
theorem hidden_insert_lt {pool : List Nat} {found : StateSet} {t : Nat} (listed : t ∈ pool)
    (absent : found.contains t = false) : hidden pool (found.insert t) < hidden pool found := by
  obtain ⟨before, after, rfl⟩ := List.append_of_mem listed
  have first := hidden_insert_le before found t
  have last := hidden_insert_le after found t
  simp only [hidden] at first last ⊢
  simp only [List.countP_append, List.countP_cons, StateSet.contains_insert, decide_true,
    Bool.true_or, Bool.not_true, Bool.false_eq_true, if_false, absent, Bool.not_false, if_true]
    at first last ⊢
  omega

theorem work_discover_le {pool : List Nat} (f : Frontier) {t : Nat} (listed : t ∈ pool) :
    (f.discover t).work pool ≤ f.work pool := by
  cases present : f.found.contains t with
  | true =>
    have fewer := hidden_insert_le pool f.found t
    simp only [discover_of_found present, work]
    omega
  | false =>
    -- The queue is longer by the state that is no longer hidden.
    have fewer := hidden_insert_lt listed present
    simp only [discover_of_new present, work, List.length_append, List.length_singleton]
    omega

theorem work_discoverAll_le {pool ts : List Nat} (f : Frontier) (listed : ∀ t ∈ ts, t ∈ pool) :
    (f.discoverAll ts).work pool ≤ f.work pool := by
  induction ts generalizing f with
  | nil => exact Nat.le_refl _
  | cons t ts inductionHypothesis =>
    exact Nat.le_trans
      (inductionHypothesis (f.discover t) fun u member => listed u (List.mem_cons_of_mem t member))
      (work_discover_le f (listed t List.mem_cons_self))

end Frontier

/-- Where a search can go from each state, in order. All neighbours are in the pool. -/
structure Guide (ε : Type) where
  neighbours : Nat → Except ε (List Nat)
  pool : List Nat
  mem_pool : ∀ s ts, neighbours s = .ok ts → ∀ t ∈ ts, t ∈ pool

/-- Everything that a search finds. -/
def Guide.search {ε : Type} (g : Guide ε) (f : Frontier) : Except ε StateSet :=
  match f with
  | ⟨found, []⟩ => .ok found
  | ⟨found, s :: rest⟩ =>
    match _ : g.neighbours s with
    | .ok ts => g.search (Frontier.discoverAll ⟨found, rest⟩ ts)
    | .error e => .error e
termination_by f.work g.pool
decreasing_by
  have listed := g.mem_pool s ts ‹g.neighbours s = .ok ts›
  have less := Frontier.work_discoverAll_le ⟨found, rest⟩ listed
  simp only [Frontier.work, List.length_cons] at less ⊢
  omega

namespace Chain

variable {α : Type}

/-! ## Forward -/

/-- The targets of the transitions that leave a state. -/
def forwardGuide (c : Chain α) : Guide (Error α) where
  neighbours s := .ok ((c.successors s).map Transition.target)
  pool := c.transitions.map Transition.target
  mem_pool := by
    intro s ts looked t member
    cases looked
    obtain ⟨transition, leaves, rfl⟩ := List.mem_map.mp member
    exact List.mem_map_of_mem (List.mem_filter.mp leaves).1

/-- The states reachable from a state; none if the chain does not have it. -/
def reachableFromByQueue (c : Chain α) (s : Nat) : Except (Error α) StateSet :=
  if s < c.size then
    c.forwardGuide.search ⟨(StateSet.withCapacity c.size).insert s, [s]⟩
  else .ok (StateSet.withCapacity c.size)

/-! ## Backward -/

/-- Adds the source of a transition to the row of its target. -/
def enterSource (table : Array (List Nat)) (t : Transition α) :
    Except (Error α) (Array (List Nat)) :=
  if t.target < table.size then .ok (table.modify t.target (· ++ [t.source])) else .error .misuse

/-- For each state the sources of the transitions that lead to it. -/
def sourceTable (c : Chain α) : Except (Error α) (Array (List Nat)) :=
  c.transitions.foldlM enterSource (Array.replicate c.size [])

/-- The sources in the row of a state, except states of the goal and states to avoid. -/
def backwardGuide (table : Array (List Nat)) (goal avoid : StateSet) : Guide (Error α) where
  neighbours s :=
    match table[s]? with
    | some sources => .ok (sources.filter fun t => !(goal.contains t || avoid.contains t))
    | none => .error .misuse
  pool := table.toList.flatten
  mem_pool := by
    intro s ts looked t member
    split at looked
    · next sources row =>
      cases looked
      exact List.mem_flatten.mpr
        ⟨sources, (Array.mem_of_getElem? row).val, (List.mem_filter.mp member).1⟩
    · cases looked

/-- The states outside the goal and the states to avoid that have a path into the goal through
states of the same sort. -/
def canReachByQueue (c : Chain α) (goal avoid : StateSet) : Except (Error α) StateSet := do
  let table ← c.sourceTable
  (backwardGuide table goal avoid).search ⟨StateSet.withCapacity c.size, goal.toList⟩

/-! ## Both ways -/

/-- The states from which a state is reachable: the search leaves the state itself out. -/
def reachingByQueue (c : Chain α) (s : Nat) : Except (Error α) StateSet := do
  let set ← c.canReachByQueue (StateSet.ofList [s]) StateSet.empty
  return if s < c.size then set.insert s else set

/-- The strongly connected component of a state. -/
def componentByQueue (c : Chain α) (s : Nat) : Except (Error α) StateSet := do
  let there ← c.reachableFromByQueue s
  let back ← c.reachingByQueue s
  return there.inter back

/-- Is there a state, and can each state reach every other one? -/
def isIrreducibleByQueue (c : Chain α) : Except (Error α) Bool :=
  if 0 < c.size then do
    let set ← c.componentByQueue 0
    return decide (set.size = c.size)
  else .ok false

end Chain

/-! ## Levels -/

/-- The levels that a search has given, and the states of which it has still to look at the
neighbours. -/
structure Labelling where
  levels : Array (Option Nat)
  queue : List Nat

namespace Labelling

variable {α : Type}

/-- Gives a level to a state of the set that has none, and puts it at the end of the queue. -/
def visit (within : StateSet) (level : Nat) (f : Labelling) (t : Nat) :
    Except (Error α) Labelling :=
  if within.contains t then
    match f.levels[t]? with
    | some none => .ok ⟨f.levels.setIfInBounds t (some level), f.queue ++ [t]⟩
    | some (some _) => .ok f
    | none => .error .misuse
  else .ok f

def visitAll (within : StateSet) (level : Nat) (f : Labelling) (ts : List Nat) :
    Except (Error α) Labelling := ts.foldlM (visit within level) f

/-- An upper bound for the steps that a search has still to take. -/
def work (f : Labelling) : Nat := f.levels.countP Option.isNone + f.queue.length

/-- A state that is given a level is no longer without one. -/
theorem countP_setIfInBounds {levels : Array (Option Nat)} {t : Nat}
    (absent : levels[t]? = some none) (level : Nat) :
    (levels.setIfInBounds t (some level)).countP Option.isNone + 1 =
      levels.countP Option.isNone := by
  obtain ⟨inside, here⟩ := Array.getElem?_eq_some_iff.mp absent
  have positive : 0 < levels.countP Option.isNone :=
    Array.countP_pos_iff.mpr ⟨levels[t], Array.getElem_mem inside, by rw [here]; rfl⟩
  rw [Array.setIfInBounds, dif_pos inside, Array.countP_set, here]
  simp only [Option.isNone_none, Option.isNone_some, if_true, Bool.false_eq_true, if_false]
  omega

theorem work_visit_le {within : StateSet} {level t : Nat} {f f' : Labelling}
    (visited : visit (α := α) within level f t = .ok f') : f'.work ≤ f.work := by
  rw [visit] at visited
  split at visited
  · split at visited
    · next absent =>
      cases visited
      -- The queue is longer by the state that is no longer without a level.
      have fewer := countP_setIfInBounds absent level
      simp only [work, List.length_append, List.length_singleton]
      omega
    · cases visited
      exact Nat.le_refl _
    · cases visited
  · cases visited
    exact Nat.le_refl _

theorem work_visitAll_le {within : StateSet} {level : Nat} {ts : List Nat} {f f' : Labelling}
    (visited : visitAll (α := α) within level f ts = .ok f') : f'.work ≤ f.work := by
  induction ts generalizing f with
  | nil =>
    cases visited
    exact Nat.le_refl _
  | cons t ts inductionHypothesis =>
    rw [visitAll, List.foldlM_cons] at visited
    cases first : visit (α := α) within level f t with
    | error e =>
      rw [first] at visited
      cases visited
    | ok next =>
      rw [first] at visited
      exact Nat.le_trans (inductionHypothesis visited) (work_visit_le first)

end Labelling

namespace Chain

variable {α : Type}

/-- Looks at the states one transition away from a state, which has its level already. -/
def lookFrom (c : Chain α) (within : StateSet) (f : Labelling) (s : Nat) :
    Except (Error α) Labelling :=
  match f.levels[s]? with
  | some (some level) =>
    f.visitAll within (level + 1) ((c.successors s).map Transition.target)
  | _ => .error .misuse

theorem work_lookFrom_le {c : Chain α} {within : StateSet} {f f' : Labelling} {s : Nat}
    (looked : c.lookFrom within f s = .ok f') : f'.work ≤ f.work := by
  rw [lookFrom] at looked
  split at looked
  · exact Labelling.work_visitAll_le looked
  · cases looked

/-- Gives levels until the queue is empty. -/
def labelAll (c : Chain α) (within : StateSet) (f : Labelling) :
    Except (Error α) (Array (Option Nat)) :=
  match f with
  | ⟨levels, []⟩ => .ok levels
  | ⟨levels, s :: rest⟩ =>
    match _ : c.lookFrom within ⟨levels, rest⟩ s with
    | .ok f' => c.labelAll within f'
    | .error e => .error e
termination_by f.work
decreasing_by
  have less := work_lookFrom_le ‹c.lookFrom within ⟨levels, rest⟩ s = .ok f'›
  simp only [Labelling.work, List.length_cons] at less ⊢
  omega

/-- The distances from a state inside a set of states. -/
def levelsByQueue (c : Chain α) (within : StateSet) (s : Nat) :
    Except (Error α) (Array (Option Nat)) :=
  if s < c.size then
    c.labelAll within ⟨(Array.replicate c.size none).setIfInBounds s (some 0), [s]⟩
  else .error .misuse

/-- The greatest common divisor of the lengths of the cycles in the component of a state, or none if
there is no cycle. -/
def periodByQueue (c : Chain α) (s : Nat) : Except (Error α) (Option Nat) := do
  let within ← c.componentByQueue s
  let levels ← c.levelsByQueue within s
  let d := c.gapDivisor within levels
  return if d = 0 then none else some d

end Chain

end MarkovCheck

import MarkovCheck.Chain.Basic

/-!
# The graph of a chain

Reachability along transitions, strongly connected components and periods. Every search proceeds in
rounds: a round adds the states one transition away, and a search ends when a round adds nothing.
Searches that go state by state, with a queue, find the same.

* `backward`, `canReach`: the states with a path into a goal that avoids some states
* `forward`, `reaching`, `component`: plain reachability and mutual reachability
* `levels`, `period`: the greatest common divisor of the lengths of cycles
* `isIrreducible`, `isAperiodic`, `isErgodic`
-/

namespace MarkovCheck.Chain

variable {α : Type}

/-- Repeats a round until it adds nothing, at most `fuel` times. -/
def saturate (round : StateSet → StateSet) : Nat → StateSet → StateSet
  | 0, s => s
  | fuel + 1, s =>
    let s' := round s
    if s'.size = s.size then s else saturate round fuel s'

/-- Adds the sources of transitions into the goal or into marked states, except states of the goal
and states to avoid. -/
def backwardRound (c : Chain α) (goal avoid marked : StateSet) : StateSet :=
  marked.extend <| (c.transitions.filter fun t =>
    (goal.contains t.target || marked.contains t.target)
      && !(goal.contains t.source || avoid.contains t.source)).map Transition.source

/-- The states outside the goal and the states to avoid that have a path into the goal through
states of the same sort. -/
def backward (c : Chain α) (goal avoid : StateSet) : StateSet :=
  saturate (c.backwardRound goal avoid) c.size (StateSet.withCapacity c.size)

def canReach (c : Chain α) (goal avoid : StateSet) : Except (Error α) StateSet :=
  if goal.toList.all fun s => s < c.size then .ok (c.backward goal avoid) else .error .misuse

/-- Adds the targets of transitions from visited states. -/
def forwardRound (c : Chain α) (visited : StateSet) : StateSet :=
  visited.extend <| (c.transitions.filter fun t => visited.contains t.source).map Transition.target

/-- The states reachable from a state; none if the chain does not have it. -/
def reachableFrom (c : Chain α) (s : Nat) : StateSet :=
  if s < c.size then saturate c.forwardRound c.size ((StateSet.withCapacity c.size).insert s)
  else StateSet.withCapacity c.size

/-- The states from which an own state is reachable. -/
def reachingOwn (c : Chain α) (s : Nat) : StateSet :=
  (c.backward (StateSet.ofList [s]) StateSet.empty).insert s

/-- The states mutually reachable with an own state. -/
def componentOwn (c : Chain α) (s : Nat) : StateSet :=
  (c.reachableFrom s).inter (c.reachingOwn s)

def ownState {β : Type} (c : Chain α) (s : Nat) (analysis : Nat → β) :
    Except (Error α) β :=
  if s < c.size then .ok (analysis s) else .error .misuse

/-- The states from which a state is reachable. -/
def reaching (c : Chain α) (s : Nat) : Except (Error α) StateSet := c.ownState s c.reachingOwn

/-- The strongly connected component of a state. -/
def component (c : Chain α) (s : Nat) : Except (Error α) StateSet :=
  c.ownState s c.componentOwn

/-- Is there a state, and can each state reach every other one? -/
def isIrreducible (c : Chain α) : Bool :=
  decide (0 < c.size) && decide ((c.componentOwn 0).size = c.size)

/-! ## Periods -/

def levelOf (levels : Array (Option Nat)) (s : Nat) : Option Nat := levels.getD s none

/-- Gives level `k + 1` to the states of the set that are one transition away from level `k` and
have no level. -/
def levelRound (c : Chain α) (within : StateSet) (levels : Array (Option Nat)) (k : Nat) :
    Array (Option Nat) :=
  (c.transitions.filter fun t =>
    levelOf levels t.source = some k && within.contains t.target
      && (levelOf levels t.target).isNone).foldl
    (fun ls t => ls.setIfInBounds t.target (some (k + 1))) levels

/-- The distances from a state inside a set of states. -/
def levels (c : Chain α) (within : StateSet) (s : Nat) : Array (Option Nat) :=
  (List.range c.size).foldl (c.levelRound within)
    ((Array.replicate c.size none).setIfInBounds s (some 0))

/-- How far a transition between levels `a` and `b` is from leading one level up. -/
def levelGap (a b : Nat) : Nat := (a + 1 - b) + (b - (a + 1))

/-- The greatest common divisor of the level gaps inside a set of states. -/
def gapDivisor (c : Chain α) (within : StateSet) (levels : Array (Option Nat)) : Nat :=
  (c.transitions.filter fun t => within.contains t.source && within.contains t.target).foldl
    (fun d t =>
      match levelOf levels t.source, levelOf levels t.target with
      | some a, some b => Nat.gcd d (levelGap a b)
      | _, _ => d) 0

/-- The period of an own state: the greatest common divisor of the lengths of the cycles in its
component, or none if there is no cycle. -/
def periodOwn (c : Chain α) (s : Nat) : Option Nat :=
  let within := c.componentOwn s
  let d := c.gapDivisor within (c.levels within s)
  if d = 0 then none else some d

def period (c : Chain α) (s : Nat) : Except (Error α) (Option Nat) := c.ownState s c.periodOwn

def isAperiodic (c : Chain α) : Bool :=
  match c.initial with
  | some s => c.isIrreducible && decide (c.periodOwn s = some 1)
  | none => false

def isErgodic (c : Chain α) : Bool := c.isIrreducible && c.isAperiodic

end MarkovCheck.Chain

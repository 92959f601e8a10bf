import MarkovCheck.Chain.Graph
import MarkovCheck.Chain.Options
import MarkovCheck.Matrix.Elimination

/-!
# Reachability probabilities

The probability, for each state, of reaching a goal without entering a forbidden state first, within
a number of steps if one is given.

The graph decides most states: those of the goal have probability one, those that cannot reach the
goal have probability zero, and without a step bound those that cannot fail to reach it have
probability one. The others satisfy `x = A x + b`, with `A` their mutual transition probabilities
and `b` the mass that flows from them straight into states of probability one:

* `bounded`: that many applications of `x ↦ A x + b` to zero
* `direct`: Gaussian elimination on `(I - A) x = b`
* `iterate`: applications of `x ↦ A x + b` to zero until the change is small

Each application asks for the signal to stop first. What makes the applications comes in two forms:
as a part of a larger computation, which may have asked before, and as a call of its own.
-/

namespace MarkovCheck

namespace Reachability

variable {α : Type} [Scalar α]

@[specialize] def step (a : Matrix α) (b x : Array α) : Except (Error α) (Array α) := do
  let ax ← a.mulVec x
  return Array.zipWith (· + ·) ax b

/-- Applies the step the given number of times. -/
@[specialize] def boundedPolling (a : Matrix α) (b : Array α) (o : Options α) :
    Nat → Array α → Polling α (Array α)
  | 0, x => pure x
  | steps + 1, x => do
    o.poll
    let next ← step a b x
    boundedPolling a b o steps next

@[specialize] def bounded (a : Matrix α) (b : Array α) (o : Options α) (steps : Nat) (x : Array α) :
    Except (Error α) (Array α) :=
  (boundedPolling a b o steps x).value

@[specialize] def change (next x : Array α) : α :=
  (Array.zipWith (fun p q => Scalar.abs (p - q)) next x).foldl Scalar.larger 0

/-- Applies the step until the change is below the tolerance, at most the given number of times. -/
@[specialize] def iteratePolling (a : Matrix α) (b : Array α) (o : Options α) :
    Nat → Array α → Option α → Polling α (Array α)
  | 0, _, last => throw (.notConverged o.maxIterations last)
  | left + 1, x, _ => do
    o.poll
    let next ← step a b x
    let d := change next x
    if d < o.tolerance then return next else iteratePolling a b o left next (some d)

@[specialize] def iterate (a : Matrix α) (b : Array α) (o : Options α) (left : Nat) (x : Array α)
    (last : Option α) : Except (Error α) (Array α) :=
  (iteratePolling a b o left x last).value

/-- The vector of zeros that iterations start from. -/
@[specialize] def start (n : Nat) : Array α := Array.replicate n 0

@[specialize] def direct (a : Matrix α) (b : Array α) : Except (Error α) (Array α) :=
  let n := b.size
  (Matrix.ofFn n n fun i j => (if i = j then (1 : α) else 0) - a.entry i j).solve b

@[specialize]
def unboundedPolling (a : Matrix α) (b : Array α) (o : Options α) : Polling α (Array α) :=
  let byIteration := iteratePolling a b o o.maxIterations (start b.size) none
  match o.method with
  | .iterative => byIteration
  | .direct =>
    match direct a b with
    | .ok x => pure x
    | .error .singular => byIteration
    | .error e => throw e

@[specialize]
def unbounded (a : Matrix α) (b : Array α) (o : Options α) : Except (Error α) (Array α) :=
  (unboundedPolling a b o).value

@[specialize] def scatter (n : Nat) (values : List (Nat × α)) : Except (Error α) (Array α) :=
  if values.all fun (i, _) => i < n then
    .ok (values.foldl (fun v (i, a) => v.setIfInBounds i a) (Array.replicate n 0))
  else .error .misuse

end Reachability

namespace Chain

variable {α : Type} [Scalar α]

/-- The states of the set whose outgoing probabilities fall short of one. -/
@[specialize] def leaking (c : Chain α) (good : StateSet) : Except (Error α) StateSet := do
  let m := c.transitionMatrix
  let short ← good.toList.filterM fun s => do
    let row ← m.row s
    return decide (Scalar.total row < 1 - defaultTolerance)
  return StateSet.ofList short

/-- The states among `good` that reach the goal with probability one: those that cannot, while
avoiding the goal, get to a state that cannot reach it or to a leaking one. -/
@[specialize] def almostSure (c : Chain α) (goal good : StateSet) : Except (Error α) StateSet := do
  let leaks ← c.leaking good
  let zero := (goal.union good).complement c.size
  let escaping ← c.canReach (zero.union leaks) goal
  return good.diff (escaping.union leaks)

/-- What the graph of a chain says about a reachability problem. -/
structure Partition where
  /-- Non-goal states that reach the goal with probability one. -/
  sure : StateSet
  /-- States whose probability has to be computed. -/
  unsettled : StateSet

/-- Sorts the states that can reach the goal into sure and unsettled ones. With a step bound no
state outside the goal is sure. -/
@[specialize] def partition (c : Chain α) (goal forbidden : StateSet) (stepBounded : Bool) :
    Except (Error α) Partition := do
  let good ← c.canReach goal (forbidden.diff goal)
  let sure ← if stepBounded then pure StateSet.empty else c.almostSure goal good
  return ⟨sure, good.diff sure⟩

/-- The matrix and the vector of the equations for the unsettled states. -/
@[specialize] def equations (c : Chain α) (ones unsettled : Array Nat) :
    Except (Error α) (Matrix α × Array α) := do
  let m := c.transitionMatrix
  let a ← m.submatrix unsettled unsettled
  let b ← unsettled.mapM fun i => do
    let masses ← ones.mapM (m.get i)
    return Scalar.total masses.toList
  return (a, b)

/-- The probability, for each state, of reaching the goal without entering a forbidden state first,
within a number of steps if one is given. A state that is both goal and forbidden is goal. -/
@[specialize]
def reachabilityPolling (c : Chain α) (goal forbidden : StateSet) (steps : Option Nat)
    (o : Options α) : Polling α (Array α) :=
  if c.size = 0 then throw .noStates
  else do
    c.checkStates goal
    c.checkStates forbidden
    let ⟨sure, unsettled⟩ ← c.partition goal forbidden steps.isSome
    let ones := (goal.union sure).toList
    let rest := unsettled.toList
    let (a, b) ← c.equations ones.toArray rest.toArray
    let x ← match steps with
      | some k => Reachability.boundedPolling a b o k (Reachability.start b.size)
      | none => Reachability.unboundedPolling a b o
    let values : List (Nat × α) := ones.map (·, 1) ++ rest.zip (x.toList.map Scalar.clampUnit)
    Reachability.scatter c.size values

@[specialize]
def reachability (c : Chain α) (goal forbidden : StateSet) (steps : Option Nat) (o : Options α) :
    Except (Error α) (Array α) :=
  (c.reachabilityPolling goal forbidden steps o).value

end Chain

end MarkovCheck

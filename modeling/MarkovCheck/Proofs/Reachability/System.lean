import MarkovCheck.Chain.Reachability
import MarkovCheck.Proofs.Polling

/-!
# The stages of a reachability analysis

A reachability analysis first asks the graph of the chain, which leaves a `System`: the states of
probability one, the states still open, and the equations for the latter. It then solves the
equations and puts the values in place. Only the second stage looks at the settings, and asks for
the signal to stop.

* `Reachability.run'_boundedPolling`, `Reachability.run'_iteratePolling`: one iteration
* `Reachability.bounded_succ`, `Reachability.iterate_succ`: one iteration without a signal
* `Chain.system`: what the graph leaves
* `System.solve`, `System.assemble`: the values of the open states, and of all states
* `Chain.reachability_eq`, `Chain.reachability_eq_ok`: an analysis is these three stages
-/

namespace MarkovCheck

/-! ## Iterations -/

namespace Reachability

variable {α : Type} [Scalar α] {a : Matrix α} {b x : Array α} {o : Options α} {last : Option α}

theorem run'_boundedPolling (k polls : Nat) :
    (boundedPolling a b o (k + 1) x).run' polls =
      if o.isCancelled polls then .error .cancelled
      else step a b x >>= fun next => (boundedPolling a b o k next).run' (polls + 1) := by
  rw [boundedPolling, Polling.run'_bind_poll, Polling.run'_bind_lift]

theorem run'_iteratePolling (left polls : Nat) :
    (iteratePolling a b o (left + 1) x last).run' polls =
      if o.isCancelled polls then .error .cancelled
      else step a b x >>= fun next =>
        if change next x < o.tolerance then .ok next
        else (iteratePolling a b o left next (some (change next x))).run' (polls + 1) := by
  rw [iteratePolling, Polling.run'_bind_poll, Polling.run'_bind_lift]
  congr
  funext next
  by_cases small : change next x < o.tolerance
  · simp only [small, if_true]
    rfl
  · simp only [small, if_false]

theorem unbounded_eq (a : Matrix α) (b : Array α) (o : Options α) :
    unbounded a b o =
      match o.method with
      | .iterative => iterate a b o o.maxIterations (start b.size) none
      | .direct =>
        match direct a b with
        | .ok x => .ok x
        | .error .singular => iterate a b o o.maxIterations (start b.size) none
        | .error e => .error e := by
  unfold unbounded unboundedPolling
  cases o.method with
  | iterative => rfl
  | direct =>
    cases direct a b with
    | ok x => rfl
    | error e => cases e <;> rfl

section Running

variable (running : o.cancelledAfter = none)
include running

theorem steady_boundedPolling (k : Nat) : Polling.Steady (boundedPolling a b o k x) := by
  induction k generalizing x with
  | zero => exact Polling.steady_pure x
  | succ k inductionHypothesis =>
    exact (Polling.steady_poll running).bind fun _ =>
      (Polling.steady_lift _).bind fun _ => inductionHypothesis

theorem steady_iteratePolling (left : Nat) :
    Polling.Steady (iteratePolling a b o left x last) := by
  induction left generalizing x last with
  | zero => exact Polling.steady_throw _
  | succ left inductionHypothesis =>
    refine (Polling.steady_poll running).bind fun _ =>
      (Polling.steady_lift _).bind fun next => ?_
    dsimp only
    split
    · exact Polling.steady_pure next
    · exact inductionHypothesis

theorem bounded_succ (k : Nat) :
    bounded a b o (k + 1) x = step a b x >>= fun next => bounded a b o k next := by
  refine (run'_boundedPolling k 0).trans ?_
  rw [o.not_isCancelled running, if_neg Bool.false_ne_true]
  congr
  funext next
  exact steady_boundedPolling running k 1

theorem iterate_succ (left : Nat) :
    iterate a b o (left + 1) x last = step a b x >>= fun next =>
      if change next x < o.tolerance then .ok next
      else iterate a b o left next (some (change next x)) := by
  refine (run'_iteratePolling left 0).trans ?_
  rw [o.not_isCancelled running, if_neg Bool.false_ne_true]
  congr
  funext next
  split
  · rfl
  · exact steady_iteratePolling running left 1

theorem steady_unboundedPolling (a : Matrix α) (b : Array α) :
    Polling.Steady (unboundedPolling a b o) := by
  have byIteration : Polling.Steady (iteratePolling a b o o.maxIterations (start b.size) none) :=
    steady_iteratePolling running o.maxIterations
  unfold unboundedPolling
  cases o.method with
  | iterative => exact byIteration
  | direct =>
    cases direct a b with
    | ok x => exact Polling.steady_pure x
    | error e =>
      cases e with
      | singular => exact byIteration
      | _ => exact Polling.steady_throw _

end Running

end Reachability

/-! ## Stages -/

/-- What is left of a reachability problem after the graph was asked. -/
structure System (α : Type) where
  /-- The states of probability one. -/
  ones : List Nat
  /-- The states whose probability the equations determine. -/
  rest : List Nat
  matrix : Matrix α
  vector : Array α

namespace System

variable {α : Type} [Scalar α]

/-- Solves the equations, by steps if their number is given. -/
def solvePolling (system : System α) (steps : Option Nat) (o : Options α) :
    Polling α (Array α) :=
  match steps with
  | some k =>
    Reachability.boundedPolling system.matrix system.vector o k
      (Reachability.start system.vector.size)
  | none => Reachability.unboundedPolling system.matrix system.vector o

def solve (system : System α) (steps : Option Nat) (o : Options α) :
    Except (Error α) (Array α) :=
  (system.solvePolling steps o).value

theorem solve_none (system : System α) (o : Options α) :
    system.solve none o = Reachability.unbounded system.matrix system.vector o := rfl

theorem solve_some (system : System α) (k : Nat) (o : Options α) :
    system.solve (some k) o = Reachability.bounded system.matrix system.vector o k
      (Reachability.start system.vector.size) := rfl

/-- The values of all `n` states, from those of the open states. -/
def assemble (system : System α) (n : Nat) (x : Array α) : Except (Error α) (Array α) :=
  Reachability.scatter n
    (system.ones.map (·, 1) ++ system.rest.zip (x.toList.map Scalar.clampUnit))

end System

namespace Chain

variable {α : Type} [Scalar α]

/-- The equations for the states that the graph leaves open. -/
def system (c : Chain α) (goal forbidden : StateSet) (stepBounded : Bool) :
    Except (Error α) (System α) :=
  if c.size = 0 then .error .noStates
  else do
    c.checkStates goal
    c.checkStates forbidden
    let ⟨sure, unsettled⟩ ← c.partition goal forbidden stepBounded
    let ones := (goal.union sure).toList
    let rest := unsettled.toList
    let (a, b) ← c.equations ones.toArray rest.toArray
    return ⟨ones, rest, a, b⟩

theorem reachabilityPolling_eq (c : Chain α) (goal forbidden : StateSet) (steps : Option Nat)
    (o : Options α) :
    c.reachabilityPolling goal forbidden steps o = (do
      let system ← (c.system goal forbidden steps.isSome : Except (Error α) (System α))
      let x ← system.solvePolling steps o
      (system.assemble c.size x : Except (Error α) (Array α))) := by
  unfold reachabilityPolling system
  split
  · rfl
  · -- The set-up asks for nothing, so it can be lifted as a whole.
    simp only [liftM_bind, liftM_pure, bind_assoc, pure_bind]
    cases steps with
    | none => rfl
    | some k => rfl

theorem reachability_eq (c : Chain α) (goal forbidden : StateSet) (steps : Option Nat)
    (o : Options α) :
    c.reachability goal forbidden steps o = (do
      let system ← c.system goal forbidden steps.isSome
      let x ← system.solve steps o
      system.assemble c.size x) := by
  rw [reachability, reachabilityPolling_eq]
  refine (Polling.run'_bind_lift _ 0).trans ?_
  congr
  funext system
  refine (Polling.value_bind fun x => Polling.steady_lift _).trans ?_
  simp only [Polling.value_lift]
  rfl

theorem steady_reachabilityPolling {o : Options α} (running : o.cancelledAfter = none)
    (c : Chain α) (goal forbidden : StateSet) (steps : Option Nat) :
    Polling.Steady (c.reachabilityPolling goal forbidden steps o) := by
  rw [reachabilityPolling_eq]
  refine (Polling.steady_lift _).bind fun system => Polling.Steady.bind ?_
    fun x => Polling.steady_lift _
  cases steps with
  | none => exact Reachability.steady_unboundedPolling running _ _
  | some k => exact Reachability.steady_boundedPolling running k

variable {c : Chain α} {goal forbidden : StateSet}

theorem nonempty_of_system {stepBounded : Bool} {system : System α}
    (found : c.system goal forbidden stepBounded = .ok system) : 0 < c.size := by
  apply Nat.pos_of_ne_zero
  intro none
  rw [Chain.system, if_pos none] at found
  cases found

/-- An analysis that returns has been through all three stages. -/
theorem reachability_eq_ok {steps : Option Nat} {o : Options α} {v : Array α} :
    c.reachability goal forbidden steps o = .ok v ↔
      ∃ system x, c.system goal forbidden steps.isSome = .ok system ∧
        system.solve steps o = .ok x ∧ system.assemble c.size x = .ok v := by
  rw [reachability_eq, Outcome.bind_eq_ok]
  simp only [Outcome.bind_eq_ok, exists_and_left]

end Chain

end MarkovCheck

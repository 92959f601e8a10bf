import MarkovCheck.Formula.Evaluation
import MarkovCheck.Proofs.Reachability.System

/-!
# Larger allowances

The number of iterations allowed and the signal to stop decide whether an analysis ends, never what
it ends with. So a finished answer stays under every settings that ask for the same method and
tolerance, allow as many iterations or more, and are told to stop no earlier.

The ingredient is `iteratePolling_follows`: iteration returns at the first small change, wherever
the allowance ends. Everything else passes the settings on.

* `Options.Widens`: settings under which everything returns that returns under others
* `Chain.reachability_widens`, `Chain.evaluate_widens`: it does
* `Chain.evaluate_and_eq_ok` and its like: a value of a formula comes from values of its operands
-/

namespace MarkovCheck

/-- `wide` asks for what `o` asks for, allows at least as much and is told to stop no earlier. -/
structure Options.Widens {α : Type} (wide o : Options α) : Prop where
  method : wide.method = o.method
  tolerance : wide.tolerance = o.tolerance
  allowance : o.maxIterations ≤ wide.maxIterations
  later : ∀ polls, wide.isCancelled polls = true → o.isCancelled polls = true

theorem Options.widens_refl {α : Type} (o : Options α) : o.Widens o :=
  ⟨rfl, rfl, Nat.le_refl _, fun _ told => told⟩

/-- Without a signal, nothing is told to stop. -/
theorem Options.widens_of_running {α : Type} {wide o : Options α}
    (running : wide.cancelledAfter = none) (method : wide.method = o.method)
    (tolerance : wide.tolerance = o.tolerance)
    (allowance : o.maxIterations ≤ wide.maxIterations) : wide.Widens o := by
  refine ⟨method, tolerance, allowance, fun polls told => ?_⟩
  rw [wide.not_isCancelled running] at told
  cases told

namespace Reachability

variable {α : Type} [Scalar α] {o wide : Options α}

theorem boundedPolling_follows (widens : wide.Widens o) (a : Matrix α) (b : Array α) (k : Nat)
    (x : Array α) :
    Polling.Follows (boundedPolling a b o k x) (boundedPolling a b wide k x) := by
  induction k generalizing x with
  | zero => exact Polling.follows_pure x
  | succ k inductionHypothesis =>
    exact (Polling.follows_poll widens.later).bind fun _ =>
      (Polling.follows_lift _).bind inductionHypothesis

/-- Iteration that ends within its allowance ends with the same vector under wider settings. -/
theorem iteratePolling_follows (widens : wide.Widens o) (a : Matrix α) (b : Array α)
    {left more : Nat} (enough : left ≤ more) (x : Array α) (last last' : Option α) :
    Polling.Follows (iteratePolling a b o left x last) (iteratePolling a b wide more x last') := by
  induction left generalizing more x last last' with
  | zero => exact Polling.follows_throw _ _
  | succ left inductionHypothesis =>
    -- The wider loop has an iteration left wherever this one has.
    cases more with
    | zero => omega
    | succ more =>
      refine (Polling.follows_poll widens.later).bind fun _ =>
        (Polling.follows_lift _).bind fun next => ?_
      -- The test for a small change reads the tolerance alone, so both loops stop together.
      simp only [widens.tolerance]
      split
      · exact Polling.follows_pure next
      · exact inductionHypothesis (by omega) _ _ _

theorem unboundedPolling_follows (widens : wide.Widens o) (a : Matrix α) (b : Array α) :
    Polling.Follows (unboundedPolling a b o) (unboundedPolling a b wide) := by
  unfold unboundedPolling
  rw [widens.method]
  have byIteration := iteratePolling_follows widens a b widens.allowance (start b.size) none none
  cases o.method with
  | iterative => exact byIteration
  | direct =>
    cases direct a b with
    | ok x => exact Polling.follows_pure x
    | error e =>
      cases e with
      -- Only a singular system is handed on to iteration.
      | singular => exact byIteration
      | _ => exact Polling.follows_throw _ _

end Reachability

namespace Chain

variable {α : Type} [Scalar α] {o wide : Options α}

theorem reachabilityPolling_follows (widens : wide.Widens o) (c : Chain α)
    (goal forbidden : StateSet) (steps : Option Nat) :
    Polling.Follows (c.reachabilityPolling goal forbidden steps o)
      (c.reachabilityPolling goal forbidden steps wide) := by
  rw [reachabilityPolling_eq, reachabilityPolling_eq]
  refine (Polling.follows_lift _).bind fun system =>
    Polling.Follows.bind ?_ fun x => Polling.follows_lift _
  cases steps with
  | none => exact Reachability.unboundedPolling_follows widens _ _
  | some k => exact Reachability.boundedPolling_follows widens _ _ k _

theorem reachability_widens (widens : wide.Widens o) (c : Chain α) (goal forbidden : StateSet)
    (steps : Option Nat) {v : Array α} (returned : c.reachability goal forbidden steps o = .ok v) :
    c.reachability goal forbidden steps wide = .ok v :=
  (reachabilityPolling_follows widens c goal forbidden steps).value returned

theorem evaluatePolling_follows (widens : wide.Widens o) (c : Chain α) {k : Kind}
    (f : Formula α k) : Polling.Follows (c.evaluatePolling o f) (c.evaluatePolling wide f) := by
  induction f with
  | top | bot | atom => exact Polling.follows_pure _
  | and lhs rhs left right | or lhs rhs left right =>
    exact left.bind fun _ => right.bind fun _ => Polling.follows_pure _
  | not arg inner | prob bounds path inner => exact inner.bind fun _ => Polling.follows_pure _
  | next arg inner =>
    exact (Polling.follows_lift _).bind fun _ => inner.bind fun _ => Polling.follows_lift _
  | strongUntil lhs rhs bound left right =>
    exact (Polling.follows_lift _).bind fun _ => left.bind fun _ =>
      right.bind fun _ => reachabilityPolling_follows widens c _ _ _

/-- A formula that has a value under some settings has the same value under wider ones. -/
theorem evaluate_widens (widens : wide.Widens o) (c : Chain α) {k : Kind} (f : Formula α k)
    {v : Value α k} (returned : c.evaluate o f = .ok v) : c.evaluate wide f = .ok v :=
  (evaluatePolling_follows widens c f).value returned

/-- Without a signal it makes no difference how often was asked for it. -/
theorem steady_evaluatePolling (running : o.cancelledAfter = none) (c : Chain α) {k : Kind}
    (f : Formula α k) : Polling.Steady (c.evaluatePolling o f) := by
  induction f with
  | top | bot | atom => exact Polling.steady_pure _
  | and lhs rhs left right | or lhs rhs left right =>
    exact left.bind fun _ => right.bind fun _ => Polling.steady_pure _
  | not arg inner | prob bounds path inner => exact inner.bind fun _ => Polling.steady_pure _
  | next arg inner =>
    exact (Polling.steady_lift _).bind fun _ => inner.bind fun _ => Polling.steady_lift _
  | strongUntil lhs rhs bound left right =>
    exact (Polling.steady_lift _).bind fun _ => left.bind fun _ =>
      right.bind fun _ => steady_reachabilityPolling running c _ _ _

/-! ## Values of operands -/

section Operands

variable {c : Chain α} {lhs rhs arg : Formula α .state}

theorem evaluate_and_eq_ok {set : StateSet} (returned : c.evaluate o (.and lhs rhs) = .ok set) :
    ∃ l r, c.evaluate o lhs = .ok l ∧ c.evaluate o rhs = .ok r ∧ set = StateSet.inter l r :=
  Polling.value_both_eq_ok (evaluatePolling_follows o.widens_refl c rhs) returned

theorem evaluate_or_eq_ok {set : StateSet} (returned : c.evaluate o (.or lhs rhs) = .ok set) :
    ∃ l r, c.evaluate o lhs = .ok l ∧ c.evaluate o rhs = .ok r ∧ set = StateSet.union l r :=
  Polling.value_both_eq_ok (evaluatePolling_follows o.widens_refl c rhs) returned

theorem evaluate_not_eq_ok {set : StateSet} (returned : c.evaluate o (.not arg) = .ok set) :
    ∃ sat, c.evaluate o arg = .ok sat ∧ set = StateSet.complement sat c.size :=
  Polling.value_map_eq_ok returned

theorem evaluate_prob_eq_ok {bounds : Interval α} {path : Formula α .path} {set : StateSet}
    (returned : c.evaluate o (.prob bounds path) = .ok set) :
    ∃ v, c.evaluate o path = .ok v ∧ set = withProbabilityIn bounds v :=
  Polling.value_map_eq_ok returned

theorem evaluate_next_eq_ok {v : Array α} (returned : c.evaluate o (.next arg) = .ok v) :
    c.requireStates = .ok () ∧
      ∃ sat, c.evaluate o arg = .ok sat ∧ c.nextProbabilities sat = .ok v := by
  rw [evaluate, evaluatePolling, Polling.value_bind_lift] at returned
  obtain ⟨_, passed, rest⟩ := Outcome.bind_eq_ok.mp returned
  obtain ⟨sat, value, result⟩ := Polling.value_bind_eq_ok (fun sat => Polling.follows_lift _) rest
  exact ⟨passed, sat, value, (Polling.value_lift _).symm.trans result⟩

theorem evaluate_strongUntil_eq_ok {bound : Option Nat} {v : Array α}
    (returned : c.evaluate o (.strongUntil lhs rhs bound) = .ok v) :
    c.requireStates = .ok () ∧ ∃ l r, c.evaluate o lhs = .ok l ∧ c.evaluate o rhs = .ok r ∧
      c.untilProbabilities o l r bound = .ok v := by
  have follows (l r : StateSet) := reachabilityPolling_follows o.widens_refl c r
    (l.complement c.size) bound
  rw [evaluate, evaluatePolling, Polling.value_bind_lift] at returned
  obtain ⟨_, passed, rest⟩ := Outcome.bind_eq_ok.mp returned
  obtain ⟨l, leftValue, rest⟩ := Polling.value_bind_eq_ok (fun l =>
    (evaluatePolling_follows o.widens_refl c rhs).bind fun r => follows l r) rest
  obtain ⟨r, rightValue, result⟩ := Polling.value_bind_eq_ok (fun r => follows l r) rest
  exact ⟨passed, l, r, leftValue, rightValue, result⟩

end Operands

end Chain

end MarkovCheck

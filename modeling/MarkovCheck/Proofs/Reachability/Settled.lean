import MarkovCheck.Proofs.Reachability.Equations
import MarkovCheck.Proofs.Reachability.Safety

/-!
# Values that the graph settles

Where the graph of a chain decides the probability of reaching a goal, an analysis that returns at
all returns exactly one or exactly zero, whatever method it uses and whatever the arithmetic does:
these states never enter the equations, and the values of the others are put in other places.

* `Chain.HasPath`: there is a path into the goal that is not forbidden
* `Chain.WellFormed.reachability_eq_ofFn`: the vector that an analysis returns
* `Chain.reachability_settled`: the values that do not depend on the equations
-/

namespace MarkovCheck.Chain

variable {α : Type} {c : Chain α} {goal forbidden : StateSet}

/-- There is a path into the goal whose states before the end are not forbidden. -/
def HasPath (c : Chain α) (goal forbidden : StateSet) (s : Nat) : Prop :=
  ∃ t ∈ goal.members, c.Leads forbidden.membersᶜ s t

/-- Outside the goal, a path exists for the states that reach the goal without entering forbidden
states outside it. -/
theorem hasPath_iff {s : Nat} : c.HasPath goal forbidden s ↔
    goal.contains s = true ∨ c.Reaches goal (forbidden.diff goal) s := by
  have reaches : c.Reaches goal (forbidden.diff goal) s ↔ goal.contains s = false ∧
      ∃ t, goal.contains t = true ∧ c.Leads forbidden.membersᶜ s t := by
    apply reaches_iff
    intro u outside
    simp [outside]
  cases inGoal : goal.contains s with
  | true =>
    simp only [true_or, iff_true]
    exact ⟨s, inGoal, .refl⟩
  | false =>
    simp only [Bool.false_eq_true, false_or, reaches, inGoal, true_and]
    rfl

variable [Scalar α]

theorem Sorts.disjoint {stepBounded : Bool} {system : System α}
    (sorts : c.Sorts goal forbidden stepBounded system) : ∀ s ∈ system.rest, s ∉ system.ones := by
  intro s open_ one
  obtain ⟨reaches, unsettled⟩ := (sorts.mem_rest s).mp open_
  cases (sorts.mem_ones s).mp one with
  | inl inGoal => simp [reaches.outside] at inGoal
  | inr certain => exact unsettled certain

/-- An analysis that returns gives the states of probability one the value one, and zero to the
states that are not listed. -/
theorem WellFormed.reachability_eq_ofFn (made : c.WellFormed) (ownGoal : goal.Within c.size)
    (ownForbidden : forbidden.Within c.size) {steps : Option Nat} {o : Options α} {x : Array α}
    (returned : c.reachability goal forbidden steps o = .ok x) :
    ∃ (system : System α) (f : Nat → α), c.Sorts goal forbidden steps.isSome system ∧
      x = Array.ofFn fun s : Fin c.size =>
        if s.val ∈ system.ones then 1
        else if s.val ∈ system.rest then Scalar.clampUnit (f s) else 0 := by
  obtain ⟨system, y, setUp, solved, assembled⟩ := reachability_eq_ok.mp returned
  obtain ⟨_, setUp', sorts⟩ :=
    made.system_sorts (nonempty_of_system setUp) ownGoal ownForbidden steps.isSome
  cases setUp.symm.trans setUp'
  -- The equations have one solution for each open state, so the vector lists values of a function.
  have size : y.size = system.rest.length := by
    have ends := sorts.solvePolling_ends (o := o) steps 0
    rw [show (system.solvePolling steps o).run' 0 = .ok y from solved] at ends
    cases ends with
    | returned size => exact size
  obtain ⟨f, rfl⟩ := System.exists_values sorts.nodupRest size
  rw [System.assemble_map sorts.ownOnes sorts.ownRest sorts.disjoint] at assembled
  cases assembled
  exact ⟨system, f, sorts, rfl⟩

/-- Whatever an analysis returns has one value for each state: one in the goal, zero in the states
without a path into the goal that is not forbidden, and, without a step bound, one in the states
that outside the goal lead only to states with such a path whose rows do not fall short of one. The
backward search behind this finds the states outside the goal and the states to avoid that have a
path into the goal past the latter. -/
theorem reachability_settled (constructed : Constructed c) (ownGoal : goal.Within c.size)
    (ownForbidden : forbidden.Within c.size) :
    (∀ (steps : Option Nat) (o : Options α) (x : Array α),
      c.reachability goal forbidden steps o = .ok x →
        x.size = c.size ∧
        (∀ s ∈ goal.members, x[s]? = some 1) ∧
        (∀ s < c.size, ¬ c.HasPath goal forbidden s → x[s]? = some 0) ∧
        (steps = none → ∀ s < c.size, c.HasPath goal forbidden s →
          (∀ t ∉ goal.members, c.Leads goal.membersᶜ s t →
            c.HasPath goal forbidden t ∧ ¬ c.FallsShort t) →
          x[s]? = some 1)) ∧
      ∀ avoid : StateSet, ∃ set, c.canReach goal avoid = .ok set ∧ ∀ s, s ∈ set.members ↔
        s ∉ goal.members ∧ s ∉ avoid.members ∧ c.HasPath goal avoid s := by
  have made := constructed.wellFormed
  constructor
  · intro steps o x returned
    obtain ⟨system, f, sorts, rfl⟩ := made.reachability_eq_ofFn ownGoal ownForbidden returned
    have one {s : Nat} (listed : s ∈ system.ones) : (Array.ofFn fun s : Fin c.size =>
        if s.val ∈ system.ones then 1
        else if s.val ∈ system.rest then Scalar.clampUnit (f s) else 0)[s]? = some 1 := by
      simp [sorts.ownOnes s listed, listed]
    refine ⟨Array.size_ofFn, ?_, ?_, ?_⟩
    · intro s inGoal
      exact one ((sorts.mem_ones s).mpr (.inl inGoal))
    · intro s own cutOff
      -- Only states with a path are listed.
      rw [hasPath_iff, not_or] at cutOff
      have notOne : s ∉ system.ones := by
        rw [sorts.mem_ones, not_or]
        exact ⟨cutOff.1, fun certain => cutOff.2 certain.2.1⟩
      have notOpen : s ∉ system.rest := by
        rw [sorts.mem_rest]
        exact fun listed => cutOff.2 listed.1
      simp [own, notOne, notOpen]
    · intro unbounded s _ path confined
      apply one
      rw [sorts.mem_ones]
      refine (hasPath_iff.mp path).imp_right fun reaches => ⟨by simp [unbounded], reaches, ?_⟩
      intro t leads noGoal
      obtain ⟨pathThere, full⟩ := confined t (by simp [noGoal]) leads
      exact ⟨(hasPath_iff.mp pathThere).resolve_left (by simp [noGoal]), full⟩
  · intro avoid
    refine ⟨_, canReach_eq_ok ownGoal avoid, fun s => ?_⟩
    have reaches : c.Reaches goal avoid s ↔ goal.contains s = false ∧
        ∃ t, goal.contains t = true ∧ c.Leads avoid.membersᶜ s t := by
      apply reaches_iff
      simp
    rw [StateSet.mem_members, made.contains_backward]
    constructor
    · intro found
      exact ⟨by simp [found.outside], by simp [found.allowed], (reaches.mp found).2⟩
    · rintro ⟨outside, _, path⟩
      exact reaches.mpr ⟨by simpa using outside, path⟩

/-- Iteration leaves one to a state that surely gets to the goal, and zero to one that stays away
from it, under every tolerance; a third state goes to either of them. -/
theorem reachability_settled_fork :
    let c : Chain ℚ := ⟨0, 9, #[⟨0, "try", []⟩, ⟨1, "done", []⟩, ⟨2, "lost", []⟩, ⟨3, "fork", []⟩],
      [⟨0, 0, 1 / 2⟩, ⟨0, 1, 1 / 2⟩, ⟨2, 2, 1⟩, ⟨3, 0, 1 / 2⟩, ⟨3, 2, 1 / 2⟩], some 0, none⟩
    let goal := StateSet.ofList [1]
    Constructed c ∧
      c.reachability goal .empty none ⟨.iterative, 1 / 8, 2, none⟩ = .ok #[1, 1, 0, 1 / 2] ∧
      ∀ (o : Options ℚ) (x : Array ℚ), c.reachability goal .empty none o = .ok x →
        x[0]? = some 1 ∧ x[1]? = some 1 ∧ x[2]? = some 0 := by
  intro c goal
  have constructed : Constructed c := constructed_of_addAll (by with_unfolding_all rfl)
  refine ⟨constructed, by decide +kernel, ?_⟩
  intro o x returned
  have ownGoal : goal.Within c.size := StateSet.within_ofList [1] (by decide)
  obtain ⟨settled, _⟩ := reachability_settled constructed ownGoal (StateSet.within_empty _)
  obtain ⟨_, inGoal, cutOff, certain⟩ := settled none o x returned
  have done : 1 ∈ goal.members := show goal.contains 1 = true by decide +kernel
  have fromTry : ∀ transition ∈ c.transitions, transition.source = 0 →
      transition.target = 0 ∨ transition.target = 1 := by decide +kernel
  have fromLost : ∀ transition ∈ c.transitions, transition.source = 2 →
      transition.target = 2 := by decide +kernel
  have path : c.HasPath goal .empty 0 :=
    ⟨1, done, .single ⟨by simp, ⟨0, 1, 1 / 2⟩, by decide +kernel, rfl, rfl⟩⟩
  -- Outside the goal, the first state leads only to itself, and a lost state stays lost.
  have stays : ∀ t, c.Leads goal.membersᶜ 0 t → t = 0 ∨ t = 1 := by
    intro t leads
    induction leads with
    | refl => exact .inl rfl
    | tail _ step inductionHypothesis =>
      obtain ⟨outside, transition, member, rfl, rfl⟩ := step
      cases inductionHypothesis with
      | inl first => exact fromTry transition member first
      | inr second => exact absurd (second ▸ done) outside
  have away : ∀ t, c.Leads StateSet.empty.membersᶜ 2 t → t = 2 := by
    intro t leads
    induction leads with
    | refl => rfl
    | tail _ step inductionHypothesis =>
      obtain ⟨_, transition, member, rfl, rfl⟩ := step
      exact fromLost transition member inductionHypothesis
  refine ⟨certain rfl 0 (by decide) path ?_, inGoal 1 done, cutOff 2 (by decide) ?_⟩
  · intro t noGoal leads
    obtain rfl | rfl := stays t leads
    · exact ⟨path, by rw [FallsShort]; decide +kernel⟩
    · exact absurd done noGoal
  · rintro ⟨t, hit, leads⟩
    rw [away t leads] at hit
    exact absurd hit (show ¬ goal.contains 2 = true by decide +kernel)

end MarkovCheck.Chain

import MarkovCheck.Proofs.Reachability.LeastSolution
import MarkovCheck.Proofs.Reachability.PathWeight

/-!
# How accurate an analysis without a step bound is

Elimination is exact. Iteration ends when a step changes little, which is no bound on what further
steps would still change: where mass stays among the open states for long, it adds up. The change
that a step leaves is passed on by the steps after it, so the error is at most the last change times
the number of further steps that are expected to start from an open state.

* `Reachability.iterate_returned`: what iteration returns
* `System.IsStay`: the expected number of steps that start from open states
* `System.Poses.error_le`: the error that is left when a step changes little
* `Chain.reachability_accuracy`: the error of the default method
* `Chain.reachability_inaccurate`: a chain whose states are kept so long that the error is one half
-/

namespace MarkovCheck

/-! ## Where iteration ends -/

namespace Reachability

/-- Iteration returns the vector of some number of steps, the last of which changed little. -/
theorem iterate_returned {α : Type} [Scalar α] {a : Matrix α} {b : Array α} {o : Options α}
    (running : o.cancelledAfter = none) {left : Nat} {x y : Array α} {last : Option α}
    (returned : iterate a b o left x last = .ok y) :
    ∃ j < left, ∃ z, bounded a b o j x = .ok z ∧ step a b z = .ok y ∧
      change y z < o.tolerance := by
  induction left generalizing x last with
  | zero => cases returned
  | succ left inductionHypothesis =>
    rw [iterate_succ running] at returned
    obtain ⟨next, stepped, rest⟩ := Outcome.bind_eq_ok.mp returned
    split at rest
    · next small =>
      cases rest
      exact ⟨0, left.succ_pos, x, rfl, stepped, small⟩
    · obtain ⟨j, below, z, reached, stepped', small⟩ := inductionHypothesis rest
      refine ⟨j + 1, by omega, z, ?_, stepped', small⟩
      rw [bounded_succ running]
      exact Outcome.bind_eq_ok.mpr ⟨next, stepped, reached⟩

theorem le_foldl_larger (xs : List ℚ) (a : ℚ) :
    a ≤ xs.foldl Scalar.larger a ∧ ∀ x ∈ xs, x ≤ xs.foldl Scalar.larger a := by
  induction xs generalizing a with
  | nil => simp
  | cons x xs inductionHypothesis =>
    obtain ⟨start, rest⟩ := inductionHypothesis (Scalar.larger a x)
    rw [Scalar.larger_eq, max_le_iff] at start
    rw [List.foldl_cons, Scalar.larger_eq] at *
    refine ⟨start.1, ?_⟩
    intro y member
    cases List.mem_cons.mp member with
    | inl same => exact same ▸ start.2
    | inr there => exact rest y there

/-- The change between two functions is the largest difference in the listed places. -/
theorem change_map (places : List Nat) (f g : Nat → ℚ) :
    change (places.map f).toArray (places.map g).toArray =
      (places.map fun s => |f s - g s|).foldl Scalar.larger 0 := by
  simp [change, Scalar.abs_eq]

end Reachability

/-! ## The error that is left -/

namespace System

variable {system : System ℚ} {c : Chain ℚ} {goal avoid : StateSet}

/-- The function gives, for each open state, the expected number of steps that start from open
states, the one from this state included. -/
def IsStay (system : System ℚ) (c : Chain ℚ) (w : Nat → ℚ) : Prop :=
  ∀ s ∈ system.rest, w s = 1 + ∑ t ∈ system.rest.toFinset, c.probability s t * w t

/-- In the open states, the function is at most the solution `f`, satisfies the equations up to `δ`,
and differs from the solution by at most `δ` for each further step that is expected to start from an
open state. -/
structure Nears (system : System ℚ) (c : Chain ℚ) (f w : Nat → ℚ) (δ : ℚ) (g : Nat → ℚ) :
    Prop where
  nonneg : ∀ s ∈ system.rest, 0 ≤ g s
  below : ∀ s ∈ system.rest, g s ≤ f s
  residual : ∀ s ∈ system.rest, |g s - system.average c g s| ≤ δ
  error : ∀ s ∈ system.rest, f s - g s ≤ δ * (w s - 1)

namespace Poses

/-- Two averages differ by the average difference in the open states. -/
theorem average_sub (poses : system.Poses c goal avoid) (f g : Nat → ℚ) (s : Nat) :
    system.average c f s - system.average c g s =
      ∑ t ∈ system.rest.toFinset, c.probability s t * (f t - g t) := by
  simp only [poses.average_eq, mul_sub, Finset.sum_sub_distrib]
  ring

theorem average_mono (poses : system.Poses c goal avoid) (made : c.WellFormed) {f g : Nat → ℚ}
    (below : ∀ t ∈ system.rest, f t ≤ g t) (s : Nat) :
    system.average c f s ≤ system.average c g s := by
  rw [← sub_nonneg, poses.average_sub]
  refine Finset.sum_nonneg fun t member => mul_nonneg (made.probability_nonneg s t) ?_
  exact sub_nonneg.mpr (below t (List.mem_toFinset.mp member))

theorem stepped_le_succ (poses : system.Poses c goal avoid) (made : c.WellFormed) (k : Nat)
    {s : Nat} (open_ : s ∈ system.rest) : system.stepped c k s ≤ system.stepped c (k + 1) s := by
  induction k generalizing s with
  | zero =>
    rw [stepped, stepped, average]
    refine Finset.sum_nonneg fun t _ => mul_nonneg (made.probability_nonneg s t) ?_
    simp only [extend, stepped]
    split
    · exact zero_le_one
    · simp
  | succ k inductionHypothesis =>
    exact poses.average_mono made (fun t there => inductionHypothesis there) s

theorem stepped_nonneg (poses : system.Poses c goal avoid) (made : c.WellFormed) (k : Nat)
    {s : Nat} (open_ : s ∈ system.rest) : 0 ≤ system.stepped c k s :=
  monotone_nat_of_le_succ (f := fun k => system.stepped c k s)
    (fun k => poses.stepped_le_succ made k open_) k.zero_le

section Rows

variable (poses : system.Poses c goal avoid) (made : c.WellFormed)
  (rows : ∀ s < c.size, c.outflow s ≤ 1)
include poses made rows

theorem exists_isStay : ∃ w, system.IsStay c w := by
  obtain ⟨w, stays⟩ := (made.lossy rows poses.rest_reaches).exists_average fun _ => 1
  refine ⟨w, ?_⟩
  intro s open_
  rw [add_comm]
  exact stays s (List.mem_toFinset.mpr open_)

theorem one_le_stay {w : Nat → ℚ} (stay : system.IsStay c w) {s : Nat}
    (open_ : s ∈ system.rest) : 1 ≤ w s := by
  have nonneg {t : Nat} (there : t ∈ system.rest) : 0 ≤ w t := by
    refine neg_nonpos.mp ((made.lossy rows poses.rest_reaches).nonpos (z := fun t => -w t) ?_
      (List.mem_toFinset.mpr there))
    intro u member
    simp only [mul_neg, Finset.sum_neg_distrib]
    linarith [stay u (List.mem_toFinset.mp member)]
  rw [stay s open_]
  refine le_add_of_nonneg_right (Finset.sum_nonneg fun t member => ?_)
  exact mul_nonneg (made.probability_nonneg s t) (nonneg (List.mem_toFinset.mp member))

theorem stepped_le {f : Nat → ℚ} (averages : system.Averages c f)
    (k : Nat) {s : Nat} (open_ : s ∈ system.rest) : system.stepped c k s ≤ f s := by
  induction k generalizing s with
  | zero => exact poses.averages_nonneg made rows averages open_
  | succ k inductionHypothesis =>
    rw [averages s open_]
    exact poses.average_mono made (fun t there => inductionHypothesis there) s

/-- When a step changes no value by more than `δ`, the values before it are off by at most `δ` for
each step that is expected to start from an open state, and those after it by one `δ` less. -/
theorem error_le {f w : Nat → ℚ} (averages : system.Averages c f)
    (stay : system.IsStay c w) {k : Nat} {δ : ℚ}
    (small : ∀ s ∈ system.rest, system.stepped c (k + 1) s - system.stepped c k s ≤ δ) {s : Nat}
    (open_ : s ∈ system.rest) : f s - system.stepped c (k + 1) s ≤ δ * (w s - 1) := by
  -- What is missing after the step is the average of what was missing before.
  have missing {t : Nat} (there : t ∈ system.rest) : f t - system.stepped c (k + 1) t =
      ∑ u ∈ system.rest.toFinset, c.probability t u * (f u - system.stepped c k u) := by
    rw [averages t there, stepped, poses.average_sub]
  have further {t : Nat} (there : t ∈ system.rest) :
      ∑ u ∈ system.rest.toFinset, c.probability t u * (δ * w u) = δ * (w t - 1) := by
    rw [stay t there, add_sub_cancel_left, Finset.mul_sum]
    exact Finset.sum_congr rfl fun u _ => mul_left_comm _ _ _
  -- So by the maximum principle what was missing before is at most `δ` for each step.
  have before {t : Nat} (there : t ∈ system.rest) : f t - system.stepped c k t ≤ δ * w t := by
    refine sub_nonpos.mp ((made.lossy rows poses.rest_reaches).nonpos
      (z := fun t => f t - system.stepped c k t - δ * w t) ?_ (List.mem_toFinset.mpr there))
    intro u member
    have here : u ∈ system.rest := List.mem_toFinset.mp member
    simp only [mul_sub _ _ (δ * _), Finset.sum_sub_distrib]
    rw [further here, ← missing here]
    linarith [small u here]
  rw [missing open_, ← further open_]
  refine Finset.sum_le_sum fun t member => ?_
  exact mul_le_mul_of_nonneg_left (before (List.mem_toFinset.mp member))
    (made.probability_nonneg s t)

theorem nears_stepped {f w : Nat → ℚ} (averages : system.Averages c f)
    (stay : system.IsStay c w) {k : Nat} {δ : ℚ} (nonneg : 0 ≤ δ)
    (small : ∀ s ∈ system.rest, |system.stepped c (k + 1) s - system.stepped c k s| ≤ δ) :
    system.Nears c f w δ (system.stepped c (k + 1)) where
  nonneg := fun s open_ => poses.stepped_nonneg made (k + 1) open_
  below := fun s open_ => poses.stepped_le made rows averages (k + 1) open_
  error := fun s open_ => poses.error_le made rows averages stay
    (fun t there => (le_abs_self _).trans (small t there)) open_
  residual := by
    intro s open_
    -- A further step averages the changes of this one.
    have next : system.average c (system.stepped c (k + 1)) s - system.stepped c (k + 1) s ≤ δ := by
      rw [stepped, poses.average_sub]
      calc ∑ t ∈ system.rest.toFinset, c.probability s t *
              (system.stepped c (k + 1) t - system.stepped c k t)
          ≤ ∑ t ∈ system.rest.toFinset, c.probability s t * δ :=
            Finset.sum_le_sum fun t member => mul_le_mul_of_nonneg_left
              ((le_abs_self _).trans (small t (List.mem_toFinset.mp member)))
              (made.probability_nonneg s t)
        _ = (∑ t ∈ system.rest.toFinset, c.probability s t) * δ := by rw [Finset.sum_mul]
        _ ≤ δ := mul_le_of_le_one_left nonneg
            ((made.lossy rows poses.rest_reaches).rows s (List.mem_toFinset.mpr open_))
    have rises : system.stepped c (k + 1) s ≤ system.average c (system.stepped c (k + 1)) s :=
      poses.stepped_le_succ made (k + 1) open_
    rw [abs_sub_comm, abs_of_nonneg (sub_nonneg.mpr rises)]
    exact next

theorem nears_averages {f : Nat → ℚ} (averages : system.Averages c f)
    (w : Nat → ℚ) : system.Nears c f w 0 f where
  nonneg := fun s open_ => poses.averages_nonneg made rows averages open_
  below := fun s _ => le_refl (f s)
  residual := by
    intro s open_
    rw [← averages s open_, sub_self, abs_zero]
  error := by simp

theorem iterate_nears {f w : Nat → ℚ} (averages : system.Averages c f)
    (stay : system.IsStay c w) {o : Options ℚ} (running : o.cancelledAfter = none) {left : Nat}
    {last : Option ℚ} {y : Array ℚ}
    (returned : Reachability.iterate system.matrix system.vector o left
      (Reachability.start system.vector.size) last = .ok y) :
    ∃ g δ, y = (system.rest.map g).toArray ∧ δ < o.tolerance ∧ system.Nears c f w δ g := by
  obtain ⟨k, _, z, before, after, small⟩ := Reachability.iterate_returned running returned
  rw [poses.start_eq, poses.bounded_eq running] at before
  cases before
  rw [poses.step_eq] at after
  cases after
  rw [Reachability.change_map] at small
  obtain ⟨nonneg, differences⟩ := Reachability.le_foldl_larger _ 0
  refine ⟨_, _, rfl, small, poses.nears_stepped made rows averages stay nonneg ?_⟩
  intro s open_
  exact differences _ (List.mem_map.mpr ⟨s, open_, rfl⟩)

/-- What the default method returns: the solution itself, unless elimination reports singular
equations. -/
theorem solve_nears {f w : Nat → ℚ} (averages : system.Averages c f)
    (stay : system.IsStay c w) {o : Options ℚ} (byElimination : o.method = .direct)
    (running : o.cancelledAfter = none) (positive : 0 < o.tolerance) {y : Array ℚ}
    (returned : system.solve none o = .ok y) :
    ∃ g δ, y = (system.rest.map g).toArray ∧ δ < o.tolerance ∧ system.Nears c f w δ g ∧
      (Reachability.direct system.matrix system.vector ≠ .error .singular →
        ∀ s ∈ system.rest, g s = f s) := by
  rw [solve_none, Reachability.unbounded_eq, byElimination] at returned
  dsimp only at returned
  by_cases singular : Reachability.direct system.matrix system.vector = .error .singular
  · rw [singular] at returned
    obtain ⟨g, δ, rfl, small, nears⟩ :=
      poses.iterate_nears made rows averages stay running returned
    exact ⟨g, δ, rfl, small, nears, fun regular => absurd singular regular⟩
  · obtain ⟨g, averages', found⟩ := poses.exists_direct singular
    rw [found] at returned
    cases returned
    have same {s : Nat} (open_ : s ∈ system.rest) : f s = g s :=
      poses.averages_unique made rows averages averages' open_
    refine ⟨f, 0, ?_, positive, poses.nears_averages made rows averages w, fun _ _ _ => rfl⟩
    exact congrArg List.toArray (List.map_congr_left fun s open_ => (same open_).symm)

end Rows

end Poses

end System

/-! ## The analysis -/

namespace Chain

variable {c : Chain ℚ} {goal forbidden : StateSet}

/-- In a chain whose states give out all their mass or have no transitions, every loss shows. -/
theorem losesVisibly_of_stochastic
    (stochastic : ∀ s < c.size, (∃ t, c.Edge s t) → c.outflow s = 1) : c.LosesVisibly := by
  intro s own
  by_cases leaves : ∃ t, c.Edge s t
  · exact .inl (stochastic s own leaves)
  · have none : c.outflow s = 0 := Finset.sum_eq_zero fun t _ =>
      probability_of_not_edge fun edge => leaves ⟨t, edge⟩
    rw [none, defaultTolerance]
    exact .inr (by norm_num)

/-- What an analysis by elimination returns, where no more than all mass goes out. -/
theorem WellFormed.reachability_nears (made : c.WellFormed) (rows : ∀ s < c.size, c.outflow s ≤ 1)
    (ownGoal : goal.Within c.size) (ownForbidden : forbidden.Within c.size) {o : Options ℚ}
    (byElimination : o.method = .direct) (running : o.cancelledAfter = none)
    (positive : 0 < o.tolerance) {v : Array ℚ}
    (returned : c.reachability goal forbidden none o = .ok v) :
    ∃ (system : System ℚ) (f w g : Nat → ℚ) (δ : ℚ),
      c.system goal forbidden false = .ok system ∧
      system.Poses c goal (forbidden.diff goal) ∧ system.Averages c f ∧ system.IsStay c w ∧
      δ < o.tolerance ∧ system.Nears c f w δ g ∧
      (Reachability.direct system.matrix system.vector ≠ .error .singular →
        ∀ s ∈ system.rest, g s = f s) ∧
      v = Array.ofFn fun s : Fin c.size => system.extend g s := by
  obtain ⟨system, y, found, solved, assembled⟩ := reachability_eq_ok.mp returned
  obtain ⟨_, found', poses, _⟩ :=
    made.system_eq_ok (nonempty_of_system found) ownGoal ownForbidden false
  cases found.symm.trans found'
  obtain ⟨f, averages⟩ := poses.exists_averages made rows
  obtain ⟨w, stay⟩ := poses.exists_isStay made rows
  obtain ⟨g, δ, rfl, small, nears, unlessSingular⟩ :=
    poses.solve_nears made rows averages stay byElimination running positive solved
  -- Values between zero and the solution need no clamping.
  rw [poses.assemble_of_unit fun s open_ => ⟨nears.nonneg s open_,
    (nears.below s open_).trans (poses.averages_le_one made rows averages open_)⟩] at assembled
  cases assembled
  exact ⟨system, f, w, g, δ, found, poses, averages, stay, small, nears, unlessSingular, rfl⟩

/-- Let each state with transitions give out all its mass. What an analysis without a step bound
returns is the least solution, unless elimination reports singular equations. Even then the values
are not above the least solution, satisfy each equation to within the tolerance, and are exact where
the graph settles them; and in an open state they fall short of the least solution by at most the
tolerance times the number of further steps that are expected to start from open states. -/
theorem reachability_accuracy (constructed : Constructed c)
    (stochastic : ∀ s < c.size, (∃ t, c.Edge s t) → c.outflow s = 1)
    (ownGoal : goal.Within c.size) (ownForbidden : forbidden.Within c.size) {v : Array ℚ}
    (returned : c.reachability goal forbidden none Options.default = .ok v) :
    ∃ (system : System ℚ) (x w : Nat → ℚ), c.system goal forbidden false = .ok system ∧
      c.IsLeastSolution goal.members forbidden.members x ∧ system.IsStay c w ∧
      v.size = c.size ∧
      (Reachability.direct system.matrix system.vector ≠ .error .singular →
        ∀ s < c.size, v.getD s 0 = x s) ∧
      (∀ s < c.size, 0 ≤ v.getD s 0 ∧ v.getD s 0 ≤ x s) ∧
      (∀ s < c.size, s ∉ goal.members → s ∉ forbidden.members →
        |v.getD s 0 - ∑ t ∈ Finset.range c.size, c.probability s t * v.getD t 0| <
          (Options.default : Options ℚ).tolerance) ∧
      (∀ s < c.size, s ∉ system.rest → v.getD s 0 = x s) ∧
      ∀ s ∈ system.rest,
        x s - v.getD s 0 ≤ (Options.default : Options ℚ).tolerance * (w s - 1) := by
  have made := constructed.wellFormed
  have visible := losesVisibly_of_stochastic stochastic
  have rows : ∀ s < c.size, c.outflow s ≤ 1 := fun _ => visible.outflow_le
  have positive : 0 < (Options.default : Options ℚ).tolerance := by
    simp only [Options.default]
    norm_num
  obtain ⟨system, f, w, g, δ, found, poses, averages, stay, small, nears, unlessSingular, rfl⟩ :=
    made.reachability_nears rows ownGoal ownForbidden rfl rfl positive returned
  have tight := poses.tight visible
  have value {s : Nat} (own : s < c.size) :
      (Array.ofFn fun s : Fin c.size => system.extend g s).getD s 0 = system.extend g s := by
    simp [own]
  have settled {s : Nat} (closed : s ∉ system.rest) : system.extend g s = system.extend f s := by
    simp [System.extend, closed]
  refine ⟨system, system.extend f, w, found,
    poses.isLeastSolution_extend made rows tight averages, stay, Array.size_ofFn,
    ?exact, ?between, ?residual, ?graph, ?error⟩
  case exact =>
    intro regular s own
    rw [value own]
    by_cases open_ : s ∈ system.rest
    · rw [poses.extend_of_rest _ open_, poses.extend_of_rest _ open_, unlessSingular regular s open_]
    · exact settled open_
  case between =>
    intro s own
    rw [value own]
    by_cases open_ : s ∈ system.rest
    · rw [poses.extend_of_rest _ open_, poses.extend_of_rest _ open_]
      exact ⟨nears.nonneg s open_, nears.below s open_⟩
    · rw [settled open_]
      exact ⟨poses.extend_nonneg made rows averages s, le_refl _⟩
  case residual =>
    intro s own noGoal free
    have average : ∑ t ∈ Finset.range c.size, c.probability s t *
        (Array.ofFn fun s : Fin c.size => system.extend g s).getD t 0 = system.average c g s :=
      Finset.sum_congr rfl fun t member => by rw [value (Finset.mem_range.mp member)]
    rw [value own, average]
    by_cases open_ : s ∈ system.rest
    · rw [poses.extend_of_rest _ open_]
      exact (nears.residual s open_).trans_lt small
    · rw [StateSet.mem_members, Bool.not_eq_true] at noGoal free
      rw [← poses.extend_eq_average_of_settled tight g noGoal (by simp [free]) open_, sub_self,
        abs_zero]
      exact positive
  case graph =>
    intro s own closed
    rw [value own]
    exact settled closed
  case error =>
    intro s open_
    rw [value (poses.ownRest s open_), poses.extend_of_rest _ open_, poses.extend_of_rest _ open_]
    refine (nears.error s open_).trans (mul_le_mul_of_nonneg_right small.le ?_)
    exact sub_nonneg.mpr (poses.one_le_stay made rows stay open_)

/-- A state that is hardly ever left makes the equations count as singular. Another state that goes
straight to the goal or elsewhere does not suffer from it: no step from it starts from an open state
again, so its value is exact. -/
theorem reachability_accuracy_slow :
    let c : Chain ℚ := ⟨0, 9, #[⟨0, "wait", []⟩, ⟨1, "won", []⟩, ⟨2, "lost", []⟩, ⟨3, "play", []⟩],
      [⟨0, 0, 1 - 2 / 2 ^ 42⟩, ⟨0, 1, 1 / 2 ^ 42⟩, ⟨0, 2, 1 / 2 ^ 42⟩, ⟨3, 1, 1 / 2⟩,
        ⟨3, 2, 1 / 2⟩], some 0, none⟩
    let goal := StateSet.ofList [1]
    let v : Array ℚ := #[2 / 2 ^ 42 - 2 / 2 ^ 84, 1, 0, 1 / 2]
    Constructed c ∧ (∀ s < c.size, (∃ t, c.Edge s t) → c.outflow s = 1) ∧
      c.reachability goal .empty none Options.default = .ok v ∧
      (c.system goal .empty false >>= fun system =>
        Reachability.direct system.matrix system.vector) = .error .singular ∧
      ∃ x, c.IsLeastSolution goal.members StateSet.empty.members x ∧ v.getD 0 0 ≤ x 0 ∧
        x 3 = 1 / 2 := by
  intro c goal v
  have constructed : Constructed c := constructed_of_addAll (by with_unfolding_all rfl)
  have stochastic : ∀ s < c.size, (∃ t, c.Edge s t) → c.outflow s = 1 := by
    have full : ∀ transition ∈ c.transitions, c.outflow transition.source = 1 := by
      decide +kernel
    rintro s _ ⟨t, transition, member, rfl, _⟩
    exact full transition member
  have returned : c.reachability goal .empty none Options.default = .ok v := by decide +kernel
  obtain ⟨system, x, w, found, least, stay, _, _, between, _, _, error⟩ :=
    reachability_accuracy constructed stochastic (StateSet.within_ofList [1] (by decide))
      (StateSet.within_empty _) returned
  have rest : (c.system goal .empty false).map (·.rest) = .ok [0, 3] := by decide +kernel
  rw [found] at rest
  have rest : system.rest = [0, 3] := Except.ok.inj rest
  have play : 3 ∈ system.rest := by simp [rest]
  have toWait : c.probability 3 0 = 0 := by decide +kernel
  have toPlay : c.probability 3 3 = 0 := by decide +kernel
  have once : w 3 = 1 := by
    rw [stay 3 play, rest]
    simp [toWait, toPlay]
  have above : x 3 - 1 / 2 ≤ 0 := by simpa [once, v] using error 3 play
  have below : 1 / 2 ≤ x 3 := (between 3 (by decide)).2
  exact ⟨constructed, stochastic, returned, by decide +kernel, x, least, (between 0 (by decide)).2,
    by linarith⟩

/-- A state that is left once in `2 ^ 41` steps, and then for the goal every other time, gets to the
goal with probability one half. But the equations count as singular, and the first step of the
iteration changes less than the tolerance, so the analysis returns almost zero. -/
theorem reachability_inaccurate :
    let c : Chain ℚ := ⟨0, 6, #[⟨0, "wait", []⟩, ⟨1, "won", []⟩, ⟨2, "lost", []⟩],
      [⟨0, 0, 1 - 2 / 2 ^ 42⟩, ⟨0, 1, 1 / 2 ^ 42⟩, ⟨0, 2, 1 / 2 ^ 42⟩], some 0, none⟩
    let goal := StateSet.ofList [1]
    let v : Array ℚ := #[1 / 2 ^ 42, 1, 0]
    let x : Nat → ℚ := fun s => if s = 0 then 1 / 2 else if s = 1 then 1 else 0
    Constructed c ∧ (∀ s < c.size, (∃ t, c.Edge s t) → c.outflow s = 1) ∧
      c.reachability goal .empty none Options.default = .ok v ∧
      c.IsLeastSolution goal.members StateSet.empty.members x ∧
      ¬ |v.getD 0 0 - x 0| ≤ (Options.default : Options ℚ).tolerance := by
  intro c goal v x
  have constructed : Constructed c := constructed_of_addAll (by with_unfolding_all rfl)
  have stochastic : ∀ s < c.size, (∃ t, c.Edge s t) → c.outflow s = 1 := by
    have full : ∀ transition ∈ c.transitions, c.outflow transition.source = 1 := by
      decide +kernel
    rintro s _ ⟨t, transition, member, rfl, _⟩
    exact full transition member
  have goal_iff {s : Nat} : s ∈ goal.members ↔ s = 1 := by
    simp [goal, StateSet.contains_ofList]
  have again : c.probability 0 0 = 1 - 2 / 2 ^ 42 := by decide +kernel
  have won : c.probability 0 1 = 1 / 2 ^ 42 := by decide +kernel
  have lost : c.probability 0 2 = 1 / 2 ^ 42 := by decide +kernel
  have stuck : ∀ t < 3, c.probability 2 t = 0 := by decide +kernel
  have average (y : Nat → ℚ) (s : Nat) : ∑ t ∈ Finset.range c.size, c.probability s t * y t =
      c.probability s 0 * y 0 + c.probability s 1 * y 1 + c.probability s 2 * y 2 := by
    change ∑ t ∈ Finset.range 3, c.probability s t * y t = _
    rw [Finset.sum_range_succ, Finset.sum_range_succ, Finset.sum_range_one]
  have outside {s : Nat} (own : s < c.size) (noGoal : s ∉ goal.members) : s = 0 ∨ s = 2 := by
    have below : s < 3 := own
    rw [goal_iff] at noGoal
    omega
  have solution : c.IsSolution goal.members StateSet.empty.members x := by
    constructor
    · intro s _
      simp only [x]
      split
      · norm_num
      · split <;> norm_num
    · intro s _ inGoal
      simp [x, goal_iff.mp inGoal]
    · intro s _ blocked
      simp at blocked
    · intro s own noGoal _
      rw [average]
      obtain rfl | rfl := outside own noGoal
      · rw [again, won, lost]
        norm_num [x]
      · simp [x, stuck]
  have least : c.IsLeastSolution goal.members StateSet.empty.members x := by
    refine ⟨solution, ?_⟩
    intro y other s own
    have hit : y 1 = 1 := other.inGoal 1 (by decide) (goal_iff.mpr rfl)
    by_cases inGoal : s ∈ goal.members
    · rw [goal_iff.mp inGoal, hit]
      norm_num [x]
    · obtain rfl | rfl := outside own inGoal
      · have equation := other.average 0 own inGoal (by simp)
        rw [average, again, won, lost, hit] at equation
        have last : 0 ≤ y 2 := other.nonneg 2 (by decide)
        simp only [x, if_pos]
        linarith
      · simpa [x] using other.nonneg 2 own
  refine ⟨constructed, stochastic, by decide +kernel, least, ?_⟩
  norm_num [v, x, Options.default]

end Chain

end MarkovCheck

import Mathlib.Data.Nat.ModEq
import MarkovCheck.Proofs.Chain.Components
import MarkovCheck.Proofs.Chain.Levels

/-!
# Periods

The period of a state is computed from one labelling of its component with levels: a transition that
leads from level `a` to level `b` contributes the difference of `a + 1` and `b`. A number divides
all these differences exactly if, modulo this number, the length of every walk is the level of its
end; and that is so exactly if the number divides the lengths of all closed walks.

* `Chain.WellFormed.exists_level`: the states of a component get levels, below the number of states
* `Chain.WellFormed.dvd_cycleDivisor`: the differences of levels and the closed walks have the same
  divisors
* `Chain.WellFormed.periodByQueue_eq_ok`: searches with a queue lead to the same period
* `Chain.period_gcd`: the period is the greatest common divisor of the lengths of closed walks
-/

namespace MarkovCheck.Chain

variable {α : Type} {c : Chain α} {within : StateSet} {s t u : Nat}

/-! ## Levels of a component -/

/-- Every state of a component gets a level. -/
theorem WellFormed.exists_level [Scalar α] (made : c.WellFormed) (own : s < c.size)
    (linked : c.Linked s t) :
    ∃ j, levelOf (c.levels (c.componentOwn s) s) t = some j ∧ j < c.size := by
  have distances := made.distances_levels (c.componentOwn s) own
  obtain ⟨n, walk⟩ := linked.there
  -- The walk stays in the component, as its end does.
  induction walk with
  | nil => exact ⟨0, distances.start, by omega⟩
  | @snoc t u n walk edge inductionHypothesis =>
    obtain ⟨j, before, _⟩ := inductionHypothesis (linked.before walk edge)
    obtain ⟨i, _, here⟩ := distances.passedOn t j before u edge
      ((made.contains_componentOwn own).mpr linked)
    exact ⟨i, here, distances.lt_size here⟩

/-! ## Divisors -/

theorem dvd_levelGap {e a b : Nat} : e ∣ levelGap a b ↔ a + 1 ≡ b [MOD e] := by
  rcases Nat.le_total (a + 1) b with up | down
  · rw [levelGap, Nat.sub_eq_zero_of_le up, Nat.zero_add, Nat.modEq_iff_dvd' up]
  · rw [levelGap, Nat.sub_eq_zero_of_le down, Nat.add_zero, Nat.ModEq.comm,
      Nat.modEq_iff_dvd' down]

theorem dvd_foldl {β : Type} {e : Nat} {f : Nat → β → Nat} (good : β → Prop)
    (step : ∀ d x, e ∣ f d x ↔ e ∣ d ∧ good x) (xs : List β) (d : Nat) :
    e ∣ xs.foldl f d ↔ e ∣ d ∧ ∀ x ∈ xs, good x := by
  induction xs generalizing d with
  | nil => simp
  | cons x xs inductionHypothesis => simp [inductionHypothesis, step, and_assoc]

theorem gapDivisor_congr {within' : StateSet}
    (same : ∀ t, within.contains t = within'.contains t) (levels : Array (Option Nat)) :
    c.gapDivisor within levels = c.gapDivisor within' levels := by
  simp only [gapDivisor, same]

/-- A number divides the divisor of the gaps exactly if, modulo the number, every transition inside
the set leads one level up. -/
theorem dvd_gapDivisor {levels : Array (Option Nat)} {e : Nat} :
    e ∣ c.gapDivisor within levels ↔ ∀ t u, c.Edge t u → within.contains t = true →
      within.contains u = true → ∀ a b, levelOf levels t = some a → levelOf levels u = some b →
        a + 1 ≡ b [MOD e] := by
  let Up (t : Transition α) : Prop := ∀ a b, levelOf levels t.source = some a →
    levelOf levels t.target = some b → a + 1 ≡ b [MOD e]
  refine (dvd_foldl Up ?_ _ 0).trans ?_
  · intro d t
    simp only [Up]
    cases levelOf levels t.source with
    | none => simp
    | some a =>
      cases levelOf levels t.target with
      | none => simp
      | some b => simp [Nat.dvd_gcd_iff, dvd_levelGap]
  · simp only [dvd_zero, true_and, List.mem_filter, Bool.and_eq_true]
    constructor
    · rintro gaps t u ⟨transition, present, rfl, rfl⟩ source target
      exact gaps transition ⟨present, source, target⟩
    · rintro gaps transition ⟨present, source, target⟩
      exact gaps _ _ ⟨transition, present, rfl, rfl⟩ source target

/-- The divisor of the gaps in the component of a state. -/
def cycleDivisor (c : Chain α) (s : Nat) : Nat :=
  c.gapDivisor (c.componentOwn s) (c.levels (c.componentOwn s) s)

theorem periodOwn_eq (c : Chain α) (s : Nat) :
    c.periodOwn s = if c.cycleDivisor s = 0 then none else some (c.cycleDivisor s) := rfl

section Closed

variable [Scalar α] (made : c.WellFormed) (own : s < c.size)
include made own

/-- Modulo a divisor of the gaps, a walk is as long as the level of its end. -/
theorem WellFormed.walk_modEq {e j n : Nat} (divides : e ∣ c.cycleDivisor s)
    (walk : c.Walk s t n) (linked : c.Linked s t)
    (level : levelOf (c.levels (c.componentOwn s) s) t = some j) : n ≡ j [MOD e] := by
  induction walk generalizing j with
  | nil =>
    rw [(made.distances_levels _ own).start] at level
    cases level
    rfl
  | @snoc t u n walk edge inductionHypothesis =>
    have before := linked.before walk edge
    obtain ⟨i, here, _⟩ := made.exists_level own before
    have up := dvd_gapDivisor.mp divides t u edge ((made.contains_componentOwn own).mpr before)
      ((made.contains_componentOwn own).mpr linked) i j here level
    exact ((inductionHypothesis before here).add_right 1).trans up

/-- The gaps and the lengths of the closed walks have the same common divisors. -/
theorem WellFormed.dvd_cycleDivisor {e : Nat} :
    e ∣ c.cycleDivisor s ↔ ∀ n, c.Walk s s n → e ∣ n := by
  have distances := made.distances_levels (c.componentOwn s) own
  constructor
  · intro divides n walk
    exact Nat.modEq_zero_iff_dvd.mp
      (made.walk_modEq own divides walk (linked_refl s) distances.start)
  · intro closed
    rw [cycleDivisor, dvd_gapDivisor]
    intro t u edge _ target a b levelFrom levelTo
    -- Both a walk through the transition and one that avoids it are closed by the same way back.
    obtain ⟨m, back⟩ := ((made.contains_componentOwn own).mp target).back
    have through : e ∣ a + 1 + m := closed _ (((distances.walk levelFrom).snoc edge).append back)
    have around : e ∣ b + m := closed _ ((distances.walk levelTo).append back)
    have same : a + 1 + m ≡ b + m [MOD e] :=
      (Nat.modEq_zero_iff_dvd.mpr through).trans (Nat.modEq_zero_iff_dvd.mpr around).symm
    exact Nat.ModEq.add_right_cancel' m same

end Closed

/-- What divides the closed walks of a state divides those of a linked one. -/
theorem Linked.dvd_closed {e : Nat} (linked : c.Linked s t) (closed : ∀ n, c.Walk s s n → e ∣ n)
    {n : Nat} (walk : c.Walk t t n) : e ∣ n := by
  obtain ⟨m, there⟩ := linked.there
  obtain ⟨k, back⟩ := linked.back
  have short : e ∣ m + k := closed _ (there.append back)
  have long : e ∣ m + n + k := closed _ ((there.append walk).append back)
  have rest : m + n + k = n + (m + k) := by omega
  rw [rest] at long
  exact (Nat.dvd_add_left short).mp long

/-! ## The period -/

section Period

variable [Scalar α]

theorem WellFormed.cycleDivisor_eq_of_linked (made : c.WellFormed) (own : s < c.size)
    (linked : c.Linked s t) : c.cycleDivisor t = c.cycleDivisor s := by
  have own' : t < c.size := made.linked_own own linked
  apply Nat.dvd_antisymm
  · rw [made.dvd_cycleDivisor own]
    intro n
    exact linked.symm.dvd_closed ((made.dvd_cycleDivisor own').mp dvd_rfl)
  · rw [made.dvd_cycleDivisor own']
    intro n
    exact linked.dvd_closed ((made.dvd_cycleDivisor own).mp dvd_rfl)

theorem WellFormed.period_of_linked (made : c.WellFormed) (own : s < c.size)
    (linked : c.Linked s t) : c.period t = .ok (c.periodOwn s) := by
  have own' : t < c.size := made.linked_own own linked
  have same : c.periodOwn t = c.periodOwn s := by
    rw [periodOwn_eq, periodOwn_eq, made.cycleDivisor_eq_of_linked own linked]
  rw [period, ownState, if_pos own', same]

/-- Without a closed walk every number divides the gaps, zero included. -/
theorem WellFormed.periodOwn_eq_none (made : c.WellFormed) (own : s < c.size) :
    c.periodOwn s = none ↔ ¬ ∃ n, 1 ≤ n ∧ c.Walk s s n := by
  have zero : c.cycleDivisor s = 0 ↔ ∀ n, c.Walk s s n → n = 0 := by
    rw [← zero_dvd_iff, made.dvd_cycleDivisor own]
    simp only [zero_dvd_iff]
  have none : c.periodOwn s = none ↔ ∀ n, c.Walk s s n → n = 0 := by
    rw [← zero, periodOwn_eq]
    simp
  rw [none]
  constructor
  · rintro onlyEmpty ⟨n, positive, walk⟩
    have empty := onlyEmpty n walk
    omega
  · intro noClosed n walk
    by_contra positive
    exact noClosed ⟨n, Nat.pos_of_ne_zero positive, walk⟩

theorem WellFormed.periodOwn_eq_some (made : c.WellFormed) (own : s < c.size) {d : Nat}
    (period : c.periodOwn s = some d) (e : Nat) : e ∣ d ↔ ∀ n, c.Walk s s n → e ∣ n := by
  rw [← made.dvd_cycleDivisor own]
  rw [periodOwn_eq] at period
  split at period
  · cases period
  · cases period
    rfl

/-- Finding the component and the levels with queues makes no difference to the period. -/
theorem WellFormed.periodByQueue_eq_ok (made : c.WellFormed) (own : s < c.size) :
    c.periodByQueue s = .ok (c.periodOwn s) := by
  obtain ⟨set, found, _, linked⟩ := made.componentByQueue_eq_ok own
  have same (t : Nat) : set.contains t = (c.componentOwn s).contains t := by
    rw [Bool.eq_iff_iff, linked, made.contains_componentOwn own]
  apply Outcome.bind_eq_ok.mpr
  refine ⟨set, found, Outcome.bind_eq_ok.mpr ⟨_, made.levelsByQueue_eq_ok set own, ?_⟩⟩
  rw [levels_congr same, gapDivisor_congr same]
  rfl

/-- A state has no period exactly if no walk of positive length leads back to it. Otherwise its
period is the greatest common divisor of the lengths of its closed walks. All states of its
component have the same period; they all have a level, less than the number of states, so no
transition inside the component is left out of the divisor. Searches with a queue give the same
levels and the same period. -/
theorem period_gcd (constructed : Constructed c) (own : s < c.size) :
    ∃ (p : Option Nat) (component : StateSet), c.period s = .ok p ∧
      c.component s = .ok component ∧
      (p = none ↔ ¬ ∃ n, 1 ≤ n ∧ c.Walk s s n) ∧
      (∀ d, p = some d → (∀ n, c.Walk s s n → d ∣ n) ∧
        ∀ e, (∀ n, c.Walk s s n → e ∣ n) → e ∣ d) ∧
      (∀ t ∈ component.members, ∃ j < c.size, levelOf (c.levels component s) t = some j) ∧
      (∀ t, t ∈ component.members ↔ (∃ n, c.Walk s t n) ∧ ∃ n, c.Walk t s n) ∧
      (∀ t ∈ component.members, c.period t = .ok p) ∧
      c.levelsByQueue component s = .ok (c.levels component s) ∧ c.periodByQueue s = .ok p := by
  have made := constructed.wellFormed
  have linked (t : Nat) : t ∈ (c.componentOwn s).members ↔ c.Linked s t :=
    made.contains_componentOwn own
  refine ⟨c.periodOwn s, c.componentOwn s, if_pos own, if_pos own, made.periodOwn_eq_none own,
    ?gcd, ?levels, ?members, ?same, made.levelsByQueue_eq_ok _ own, made.periodByQueue_eq_ok own⟩
  case gcd =>
    intro d period
    have divisors := made.periodOwn_eq_some own period
    exact ⟨(divisors d).mp dvd_rfl, fun e => (divisors e).mpr⟩
  case levels =>
    intro t member
    obtain ⟨j, level, low⟩ := made.exists_level own ((linked t).mp member)
    exact ⟨j, low, level⟩
  case members =>
    intro t
    rw [linked]
    exact ⟨fun walks => ⟨walks.there, walks.back⟩, fun walks => ⟨walks.1, walks.2⟩⟩
  case same =>
    intro t member
    exact made.period_of_linked own ((linked t).mp member)

/-- A cycle of four states with a way back after two steps: the closed walks have even lengths. -/
theorem period_gcd_shortcut :
    let c : Chain ℚ := ⟨0, 9, #[⟨0, "a", []⟩, ⟨1, "b", []⟩, ⟨2, "c", []⟩, ⟨3, "d", []⟩],
      [⟨0, 1, 1⟩, ⟨1, 0, 1 / 2⟩, ⟨1, 2, 1 / 2⟩, ⟨2, 3, 1⟩, ⟨3, 0, 1⟩], some 0, none⟩
    Constructed c ∧ 0 < c.size ∧ c.period 0 = .ok (some 2) ∧ c.period 2 = .ok (some 2) ∧
      (∀ n, c.Walk 0 0 n → 2 ∣ n) ∧ ∀ e, (∀ n, c.Walk 0 0 n → e ∣ n) → e ∣ 2 := by
  intro c
  have constructed : Constructed c := constructed_of_addAll (by with_unfolding_all rfl)
  have own : 0 < c.size := by decide
  obtain ⟨p, component, found, linked, _, divisor, _, _, same, _, _⟩ := period_gcd constructed own
  have two : c.period 0 = .ok (some 2) := by decide +kernel
  cases two.symm.trans found
  have member : (c.component 0).map (·.contains 2) = .ok true := by decide +kernel
  rw [linked] at member
  exact ⟨constructed, own, two, same 2 (Except.ok.inj member), divisor 2 rfl⟩

end Period

end MarkovCheck.Chain

import Mathlib.NumberTheory.FrobeniusNumber
import MarkovCheck.Proofs.Chain.Period

/-!
# Ergodic chains

A chain is ergodic if its states are all linked and have period one. Then the lengths of the closed
walks of a state have no common divisor but one, and since they can be added, all large numbers are
among them; with walks to and from that state, one length serves all pairs of states. Conversely,
walks of one length between all pairs of states link the states, and prolonged by one transition
they leave no common divisor.

* `Chain.closedLengths`, `Chain.WellFormed.exists_closed`: the lengths of closed walks
* `Chain.Primitive`: walks of one length join all pairs of states
* `Chain.WellFormed.primitive_iff`: the period of any one state decides it
* `Chain.isErgodic_iff`: what the three questions about a chain answer
-/

namespace MarkovCheck.Chain

variable {α : Type} {c : Chain α} {s t : Nat}

/-! ## Closed walks -/

/-- The lengths of the walks from a state back to it. -/
def closedLengths (c : Chain α) (s : Nat) : AddSubmonoid Nat where
  carrier := { n | c.Walk s s n }
  zero_mem' := .nil
  add_mem' := Walk.append

theorem mem_closedLengths {n : Nat} : n ∈ c.closedLengths s ↔ c.Walk s s n := Iff.rfl

/-- A walk that is not empty ends with a transition. -/
theorem Walk.exists_last {n : Nat} (walk : c.Walk s t n) (positive : 1 ≤ n) :
    ∃ u, c.Edge u t := by
  cases walk with
  | nil => omega
  | snoc _ edge => exact ⟨_, edge⟩

/-- A state of period one has closed walks of all large lengths. -/
theorem WellFormed.exists_closed [Scalar α] (made : c.WellFormed) (own : s < c.size)
    (aperiodic : c.periodOwn s = some 1) : ∃ bound, ∀ n ≥ bound, c.Walk s s n := by
  let lengths : Set Nat := c.closedLengths s
  obtain ⟨bound, large⟩ := Nat.exists_mem_closure_of_ge lengths
  have unit : Nat.setGcd lengths ∣ 1 := by
    rw [made.periodOwn_eq_some own aperiodic]
    intro n walk
    exact Nat.setGcd_dvd_of_mem (mem_closedLengths.mpr walk)
  refine ⟨bound, ?_⟩
  intro n atLeast
  have sum := large n atLeast (unit.trans (one_dvd n))
  rwa [AddSubmonoid.closure_eq, mem_closedLengths] at sum

/-! ## Walks of one length -/

/-- The chain has states, and walks of one and the same positive length join all pairs of them. -/
structure Primitive (c : Chain α) : Prop where
  nonempty : 0 < c.size
  uniform : ∃ k, 1 ≤ k ∧ ∀ s < c.size, ∀ t < c.size, c.Walk s t k

section Uniform

variable [Scalar α]

theorem Primitive.isIrreducible (primitive : c.Primitive) (made : c.WellFormed) :
    c.isIrreducible = true := by
  obtain ⟨k, _, walks⟩ := primitive.uniform
  rw [made.isIrreducible_iff]
  exact ⟨primitive.nonempty, fun s own t own' => ⟨⟨k, walks s own t own'⟩, ⟨k, walks t own' s own⟩⟩⟩

theorem Primitive.periodOwn_eq (primitive : c.Primitive) (made : c.WellFormed) (own : s < c.size) :
    c.periodOwn s = some 1 := by
  obtain ⟨k, positive, walks⟩ := primitive.uniform
  have closed : c.Walk s s k := walks s own s own
  obtain ⟨u, edge⟩ := closed.exists_last positive
  have longer : c.Walk s s (k + 1) := (walks s own u (made.edge_own edge).1).snoc edge
  cases period : c.periodOwn s with
  | none =>
    rw [made.periodOwn_eq_none own] at period
    exact absurd ⟨k, positive, closed⟩ period
  | some d =>
    -- The period divides two consecutive numbers.
    have divides := (made.periodOwn_eq_some own period d).mp dvd_rfl
    have unit : d ∣ 1 := (Nat.dvd_add_right (divides k closed)).mp (divides (k + 1) longer)
    rw [Nat.dvd_one.mp unit]

omit [Scalar α] in
/-- If all states are linked and one has closed walks of all large lengths, then walks of one length
join all pairs of states: the way to that state, closed walks there, the way from it. -/
theorem primitive_of_closed (own : s < c.size)
    (linked : ∀ u < c.size, ∀ t < c.size, c.Linked u t) {bound : Nat}
    (closed : ∀ n ≥ bound, c.Walk s s n) : c.Primitive := by
  choose! there walkThere using fun u (own' : u < c.size) => (linked u own' s own).there
  choose! back walkBack using fun t (own' : t < c.size) => (linked s own t own').there
  let farthest := (Finset.range c.size).sup there
  let longest := (Finset.range c.size).sup back
  refine ⟨Nat.zero_lt_of_lt own, farthest + (bound + 1) + longest, by omega, ?_⟩
  intro u ownFrom t ownTo
  have atMost : there u ≤ farthest := Finset.le_sup (Finset.mem_range.mpr ownFrom)
  have atMost' : back t ≤ longest := Finset.le_sup (Finset.mem_range.mpr ownTo)
  -- The closed walks take up what the two ways leave over.
  let rest := (farthest - there u) + (bound + 1) + (longest - back t)
  have total : there u + rest + back t = farthest + (bound + 1) + longest := by omega
  rw [← total]
  exact ((walkThere u ownFrom).append (closed rest (by omega))).append (walkBack t ownTo)

/-- Whether walks of one length join all states can be told from the period of any one of them. -/
theorem WellFormed.primitive_iff (made : c.WellFormed) (own : s < c.size) :
    c.Primitive ↔ c.isIrreducible = true ∧ c.periodOwn s = some 1 := by
  constructor
  · intro primitive
    exact ⟨primitive.isIrreducible made, primitive.periodOwn_eq made own⟩
  · intro conditions
    obtain ⟨irreducible, aperiodic⟩ := conditions
    obtain ⟨bound, closed⟩ := made.exists_closed own aperiodic
    exact primitive_of_closed own (made.isIrreducible_iff.mp irreducible).2 closed

end Uniform

/-! ## The initial state does not matter -/

theorem isAperiodic_eq_isErgodic (c : Chain α) : c.isAperiodic = c.isErgodic := by
  rw [isErgodic, isAperiodic]
  cases c.initial with
  | none => simp
  | some s => simp

variable [Scalar α]

theorem WellFormed.isAperiodic_iff (made : c.WellFormed) (started : c.Started) :
    c.isAperiodic = true ↔ c.Primitive := by
  rw [isAperiodic]
  cases chosen : c.initial with
  | none =>
    have empty : ¬ 0 < c.size := by simp [← started.isSome_iff, chosen]
    simp only [Bool.false_eq_true, false_iff]
    intro primitive
    exact empty primitive.nonempty
  | some s => simp [made.primitive_iff (started.own s chosen)]

/-- A chain is ergodic exactly if it has states and walks of one positive length join all pairs of
them. To be aperiodic is the same, and neither depends on the choice of the initial state. -/
theorem isErgodic_iff (constructed : Constructed c) :
    (c.isErgodic = true ↔
      0 < c.size ∧ ∃ k, 1 ≤ k ∧ ∀ s < c.size, ∀ t < c.size, c.Walk s t k) ∧
    c.isAperiodic = c.isErgodic ∧
    ∀ s < c.size, ∃ c', c.setInitial s = .ok c' ∧ c'.initial = some s ∧
      c'.isErgodic = c.isErgodic ∧ c'.isAperiodic = c.isAperiodic := by
  have made := constructed.wellFormed
  have aperiodic := made.isAperiodic_iff constructed.started
  refine ⟨?_, c.isAperiodic_eq_isErgodic, ?_⟩
  · rw [← c.isAperiodic_eq_isErgodic, aperiodic]
    exact ⟨fun primitive => ⟨primitive.nonempty, primitive.uniform⟩,
      fun walks => ⟨walks.1, walks.2⟩⟩
  · intro s own
    let moved : Chain α := { c with initial := some s }
    have chosen : c.setInitial s = .ok moved := by simp [setInitial, checkState, own, moved]
    -- The new chain asks for the period of another state.
    have same : moved.isAperiodic = c.isAperiodic := by
      have asked : moved.isAperiodic = (c.isIrreducible && decide (c.periodOwn s = some 1)) := rfl
      rw [asked, Bool.eq_iff_iff, aperiodic, made.primitive_iff own]
      simp
    refine ⟨moved, chosen, rfl, ?_, same⟩
    rw [← moved.isAperiodic_eq_isErgodic, same, c.isAperiodic_eq_isErgodic]

/-- A cycle of three states with a way back after two steps: closed walks of lengths two and three
make all large lengths, whichever state is the initial one. -/
theorem isErgodic_iff_shortcut :
    let c : Chain ℚ := ⟨0, 7, #[⟨0, "a", []⟩, ⟨1, "b", []⟩, ⟨2, "c", []⟩],
      [⟨0, 1, 1⟩, ⟨1, 0, 1 / 2⟩, ⟨1, 2, 1 / 2⟩, ⟨2, 0, 1⟩], some 0, none⟩
    Constructed c ∧ c.isErgodic = true ∧
      (∃ k, 1 ≤ k ∧ ∀ s < 3, ∀ t < 3, c.Walk s t k) ∧
      ∃ c', c.setInitial 2 = .ok c' ∧ c'.initial = some 2 ∧ c'.isErgodic = true := by
  intro c
  have constructed : Constructed c := constructed_of_addAll (by with_unfolding_all rfl)
  have ergodic : c.isErgodic = true := by decide +kernel
  obtain ⟨primitive, _, moves⟩ := isErgodic_iff constructed
  obtain ⟨c', chosen, initial, same, _⟩ := moves 2 (by decide)
  exact ⟨constructed, ergodic, (primitive.mp ergodic).2, c', chosen, initial, same.trans ergodic⟩

end MarkovCheck.Chain

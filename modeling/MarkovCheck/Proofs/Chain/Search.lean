import MarkovCheck.Proofs.Chain.WellFormed
import MarkovCheck.Proofs.StateSet.Members
import MarkovCheck.Chain.Graph

/-!
# Searches in the graph of a chain

A search repeats a round that only adds own states. It ends when a round adds nothing or after as
many rounds as there are states, and in both cases nothing is left to add: each round before made
the set larger. So the backward search finds exactly the states with a path into the goal.

* `Chain.IsRound`, `Chain.saturate_closed`: what a search ends with
* `Chain.Reaches`, `Chain.contains_backward`: the states that the backward search finds
* `Chain.Leads`, `Chain.reaches_iff`: reaching the goal as a path through given states
-/

namespace MarkovCheck.Chain

/-! ## Saturation -/

/-- The round adds numbers below `n` to a set and keeps count of them. -/
structure IsRound (n : Nat) (round : StateSet → StateSet) : Prop where
  grows : ∀ s x, s.contains x = true → (round s).contains x = true
  within : ∀ s : StateSet, s.Within n → (round s).Within n
  counted : ∀ s : StateSet, s.Counted → (round s).Counted

theorem saturate_induction {round : StateSet → StateSet} {keeps : StateSet → Prop}
    (kept : ∀ s, keeps s → keeps (round s)) (fuel : Nat) {s : StateSet} (start : keeps s) :
    keeps (saturate round fuel s) := by
  induction fuel generalizing s with
  | zero => exact start
  | succ fuel inductionHypothesis =>
    rw [saturate]
    split
    · exact start
    · exact inductionHypothesis (kept s start)

variable {n : Nat} {round : StateSet → StateSet}

theorem IsRound.subset (isRound : IsRound n round) (s : StateSet) :
    s.toFinset ⊆ (round s).toFinset := by
  intro x member
  exact StateSet.mem_toFinset.mpr (isRound.grows s x (StateSet.mem_toFinset.mp member))

/-- After a search with enough rounds, a further round adds nothing. -/
theorem saturate_closed (isRound : IsRound n round) {fuel : Nat} {s : StateSet}
    (within : s.Within n) (counted : s.Counted) (enough : n ≤ fuel + s.size) {x : Nat}
    (added : (round (saturate round fuel s)).contains x = true) :
    (saturate round fuel s).contains x = true := by
  induction fuel generalizing s with
  | zero =>
    -- The set has all numbers below `n`.
    have full : s.toFinset = Finset.range n := by
      apply Finset.eq_of_subset_of_card_le within.subset_range
      rw [Finset.card_range, ← counted]
      omega
    have below : x ∈ Finset.range n := Finset.mem_range.mpr (isRound.within s within x added)
    rw [← full] at below
    exact StateSet.mem_toFinset.mp below
  | succ fuel inductionHypothesis =>
    rw [saturate] at added ⊢
    split at added
    · next same =>
      rw [if_pos same]
      -- A round that keeps the size keeps the set.
      have equal : s.toFinset = (round s).toFinset := by
        apply Finset.eq_of_subset_of_card_le (isRound.subset s)
        rw [← counted, ← isRound.counted s counted, same]
      rw [← StateSet.mem_toFinset, equal]
      exact StateSet.mem_toFinset.mpr added
    · next different =>
      rw [if_neg different]
      -- A round that changes the size makes up for the fuel it takes.
      have larger : s.size ≤ (round s).size := by
        rw [counted, isRound.counted s counted]
        exact Finset.card_le_card (isRound.subset s)
      exact inductionHypothesis (isRound.within s within) (isRound.counted s counted)
        (by omega) added

/-! ## The backward search -/

section Backward

variable {α : Type} {c : Chain α} {goal avoid : StateSet}

/-- There is a path from `s` into the goal whose states before the end are neither goal nor to
avoid. -/
inductive Reaches (c : Chain α) (goal avoid : StateSet) : Nat → Prop where
  | arrives {s t : Nat} (outside : goal.contains s = false) (allowed : avoid.contains s = false)
      (edge : c.Edge s t) (hit : goal.contains t = true) : Reaches c goal avoid s
  | passes {s t : Nat} (outside : goal.contains s = false) (allowed : avoid.contains s = false)
      (edge : c.Edge s t) (further : Reaches c goal avoid t) : Reaches c goal avoid s

theorem Reaches.outside {s : Nat} (reaches : c.Reaches goal avoid s) :
    goal.contains s = false := by
  cases reaches with
  | arrives outside | passes outside => exact outside

theorem Reaches.allowed {s : Nat} (reaches : c.Reaches goal avoid s) :
    avoid.contains s = false := by
  cases reaches with
  | arrives _ allowed | passes _ allowed => exact allowed

/-- A state that reaches the goal while avoiding forbidden states outside the goal is not
forbidden. -/
theorem Reaches.free {forbidden : StateSet} {s : Nat}
    (reaches : c.Reaches goal (forbidden.diff goal) s) : forbidden.contains s = false := by
  simpa [reaches.outside] using reaches.allowed

/-- A state that is cut off from the goal leads only to such states. -/
theorem not_reaches_next {s t : Nat} (cutOff : ¬ c.Reaches goal avoid s)
    (outside : goal.contains s = false) (allowed : avoid.contains s = false) (edge : c.Edge s t) :
    goal.contains t = false ∧ ¬ c.Reaches goal avoid t := by
  constructor
  · rw [← Bool.not_eq_true]
    intro hit
    exact cutOff (.arrives outside allowed edge hit)
  · intro further
    exact cutOff (.passes outside allowed edge further)

/-- There is a path from one state to another whose states before the end are among the given
ones. -/
def Leads (c : Chain α) (through : Set Nat) : Nat → Nat → Prop :=
  Relation.ReflTransGen fun s t => s ∈ through ∧ c.Edge s t

theorem Reaches.exists_leads {through : Set Nat}
    (wide : ∀ u, goal.contains u = false → avoid.contains u = false → u ∈ through) {s : Nat}
    (reaches : c.Reaches goal avoid s) :
    ∃ t, goal.contains t = true ∧ c.Leads through s t := by
  induction reaches with
  | arrives outside allowed edge hit =>
    exact ⟨_, hit, .single ⟨wide _ outside allowed, edge⟩⟩
  | passes outside allowed edge _ inductionHypothesis =>
    obtain ⟨t, hit, leads⟩ := inductionHypothesis
    exact ⟨t, hit, leads.head ⟨wide _ outside allowed, edge⟩⟩

/-- A path into the goal that starts outside reaches the goal, whatever goal states it passes. -/
theorem Leads.reaches {through : Set Nat}
    (narrow : ∀ u ∈ through, goal.contains u = false → avoid.contains u = false) {s t : Nat}
    (leads : c.Leads through s t) (hit : goal.contains t = true)
    (outside : goal.contains s = false) : c.Reaches goal avoid s := by
  induction leads using Relation.ReflTransGen.head_induction_on with
  | refl =>
    rw [outside] at hit
    cases hit
  | @head s u step _ inductionHypothesis =>
    obtain ⟨among, edge⟩ := step
    have allowed : avoid.contains s = false := narrow s among outside
    cases inGoal : goal.contains u with
    | true => exact .arrives outside allowed edge inGoal
    | false => exact .passes outside allowed edge (inductionHypothesis inGoal)

/-- The states that reach the goal are those outside that have a path into it, where the path may go
through the states that are not to avoid; in which goal states it may go through does not matter. -/
theorem reaches_iff {through : Set Nat}
    (same : ∀ u, goal.contains u = false → (u ∈ through ↔ avoid.contains u = false)) {s : Nat} :
    c.Reaches goal avoid s ↔
      goal.contains s = false ∧ ∃ t, goal.contains t = true ∧ c.Leads through s t := by
  constructor
  · intro reaches
    exact ⟨reaches.outside,
      reaches.exists_leads fun u outside allowed => (same u outside).mpr allowed⟩
  · rintro ⟨outside, t, hit, leads⟩
    exact leads.reaches (fun u among noGoal => (same u noGoal).mp among) hit outside

theorem contains_backwardRound {marked : StateSet} {s : Nat} :
    (c.backwardRound goal avoid marked).contains s = true ↔ marked.contains s = true ∨
      goal.contains s = false ∧ avoid.contains s = false ∧
        ∃ t, c.Edge s t ∧ (goal.contains t = true ∨ marked.contains t = true) := by
  rw [backwardRound, StateSet.contains_extend, Bool.or_eq_true, or_comm, List.contains_iff_mem,
    List.mem_map]
  apply or_congr_right
  constructor
  · rintro ⟨transition, member, rfl⟩
    obtain ⟨present, conditions⟩ := List.mem_filter.mp member
    simp only [Bool.and_eq_true, Bool.or_eq_true, Bool.not_eq_true', Bool.or_eq_false_iff]
      at conditions
    exact ⟨conditions.2.1, conditions.2.2, _, ⟨transition, present, rfl, rfl⟩, conditions.1⟩
  · rintro ⟨outside, allowed, t, ⟨transition, present, rfl, rfl⟩, onward⟩
    refine ⟨transition, List.mem_filter.mpr ⟨present, ?_⟩, rfl⟩
    simp [outside, allowed, onward]

theorem canReach_eq_ok (own : goal.Within c.size) (avoid : StateSet) :
    c.canReach goal avoid = .ok (c.backward goal avoid) := by
  simp only [canReach]
  rw [if_pos]
  apply List.all_eq_true.mpr
  intro s member
  exact decide_eq_true (own s ((StateSet.mem_toList goal s).mp member))

variable [Scalar α]

theorem WellFormed.leads_own (made : c.WellFormed) {through : Set Nat} {s t : Nat}
    (leads : c.Leads through s t) (own : s < c.size) : t < c.size := by
  induction leads with
  | refl => exact own
  | tail _ step => exact (made.edge_own step.2).2

theorem WellFormed.isRound_backwardRound (made : c.WellFormed) (goal avoid : StateSet) :
    IsRound c.size (c.backwardRound goal avoid) where
  grows := fun s x member => contains_backwardRound.mpr (.inl member)
  within := by
    intro s within x member
    obtain old | ⟨_, _, t, edge, _⟩ := contains_backwardRound.mp member
    · exact within x old
    · exact (made.edge_own edge).1
  counted := fun s counted => counted.extend _

theorem WellFormed.within_backward (made : c.WellFormed) (goal avoid : StateSet) :
    (c.backward goal avoid).Within c.size := by
  apply saturate_induction (made.isRound_backwardRound goal avoid).within c.size
  intro x member
  simp at member

/-- The backward search finds the states with a path into the goal. -/
theorem WellFormed.contains_backward (made : c.WellFormed) {s : Nat} :
    (c.backward goal avoid).contains s = true ↔ c.Reaches goal avoid s := by
  constructor
  · -- A round marks only states that reach the goal, if it starts from such states.
    let Sound (marked : StateSet) : Prop := ∀ x, marked.contains x = true → c.Reaches goal avoid x
    have kept : ∀ marked, Sound marked → Sound (c.backwardRound goal avoid marked) := by
      intro marked sound x member
      obtain old | ⟨outside, allowed, t, edge, hit | before⟩ := contains_backwardRound.mp member
      · exact sound x old
      · exact .arrives outside allowed edge hit
      · exact .passes outside allowed edge (sound t before)
    have start : Sound (StateSet.withCapacity c.size) := by
      intro x member
      simp at member
    exact saturate_induction kept c.size start s
  · -- Conversely a path is followed backwards: each of its states is marked by a further round.
    have closed : ∀ x, (c.backwardRound goal avoid (c.backward goal avoid)).contains x = true →
        (c.backward goal avoid).contains x = true := fun x =>
      saturate_closed (made.isRound_backwardRound goal avoid)
        (fun x member => by simp at member) (StateSet.counted_withCapacity c.size) (by omega)
    intro reaches
    induction reaches with
    | arrives outside allowed edge hit =>
      exact closed _ (contains_backwardRound.mpr (.inr ⟨outside, allowed, _, edge, .inl hit⟩))
    | passes outside allowed edge _ inductionHypothesis =>
      exact closed _ (contains_backwardRound.mpr
        (.inr ⟨outside, allowed, _, edge, .inr inductionHypothesis⟩))

end Backward

end MarkovCheck.Chain

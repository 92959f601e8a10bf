import MarkovCheck.Proofs.Chain.OneStep
import MarkovCheck.Proofs.Formula.Allowance
import MarkovCheck.Proofs.Formula.Safety
import MarkovCheck.Proofs.Reachability.LeastSolution
import MarkovCheck.Proofs.Reachability.PathWeight

/-!
# Evaluation computes the meaning of formulas

A state formula means the set of states that satisfy it. A path formula means a probability in each
state: the mass of one step for next, the weight of paths for until with a step bound, and an entry
of the least solution of the until equations without one. Evaluation by elimination computes these
meanings exactly, as long as no elimination gives up.

* `Chain.meaning`: the meaning of a formula, by recursion on the formula
* `Chain.Regular`: no elimination that evaluation comes to reports a singular system
* `Chain.evaluate_meaning`: evaluation returns the states that satisfy the formula
-/

namespace MarkovCheck

/-- What a formula of a given kind means: the states that satisfy it, or which number is its
probability in which state. -/
@[reducible] def Meaning : Kind → Type
  | .state => Set Nat
  | .path => Nat → ℚ → Prop

namespace Chain

def others (c : Chain ℚ) (set : Set Nat) : Set Nat := {s | s < c.size ∧ s ∉ set}

/-- The meaning of a formula. -/
noncomputable def meaning (c : Chain ℚ) : {k : Kind} → Formula ℚ k → Meaning k
  | _, .top => {s | s < c.size}
  | _, .bot => ∅
  | _, .atom label => {s | ∃ state, c.state? s = some state ∧ label ∈ state.labels}
  | _, .and lhs rhs => c.meaning lhs ∩ c.meaning rhs
  | _, .or lhs rhs => c.meaning lhs ∪ c.meaning rhs
  | _, .not arg => c.others (c.meaning arg)
  | _, .prob bounds path =>
    {s | s < c.size ∧ ∃ p, c.meaning path s p ∧ bounds.lower ≤ p ∧ p ≤ bounds.upper}
  | _, .next arg => fun s p => p = c.mass s (c.meaning arg)
  | _, .strongUntil lhs rhs (some k) => fun s p =>
    p = c.pathWeight (c.meaning rhs) (c.others (c.meaning lhs)) k s
  | _, .strongUntil lhs rhs none => fun s p =>
    ∃ x, c.IsLeastSolution (c.meaning rhs) (c.others (c.meaning lhs)) x ∧ p = x s

/-- No elimination that evaluation of the formula comes to reports a singular system. -/
def Regular (c : Chain ℚ) (o : Options ℚ) : {k : Kind} → Formula ℚ k → Prop
  | _, .top | _, .bot | _, .atom _ => True
  | _, .and lhs rhs | _, .or lhs rhs => c.Regular o lhs ∧ c.Regular o rhs
  | _, .not arg => c.Regular o arg
  | _, .prob _ path => c.Regular o path
  | _, .next arg => c.Regular o arg
  | _, .strongUntil lhs rhs bound => c.Regular o lhs ∧ c.Regular o rhs ∧
    (bound = none → ∀ l r system, c.evaluate o lhs = .ok l → c.evaluate o rhs = .ok r →
      c.system r (l.complement c.size) false = .ok system →
        Reachability.direct system.matrix system.vector ≠ .error .singular)

/-- A value is the meaning of a formula: a set of own states with the right members, or a vector
with the one right number for each state. -/
def Describes (c : Chain ℚ) : {k : Kind} → Value ℚ k → Meaning k → Prop
  | .state, set, meant => set.Within c.size ∧ set.members = meant
  | .path, v, meant => v.size = c.size ∧ ∀ s < c.size, ∀ p, meant s p ↔ p = v.getD s 0

variable {c : Chain ℚ}

/-! ## States -/

theorem contains_withProbabilityIn {bounds : Interval ℚ} {v : Array ℚ} {s : Nat} :
    (withProbabilityIn bounds v).contains s = true ↔
      s < v.size ∧ bounds.lower ≤ v.getD s 0 ∧ v.getD s 0 ≤ bounds.upper := by
  rw [withProbabilityIn, StateSet.contains_ofList, List.contains_iff_mem, List.mem_filter,
    List.mem_range, Interval.contains, Bool.and_eq_true, decide_eq_true_iff, decide_eq_true_iff]

theorem members_complement (set : StateSet) :
    (set.complement c.size).members = c.others set.members := by
  ext s
  simp [others]

/-! ## Paths -/

theorem WellFormed.describes_next (made : c.WellFormed) {set : StateSet}
    (own : set.Within c.size) {v : Array ℚ} (returned : c.nextProbabilities set = .ok v) :
    c.Describes (k := .path) v fun s p => p = c.mass s set.members := by
  -- The product is defined, so it is what was returned.
  obtain ⟨v', computed, size, entries⟩ := made.nextProbabilities_eq_ok own
  cases returned.symm.trans computed
  refine ⟨size, ?_⟩
  intro s there p
  rw [entries s there]

variable {left right : StateSet} {o : Options ℚ} {v : Array ℚ}

theorem WellFormed.describes_untilWithin (made : c.WellFormed) (nonempty : 0 < c.size)
    (rows : ∀ s < c.size, c.outflow s ≤ 1) (ownRight : right.Within c.size) {k : Nat}
    (returned : c.untilProbabilities o left right (some k) = .ok v) :
    c.Describes (k := .path) v fun s p =>
      p = c.pathWeight right.members (c.others left.members) k s := by
  -- A result that was returned does not depend on the signal to stop.
  have widens : Options.Widens { o with cancelledAfter := none } o :=
    Options.widens_of_running rfl rfl rfl (le_refl _)
  have unhindered := reachability_widens widens c _ _ _ returned
  have computed := made.reachability_bounded nonempty ownRight
    (StateSet.within_complement left _) k (o := { o with cancelledAfter := none }) rfl
  cases unhindered.symm.trans computed
  refine ⟨Array.size_ofFn, ?_⟩
  intro s own p
  -- Weights lie in the unit interval, so clamping changes nothing.
  have weight : Scalar.clampUnit (c.pathWeight right.members (c.others left.members) k s) =
      c.pathWeight right.members (c.others left.members) k s :=
    Scalar.clampUnit_of_mem (made.pathWeight_nonneg _ _ k s)
      (made.pathWeight_le_one rows _ _ k own)
  simp [own, members_complement, weight]

theorem WellFormed.describes_until (made : c.WellFormed) (nonempty : 0 < c.size)
    (visible : c.LosesVisibly) (ownRight : right.Within c.size) (byElimination : o.method = .direct)
    (regular : ∀ system, c.system right (left.complement c.size) false = .ok system →
      Reachability.direct system.matrix system.vector ≠ .error .singular)
    (returned : c.untilProbabilities o left right none = .ok v) :
    c.Describes (k := .path) v fun s p =>
      ∃ x, c.IsLeastSolution right.members (c.others left.members) x ∧ p = x s := by
  obtain ⟨system, found, poses, _⟩ :=
    made.system_eq_ok nonempty ownRight (StateSet.within_complement left _) false
  obtain ⟨v', computed, size, least⟩ :=
    made.reachability_isLeast visible found poses (regular system found) byElimination
  cases returned.symm.trans computed
  rw [members_complement] at least
  refine ⟨size, ?_⟩
  intro s own p
  constructor
  · rintro ⟨x, other, rfl⟩
    exact other.unique least own
  · rintro rfl
    exact ⟨_, least, rfl⟩

/-! ## Formulas -/

/-- Whatever evaluation by elimination returns is the meaning of the formula. -/
theorem WellFormed.evaluate_describes (made : c.WellFormed) (visible : c.LosesVisibly)
    (byElimination : o.method = .direct) {k : Kind} {f : Formula ℚ k} (regular : c.Regular o f)
    {v : Value ℚ k} (returned : c.evaluate o f = .ok v) : c.Describes v (c.meaning f) := by
  induction f with
  | top =>
    cases returned
    refine ⟨fun s member => by simpa [allStates] using member, ?_⟩
    ext s
    simp [allStates, meaning]
  | bot =>
    cases returned
    refine ⟨StateSet.within_empty _, ?_⟩
    ext s
    simp [meaning]
  | atom label =>
    cases returned
    exact ⟨made.within_labelled label, Set.ext fun s => made.contains_labelled⟩
  | and lhs rhs left right =>
    obtain ⟨l, r, leftValue, rightValue, rfl⟩ := evaluate_and_eq_ok returned
    obtain ⟨ownLeft, leftMembers⟩ := left regular.1 leftValue
    obtain ⟨_, rightMembers⟩ := right regular.2 rightValue
    refine ⟨fun s member => ownLeft s ?_, ?_⟩
    · rw [StateSet.contains_inter, Bool.and_eq_true] at member
      exact member.1
    · ext s
      simp [meaning, ← leftMembers, ← rightMembers]
  | or lhs rhs left right =>
    obtain ⟨l, r, leftValue, rightValue, rfl⟩ := evaluate_or_eq_ok returned
    obtain ⟨ownLeft, leftMembers⟩ := left regular.1 leftValue
    obtain ⟨ownRight, rightMembers⟩ := right regular.2 rightValue
    refine ⟨ownLeft.union ownRight, ?_⟩
    ext s
    simp [meaning, ← leftMembers, ← rightMembers]
  | not arg inner =>
    obtain ⟨set, value, rfl⟩ := evaluate_not_eq_ok returned
    obtain ⟨_, members⟩ := inner regular value
    refine ⟨StateSet.within_complement set _, ?_⟩
    rw [members_complement, members]
    rfl
  | prob bounds path inner =>
    obtain ⟨v, value, rfl⟩ := evaluate_prob_eq_ok returned
    obtain ⟨size, probabilities⟩ := inner regular value
    refine ⟨fun s member => size ▸ (contains_withProbabilityIn.mp member).1, ?_⟩
    ext s
    rw [StateSet.mem_members, contains_withProbabilityIn, size]
    apply and_congr_right
    intro own
    simp [probabilities s own]
  | next arg inner =>
    obtain ⟨_, set, value, result⟩ := evaluate_next_eq_ok returned
    obtain ⟨own, members⟩ := inner regular value
    rw [meaning, ← members]
    exact made.describes_next own result
  | strongUntil lhs rhs bound left right =>
    obtain ⟨passed, l, r, leftValue, rightValue, result⟩ := evaluate_strongUntil_eq_ok returned
    -- The sets that the parts evaluate to are the goal and the states not blocked.
    have nonempty := requireStates_eq_ok passed
    obtain ⟨regularLeft, regularRight, regularHere⟩ := regular
    obtain ⟨_, leftMembers⟩ := left regularLeft leftValue
    obtain ⟨ownRight, rightMembers⟩ := right regularRight rightValue
    cases bound with
    | some k =>
      rw [meaning, ← leftMembers, ← rightMembers]
      exact made.describes_untilWithin nonempty (fun _ => visible.outflow_le) ownRight result
    | none =>
      rw [meaning, ← leftMembers, ← rightMembers]
      exact made.describes_until nonempty visible ownRight byElimination
        (fun system => regularHere rfl l r system leftValue rightValue) result

/-- Let the outgoing probabilities of each state sum to one, or to less than one by more than the
tolerance. If evaluation of a state formula by elimination returns a set, and no elimination on the
way reports a singular system, then the set has exactly the states that satisfy the formula. And one
step from a state, taken by transient analysis, gives the set the mass that the next operator
means. -/
theorem evaluate_meaning (constructed : Constructed c) (visible : c.LosesVisibly)
    (byElimination : o.method = .direct) {φ : Formula ℚ .state} (regular : c.Regular o φ)
    {set : StateSet} (returned : c.evaluate o φ = .ok set) :
    (∀ s, set.contains s = true ↔ s ∈ c.meaning φ) ∧
      ∀ s < c.size, ∃ d d', Distribution.point c s = .ok d ∧ c.transient 1 d = .ok d' ∧
        c.meaning (.next φ) s (d'.massOf set) := by
  have made := constructed.wellFormed
  obtain ⟨own, members⟩ := made.evaluate_describes visible byElimination regular returned
  refine ⟨fun s => by rw [← members, StateSet.mem_members], ?_⟩
  intro s there
  obtain ⟨d, d', point, moved, mass⟩ := made.transient_mass own there
  refine ⟨d, d', point, moved, ?_⟩
  rw [meaning, ← members]
  exact mass

/-- In a game that is repeated with probability one half and otherwise won or lost, only the state
in play is left for a win with probability one quarter and won in the end with probability one
half. -/
theorem evaluate_meaning_game :
    let c : Chain ℚ := ⟨0, 6, #[⟨0, "play", []⟩, ⟨1, "won", ["won"]⟩, ⟨2, "lost", ["lost"]⟩],
      [⟨0, 0, 1 / 2⟩, ⟨0, 1, 1 / 4⟩, ⟨0, 2, 1 / 4⟩], some 0, none⟩
    let won : Formula ℚ .state := .prob ⟨1, 1⟩ (.strongUntil .top (.atom "won") (some 1))
    let unlost : Formula ℚ .state := .not (.atom "lost")
    let φ : Formula ℚ .state := .and (.prob ⟨1 / 4, 1⟩ (.next (.atom "won")))
      (.prob ⟨1 / 2, 1 / 2⟩ (.strongUntil unlost won none))
    Constructed c ∧ c.LosesVisibly ∧ c.Regular Options.default φ ∧
      (∃ set, c.check φ = .ok set ∧ set.toList = [0]) ∧ ∀ s, s ∈ c.meaning φ ↔ s = 0 := by
  intro c won unlost φ
  have constructed : Constructed c := constructed_of_addAll (by with_unfolding_all rfl)
  have visible : c.LosesVisibly := by
    simp only [LosesVisibly]
    decide +kernel
  have regular : c.Regular Options.default φ := by
    refine ⟨trivial, trivial, ⟨trivial, trivial, fun bounded => by cases bounded⟩, ?_⟩
    intro _ l r system leftValue rightValue found singular
    -- Both parts and the system are determined, so one evaluation shows that elimination succeeds.
    have solvable : (do
        let l ← c.evaluate Options.default unlost
        let r ← c.evaluate Options.default won
        let system ← c.system r (l.complement c.size) false
        Reachability.direct system.matrix system.vector).isOk = true := by decide +kernel
    rw [leftValue, rightValue] at solvable
    change (c.system r (l.complement c.size) false >>= _).isOk = true at solvable
    rw [found] at solvable
    change (Reachability.direct system.matrix system.vector).isOk = true at solvable
    rw [singular] at solvable
    cases solvable
  -- The set is compared by its list, which has a decidable equality.
  have listed : (do
      let set ← c.check φ
      return set.toList) = (.ok [0] : Except (Error ℚ) (List Nat)) := by decide +kernel
  obtain ⟨set, returned, same⟩ := Outcome.bind_eq_ok.mp listed
  have members : set.toList = [0] := Except.ok.inj same
  refine ⟨constructed, visible, regular, ⟨set, returned, members⟩, ?_⟩
  intro s
  rw [← (evaluate_meaning constructed visible rfl regular returned).1 s, ← StateSet.mem_toList,
    members, List.mem_singleton]

end Chain

end MarkovCheck

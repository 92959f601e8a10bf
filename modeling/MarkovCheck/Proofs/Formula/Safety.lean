import MarkovCheck.Proofs.Formula.Tracing
import MarkovCheck.Proofs.Reachability.Safety

/-!
# How evaluation of a formula ends

A value of a formula fits the chain: a set of own states, or a vector with one entry for each state.
Evaluation fails for one of three reasons only: there are no states to compute probabilities for, it
was told to stop, or an until without a step bound used up its allowance.

* `Formula.NeedsStates`: the formula asks for probabilities
* `Value.Fits`: the value is one for a chain with that many states
* `Chain.MayFail`: the errors that evaluation of a formula can end with
* `Node.evaluate_failsOnly`: evaluation from memory ends with no other error
-/

namespace MarkovCheck

namespace Formula

variable {α : Type}

/-- Does a probability operator occur in the formula? -/
def hasProb : {k : Kind} → Formula α k → Bool
  | _, .top | _, .bot | _, .atom _ => false
  | _, .and lhs rhs | _, .or lhs rhs | _, .strongUntil lhs rhs _ => lhs.hasProb || rhs.hasProb
  | _, .not arg | _, .next arg => arg.hasProb
  | _, .prob _ _ => true

/-- Does an until without a step bound occur in the formula? -/
def hasUnboundedUntil : {k : Kind} → Formula α k → Bool
  | _, .top | _, .bot | _, .atom _ => false
  | _, .and lhs rhs | _, .or lhs rhs => lhs.hasUnboundedUntil || rhs.hasUnboundedUntil
  | _, .not arg | _, .next arg => arg.hasUnboundedUntil
  | _, .prob _ path => path.hasUnboundedUntil
  | _, .strongUntil lhs rhs bound =>
    bound.isNone || lhs.hasUnboundedUntil || rhs.hasUnboundedUntil

/-- The formula is a path formula or contains a probability operator. -/
def NeedsStates {k : Kind} (f : Formula α k) : Prop := k = .path ∨ f.hasProb = true

end Formula

/-- The value is a set of states below `n`, of the size that it says, or a vector with `n`
entries. -/
def Value.Fits {α : Type} (n : Nat) : {k : Kind} → Value α k → Prop
  | .state, set => StateSet.Within set n ∧ StateSet.Counted set
  | .path, v => Array.size v = n

namespace Chain

variable {α : Type} [Scalar α] {c : Chain α} {o : Options α}

omit [Scalar α] in
theorem requireStates_eq_ok {u : Unit} (passed : c.requireStates = .ok u) : 0 < c.size := by
  simp only [requireStates] at passed
  split at passed
  · cases passed
  · omega

theorem WellFormed.contains_labelled (made : c.WellFormed) {label : String} {s : Nat} :
    (c.labelled label).contains s = true ↔
      ∃ state, c.state? s = some state ∧ label ∈ state.labels := by
  rw [labelled, StateSet.contains_ofList, List.contains_iff_mem, List.mem_map]
  constructor
  · rintro ⟨state, member, rfl⟩
    obtain ⟨listed, carries⟩ := List.mem_filter.mp member
    obtain ⟨i, found⟩ := Array.mem_iff_getElem?.mp (Array.mem_toList_iff.mp listed)
    -- A state is found under its own number.
    rw [made.numbered i state found]
    exact ⟨state, found, List.contains_iff_mem.mp carries⟩
  · rintro ⟨state, found, carries⟩
    refine ⟨state, List.mem_filter.mpr ⟨?_, List.contains_iff_mem.mpr carries⟩,
      made.numbered s state found⟩
    exact Array.mem_toList_iff.mpr (Array.mem_of_getElem? found)

theorem WellFormed.within_labelled (made : c.WellFormed) (label : String) :
    (c.labelled label).Within c.size := by
  intro s member
  -- A state that carries a label is a state of the chain.
  obtain ⟨state, found, _⟩ := made.contains_labelled.mp member
  exact (Array.getElem?_eq_some_iff.mp found).1

/-! ## Values -/

theorem WellFormed.nextProbabilities_size (made : c.WellFormed) {set : StateSet}
    (own : set.Within c.size) : ∃ v, c.nextProbabilities set = .ok v ∧ v.size = c.size := by
  have inside : ∀ p ∈ set.toList.map fun s => (s, (1 : α)), p.1 < c.size := by
    intro p listed
    obtain ⟨s, member, rfl⟩ := List.mem_map.mp listed
    exact own s ((set.mem_toList s).mp member)
  obtain ⟨x, indicator, size⟩ := Reachability.scatter_eq_ok inside
  have fits : x.size = c.transitionMatrix.cols := size.trans made.cols_transitionMatrix.symm
  exact ⟨_, Outcome.bind_eq_ok.mpr ⟨x, indicator, if_pos fits⟩,
    (Matrix.size_applyRight _ _).trans made.rows_transitionMatrix⟩

/-- Analyses for an until formula are about own states, so they end as such analyses do. -/
theorem WellFormed.untilPolling_ends (made : c.WellFormed) (nonempty : 0 < c.size)
    (left : StateSet) {right : StateSet} (own : right.Within c.size) (bound : Option Nat)
    (polls : Nat) :
    Reachability.Ends c.size o (bound = none) ((c.untilPolling o left right bound).run' polls) :=
  made.reachabilityPolling_ends nonempty own (StateSet.within_complement left c.size) bound o polls

/-- The value of a formula fits the chain. -/
theorem WellFormed.evaluate_fits (made : c.WellFormed) {k : Kind} {f : Formula α k}
    {v : Value α k} (returned : c.evaluate o f = .ok v) : Value.Fits c.size v := by
  induction f with
  | top =>
    cases returned
    exact ⟨fun s member => by simpa [allStates] using member, StateSet.counted_full c.size⟩
  | bot =>
    cases returned
    exact ⟨StateSet.within_empty c.size, StateSet.counted_ofList []⟩
  | atom label =>
    cases returned
    exact ⟨made.within_labelled label, StateSet.counted_ofList _⟩
  | and lhs rhs left right =>
    obtain ⟨l, r, leftValue, rightValue, rfl⟩ := evaluate_and_eq_ok returned
    refine ⟨fun s member => (left leftValue).1 s ?_, StateSet.counted_combine _ _ _⟩
    rw [StateSet.contains_inter, Bool.and_eq_true] at member
    exact member.1
  | or lhs rhs left right =>
    obtain ⟨l, r, leftValue, rightValue, rfl⟩ := evaluate_or_eq_ok returned
    exact ⟨(left leftValue).1.union (right rightValue).1, StateSet.counted_combine _ _ _⟩
  | not arg inner =>
    obtain ⟨set, _, rfl⟩ := evaluate_not_eq_ok returned
    exact ⟨StateSet.within_complement set c.size, StateSet.counted_combine _ _ _⟩
  | prob bounds path inner =>
    obtain ⟨p, value, rfl⟩ := evaluate_prob_eq_ok returned
    have size : Array.size p = c.size := inner value
    refine ⟨StateSet.within_ofList _ fun s member => ?_, StateSet.counted_ofList _⟩
    rw [← size]
    exact List.mem_range.mp (List.mem_of_mem_filter member)
  | next arg inner =>
    obtain ⟨_, set, value, result⟩ := evaluate_next_eq_ok returned
    obtain ⟨v', computed, size⟩ := made.nextProbabilities_size (inner value).1
    cases result.symm.trans computed
    exact size
  | strongUntil lhs rhs bound left right =>
    obtain ⟨passed, l, r, leftValue, rightValue, result⟩ := evaluate_strongUntil_eq_ok returned
    have ends := made.untilPolling_ends (o := o) (requireStates_eq_ok passed) l
      (right rightValue).1 bound 0
    rw [show (c.untilPolling o l r bound).run' 0 = .ok _ from result] at ends
    cases ends with
    | returned size => exact size

omit [Scalar α] in
theorem needsStates_path (f : Formula α .path) : f.NeedsStates := .inl rfl

omit [Scalar α] in
theorem needsStates_operand {f lhs rhs : Formula α .state}
    (either : f.hasProb = (lhs.hasProb || rhs.hasProb)) (needs : f.NeedsStates) :
    lhs.NeedsStates ∨ rhs.NeedsStates := by
  have prob : (lhs.hasProb || rhs.hasProb) = true :=
    either.symm.trans (needs.resolve_left (by simp))
  exact ((Bool.or_eq_true _ _).mp prob).imp .inr .inr

/-- Only a chain with states gives a value to a formula that asks for probabilities. -/
theorem nonempty_of_evaluate_eq_ok {k : Kind} {f : Formula α k} {v : Value α k}
    (returned : c.evaluate o f = .ok v) (needs : f.NeedsStates) : 0 < c.size := by
  induction f with
  | top | bot | atom => simp [Formula.NeedsStates, Formula.hasProb] at needs
  | and lhs rhs left right =>
    obtain ⟨l, r, leftValue, rightValue, _⟩ := evaluate_and_eq_ok returned
    exact (needsStates_operand rfl needs).elim (left leftValue) (right rightValue)
  | or lhs rhs left right =>
    obtain ⟨l, r, leftValue, rightValue, _⟩ := evaluate_or_eq_ok returned
    exact (needsStates_operand rfl needs).elim (left leftValue) (right rightValue)
  | not arg inner =>
    obtain ⟨w, value, _⟩ := evaluate_not_eq_ok returned
    exact inner value (.inr (needs.resolve_left (by simp)))
  | prob bounds path inner =>
    obtain ⟨w, value, _⟩ := evaluate_prob_eq_ok returned
    exact inner value (needsStates_path path)
  | next arg => exact requireStates_eq_ok (evaluate_next_eq_ok returned).1
  | strongUntil lhs rhs bound =>
    exact requireStates_eq_ok (evaluate_strongUntil_eq_ok returned).1

/-! ## Errors -/

/-- The errors that evaluation of a formula can end with, and when. -/
inductive MayFail (c : Chain α) (o : Options α) {k : Kind} (f : Formula α k) : Error α → Prop where
  | noStates (empty : c.size = 0) (needs : f.NeedsStates) : MayFail c o f .noStates
  | cancelled (nonempty : 0 < c.size) {vain : Nat} (told : o.cancelledAfter = some vain) :
      MayFail c o f .cancelled
  | notConverged (nonempty : 0 < c.size) (endless : f.hasUnboundedUntil = true)
      (change : Option α) : MayFail c o f (.notConverged o.maxIterations change)

omit [Scalar α] in
theorem mayFail_of_refused (ψ : Formula α .path) {e : Error α}
    (refused : c.requireStates = .error e) : c.MayFail o ψ e := by
  simp only [requireStates] at refused
  split at refused
  · next empty =>
    cases refused
    exact .noStates empty (needsStates_path ψ)
  · cases refused

omit [Scalar α] in
/-- What an operand can fail with, the whole can fail with. -/
theorem MayFail.whole {k : Kind} {n : Node α k} {operand : Node.Any α}
    (member : operand ∈ n.operands) {e : Error α} (fails : c.MayFail o operand.node.formula e) :
    c.MayFail o n.formula e := by
  have needs (asks : operand.node.formula.NeedsStates) : n.formula.NeedsStates := by
    cases n with
    | top | bot | atom => cases member
    | and _ lhs rhs | or _ lhs rhs =>
      simp only [Node.operands, List.mem_cons, List.not_mem_nil, or_false] at member
      obtain rfl | rfl := member
      · simp_all [Node.formula, Formula.NeedsStates, Formula.hasProb]
      · simp_all [Node.formula, Formula.NeedsStates, Formula.hasProb]
    | not _ arg =>
      cases List.mem_singleton.mp member
      exact asks
    | prob => exact .inr rfl
    | next | strongUntil => exact needsStates_path _
  have endless (occurs : operand.node.formula.hasUnboundedUntil = true) :
      n.formula.hasUnboundedUntil = true := by
    cases n with
    | top | bot | atom => cases member
    | and _ lhs rhs | or _ lhs rhs | strongUntil _ lhs rhs _ =>
      simp only [Node.operands, List.mem_cons, List.not_mem_nil, or_false] at member
      obtain rfl | rfl := member
      · simp_all [Node.formula, Formula.hasUnboundedUntil]
      · simp_all [Node.formula, Formula.hasUnboundedUntil]
    | not _ arg | prob _ _ arg | next _ arg =>
      cases List.mem_singleton.mp member
      exact occurs
  cases fails with
  | noStates empty asks => exact .noStates empty (needs asks)
  | cancelled nonempty told => exact .cancelled nonempty told
  | notConverged nonempty open_ change => exact .notConverged nonempty (endless open_) change

end Chain

/-! ## Evaluation from memory -/

namespace EvalM

variable {α β γ : Type} {p : Memo.Property α} {bad : Error α → Prop}

/-- From every memory with the property, the computation fails only with bad errors. -/
def FailsOnly (p : Memo.Property α) (bad : Error α → Prop) (x : EvalM α β) : Prop :=
  ∀ memo : Memo α, memo.All p → ∀ e, (x.run memo).1 = .error e → bad e

theorem failsOnly_ofExcept {r : Except (Error α) β} (fails : ∀ e, r = .error e → bad e) :
    FailsOnly p bad (ofExcept r) :=
  fun _ _ e failed => fails e failed

theorem failsOnly_ofPolling {x : Polling α β} (fails : ∀ polls e, x.run polls = .error e → bad e) :
    FailsOnly p bad (ofPolling x) := by
  intro memo _ e failed
  rw [run_ofPolling] at failed
  cases outcome : x.run memo.polls with
  | ok result =>
    rw [outcome] at failed
    cases failed
  | error e' =>
    rw [outcome] at failed
    cases failed
    exact fails memo.polls _ outcome

theorem failsOnly_pure (b : β) : FailsOnly p bad (pure b : EvalM α β) :=
  failsOnly_ofExcept (r := .ok b) fun _ failed => nomatch failed

theorem FailsOnly.mono {worse : Error α → Prop} {x : EvalM α β} (fails : FailsOnly p bad x)
    (weaker : ∀ e, bad e → worse e) : FailsOnly p worse x :=
  fun memo all e failed => weaker e (fails memo all e failed)

/-- In a sequence the second part is run on values of the first only. -/
theorem FailsOnly.bind {x : EvalM α β} {f : β → EvalM α γ} {wide narrow : Polling α β}
    (first : FailsOnly p bad x) (meets : Meets p x wide narrow)
    (second : ∀ b, wide.value = .ok b → FailsOnly p bad (f b)) : FailsOnly p bad (x >>= f) := by
  intro memo all e failed
  have agrees := meets.agrees all
  cases outcome : x.run memo with
  | mk result memo' =>
    rw [outcome] at agrees
    cases result with
    | ok b =>
      rw [Outcome.run_bind_ok outcome] at failed
      exact second b (agrees.returns b rfl) memo' agrees.all e failed
    | error e' =>
      rw [Outcome.run_bind_error outcome] at failed
      cases failed
      exact first memo all _ (congrArg Prod.fst outcome)

theorem FailsOnly.checked {r : Except (Error α) Unit} {x : EvalM α β}
    (refusal : ∀ e, r = .error e → bad e) (fails : r = .ok () → FailsOnly p bad x) :
    FailsOnly p bad (ofExcept r >>= fun _ => x) := by
  cases r with
  | ok _ => exact fails rfl
  | error e =>
    intro memo all e' failed
    rw [Outcome.run_bind_error (run_ofExcept (.error e) memo)] at failed
    cases failed
    exact refusal e rfl

theorem FailsOnly.memoized [Scalar α] {key : EvalKey α} {k : Kind} {id : Nat}
    {compute : EvalM α (Value α k)} (fails : FailsOnly p bad compute) :
    FailsOnly p bad (memoized key id compute) := by
  intro memo all e failed
  obtain ⟨v, _, run⟩ | ⟨_, run⟩ := run_memoized key id compute memo
  · rw [run] at failed
    cases failed
  · rw [run] at failed
    apply fails _ (all.note id) e
    cases outcome : compute.run (memo.note id) with
    | mk result memo' =>
      rw [outcome] at failed
      cases result with
      | ok v => cases failed
      | error e' => exact failed

end EvalM

namespace Node

variable {α : Type} [Scalar α] {c : Chain α} {o wide : Options α} {p : Memo.Property α}

/-- If what the parts return from memory is what they evaluate to under some settings, evaluation
fails only with the errors that the formula may fail with. -/
theorem evaluate_failsOnly (made : c.WellFormed) (n : Node.Any α)
    (meets : ∀ part ∈ n.node.parts, EvalM.Meets p (part.node.evaluate c o)
      (c.evaluatePolling wide part.node.formula) (c.evaluatePolling o part.node.formula)) :
    EvalM.FailsOnly p (c.MayFail o n.node.formula) (n.node.evaluate c o) := by
  induction n using induction_operands with
  | step n inductionHypothesis =>
    have operand : ∀ m ∈ n.node.operands,
        EvalM.FailsOnly p (c.MayFail o n.node.formula) (m.node.evaluate c o) := by
      intro m member
      have below : ∀ part ∈ m.node.parts, part ∈ n.node.parts := fun part =>
        mem_parts_trans (mem_parts_of_mem_operands member)
      exact (inductionHypothesis m member fun part inside => meets part (below part inside)).mono
        fun _ => Chain.MayFail.whole member
    have value : ∀ m ∈ n.node.operands, EvalM.Meets p (m.node.evaluate c o)
        (c.evaluatePolling wide m.node.formula) (c.evaluatePolling o m.node.formula) :=
      fun m member => meets m (mem_parts_of_mem_operands member)
    obtain ⟨k, n⟩ := n
    cases n with
    | top | bot | atom => exact (EvalM.failsOnly_pure _).memoized
    | and id lhs rhs | or id lhs rhs =>
      refine EvalM.FailsOnly.memoized ?_
      refine (operand ⟨_, lhs⟩ (by simp [operands])).bind (value _ (by simp [operands]))
        fun l _ => ?_
      refine (operand ⟨_, rhs⟩ (by simp [operands])).bind (value _ (by simp [operands]))
        fun r _ => ?_
      exact EvalM.failsOnly_pure _
    | not id arg | prob id bounds arg =>
      refine EvalM.FailsOnly.memoized ?_
      refine (operand ⟨_, arg⟩ (by simp [operands])).bind (value _ (by simp [operands]))
        fun v _ => ?_
      exact EvalM.failsOnly_pure _
    | next id arg =>
      refine EvalM.FailsOnly.checked (fun _ => Chain.mayFail_of_refused _) fun _ => ?_
      refine EvalM.FailsOnly.memoized ?_
      refine (operand ⟨_, arg⟩ (by simp [operands])).bind (value _ (by simp [operands]))
        fun set returned => EvalM.failsOnly_ofExcept fun e failed => ?_
      -- The set is one of own states, so the product with its indicator is defined.
      obtain ⟨v, computed, _⟩ := made.nextProbabilities_size (made.evaluate_fits returned).1
      cases failed.symm.trans computed
    | strongUntil id lhs rhs bound =>
      refine EvalM.FailsOnly.checked (fun _ => Chain.mayFail_of_refused _) fun passed => ?_
      have nonempty := Chain.requireStates_eq_ok passed
      refine EvalM.FailsOnly.memoized ?_
      refine (operand ⟨_, lhs⟩ (by simp [operands])).bind (value _ (by simp [operands]))
        fun l _ => ?_
      refine (operand ⟨_, rhs⟩ (by simp [operands])).bind (value _ (by simp [operands]))
        fun r returned => EvalM.failsOnly_ofPolling fun polls e failed => ?_
      have ends := made.untilPolling_ends (o := o) nonempty l
        (made.evaluate_fits returned).1 bound polls
      rw [Polling.run'_eq_error failed] at ends
      cases ends with
      | stopped told => exact .cancelled nonempty told
      | exhausted left change =>
        exact .notConverged nonempty (by simp [formula, Formula.hasUnboundedUntil, left]) change

end Node

end MarkovCheck

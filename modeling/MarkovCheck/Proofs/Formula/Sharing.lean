import Mathlib.Data.List.Nodup
import MarkovCheck.Proofs.Formula.Tracing

/-!
# Shared parts are computed once

A node can be part of another in many places. During one evaluation it is computed in the first
place where it is met, and from then on it remembers a result under the current key, which no later
computation replaces by one under another key. So the nodes computed during an evaluation are all
different, however often they occur, and whatever the memory held before.

* `Computed`: what was computed between a memory and an outcome
* `ComputesWithin`: a computation that computes nodes once, with a rule for each way to combine two
* `Node.evaluate_computesParts`: evaluation of a node computes parts of it once
* `Node.evaluate_of_find?`: a node that knows its result answers with it
-/

namespace MarkovCheck

namespace Node

variable {α : Type}

theorem length_parts_le {n part : Node.Any α} (member : part ∈ n.node.parts) :
    part.node.parts.length ≤ n.node.parts.length := by
  induction n using induction_operands with
  | step n inductionHypothesis =>
    rw [parts_eq, List.mem_cons, List.mem_flatMap] at member
    obtain rfl | ⟨operand, operands, below⟩ := member
    · exact Nat.le_refl _
    · exact Nat.le_of_lt
        (Nat.lt_of_le_of_lt (inductionHypothesis operand operands below) (length_parts_lt operands))

/-- No node is a proper part of itself. -/
theorem notMem_tail_parts {k : Kind} (n : Node α k) : ⟨k, n⟩ ∉ n.parts.tail := by
  intro member
  rw [parts_eq, List.tail_cons, List.mem_flatMap] at member
  obtain ⟨operand, operands, below⟩ := member
  have larger := length_parts_lt operands
  exact absurd (length_parts_le below) (by simpa using larger)

end Node

/-! ## What is known under the current key -/

section Known

variable {α : Type} {key : EvalKey α} {memo : Memo α}

/-- The node remembers a result under the key. -/
def Memo.Knows (memo : Memo α) (key : EvalKey α) (n : Node.Any α) : Prop :=
  ∃ v, memo.find? n.kind n.node.id = some ⟨key, v⟩

theorem Memo.Knows.note {n : Node.Any α} (knows : memo.Knows key n) (id : Nat) :
    (memo.note id).Knows key n := by
  obtain ⟨v, found⟩ := knows
  exact ⟨v, (memo.find?_note id _ _).trans found⟩

theorem Memo.knows_store_self (memo : Memo α) (key : EvalKey α) {k : Kind} (n : Node α k)
    (v : Value α k) : (memo.store k n.id ⟨key, v⟩).Knows key ⟨k, n⟩ :=
  ⟨v, memo.find?_store_self k n.id ⟨key, v⟩⟩

/-- A result under the key can only be replaced by another one under the key. -/
theorem Memo.Knows.store {n : Node.Any α} (knows : memo.Knows key n) {k : Kind} (id : Nat)
    (v : Value α k) : (memo.store k id ⟨key, v⟩).Knows key n := by
  obtain ⟨kind, node⟩ := n
  by_cases same : k = kind ∧ id = node.id
  · obtain ⟨rfl, rfl⟩ := same
    exact memo.knows_store_self key node v
  · obtain ⟨old, found⟩ := knows
    exact ⟨old, (memo.find?_store_of_ne _ same).trans found⟩

theorem Memo.computed_store (memo : Memo α) {k : Kind} (id : Nat) (e : Entry α k) :
    (memo.store k id e).computed = memo.computed := by
  cases k <;> rfl

variable {c : Chain α} {o : Options α} {k : Kind} {n : Node α k}

theorem Node.Computes.not_knows (computes : n.Computes c o memo) :
    ¬ memo.Knows (.of c o) ⟨k, n⟩ := by
  rintro ⟨v, found⟩
  exact computes.stale _ found rfl

/-- A node that computes would also have done so from a memory that knows less of it. -/
theorem Node.Computes.anti {memo' : Memo α} (computes : n.Computes c o memo')
    (kept : memo.Knows (.of c o) ⟨k, n⟩ → memo'.Knows (.of c o) ⟨k, n⟩) : n.Computes c o memo := by
  refine ⟨computes.admitted, fun entry found current => computes.not_knows (kept ?_)⟩
  exact ⟨entry.value, by rw [found, ← current]⟩

end Known

/-! ## What was computed -/

section Computed

variable {α β γ : Type} {c : Chain α} {o : Options α} {memo : Memo α}

/-- From the memory to the outcome the listed nodes were computed, each of them once and none of
them known before. What was known before is still known, and after a success so are the listed
nodes. -/
structure Computed (c : Chain α) (o : Options α) (memo : Memo α) (anew : List (Node.Any α))
    (outcome : Except (Error α) β × Memo α) : Prop where
  listed : outcome.2.computed = (anew.map fun n => n.node.id) ++ memo.computed
  nodup : anew.Nodup
  computes : ∀ n ∈ anew, n.node.Computes c o memo
  kept : ∀ n, memo.Knows (.of c o) n → outcome.2.Knows (.of c o) n
  known : ∀ b, outcome.1 = .ok b → ∀ n ∈ anew, outcome.2.Knows (.of c o) n

theorem computed_nil (c : Chain α) (o : Options α) (memo : Memo α) (polls : Nat)
    (result : Except (Error α) β) :
    Computed c o memo [] (result, { memo with polls := polls }) :=
  ⟨rfl, .nil, fun _ member => (nomatch member), fun _ knows => knows,
    fun _ _ _ member => (nomatch member)⟩

/-- What the first of two computations has computed, the second one knows. -/
theorem Computed.trans {memo' : Memo α} {first second : List (Node.Any α)} {b : β}
    {outcome : Except (Error α) γ × Memo α} (before : Computed c o memo first (.ok b, memo'))
    (after : Computed c o memo' second outcome) : Computed c o memo (second ++ first) outcome := by
  refine ⟨?_, ?_, fun n member => ?_, fun n knows => after.kept n (before.kept n knows),
    fun result returned n member => ?_⟩
  · rw [after.listed, before.listed, List.map_append, List.append_assoc]
  · refine List.nodup_append.mpr ⟨after.nodup, before.nodup, ?_⟩
    -- A node computed by both would be known when the second one computes it.
    rintro n late _ early rfl
    exact (after.computes n late).not_knows (before.known b rfl n early)
  · obtain late | early := List.mem_append.mp member
    · exact (after.computes n late).anti (before.kept n)
    · exact before.computes n early
  · obtain late | early := List.mem_append.mp member
    · exact after.known result returned n late
    · exact after.kept n (before.known b rfl n early)

/-- A node is computed by computing other nodes, and then knows its result if there is one. -/
theorem Computed.storing {k : Kind} {n : Node α k} (computes : n.Computes c o memo)
    {below : List (Node.Any α)} (apart : ⟨k, n⟩ ∉ below)
    {outcome : Except (Error α) (Value α k) × Memo α}
    (computed : Computed c o (memo.note n.id) below outcome) :
    Computed c o memo (below ++ [⟨k, n⟩]) (storing (.of c o) n.id outcome) := by
  have listed : outcome.2.computed =
      ((below ++ [(⟨k, n⟩ : Node.Any α)]).map fun m => m.node.id) ++ memo.computed := by
    rw [computed.listed, List.map_append, List.append_assoc]
    rfl
  have nodup : (below ++ [(⟨k, n⟩ : Node.Any α)]).Nodup := by
    rw [← List.concat_eq_append]
    exact computed.nodup.concat apart
  have stale : ∀ m ∈ below ++ [⟨k, n⟩], m.node.Computes c o memo := by
    intro m member
    obtain inner | itself := List.mem_append.mp member
    · exact (computed.computes m inner).anti fun knows => knows.note n.id
    · rw [List.mem_singleton.mp itself]
      exact computes
  have kept (m : Node.Any α) (knows : memo.Knows (.of c o) m) : outcome.2.Knows (.of c o) m :=
    computed.kept m (knows.note n.id)
  obtain ⟨result, memo'⟩ := outcome
  cases result with
  | ok v =>
    -- Storing replaces a result under the current key by another one, if any.
    refine ⟨(memo'.computed_store _ _).trans listed, nodup, stale,
      fun m knows => (kept m knows).store n.id v, fun _ _ m member => ?_⟩
    obtain inner | itself := List.mem_append.mp member
    · exact (computed.known v rfl m inner).store n.id v
    · rw [List.mem_singleton.mp itself]
      exact memo'.knows_store_self _ n v
  | error e => exact ⟨listed, nodup, stale, kept, fun _ returned => (nomatch returned)⟩

/-- From every memory, the computation computes some of the nodes, and these once. -/
def ComputesWithin (c : Chain α) (o : Options α) (nodes : List (Node.Any α)) (x : EvalM α β) :
    Prop :=
  ∀ memo, ∃ anew, anew ⊆ nodes ∧ Computed c o memo anew (x.run memo)

theorem computesWithin_ofExcept (r : Except (Error α) β) :
    ComputesWithin c o [] (EvalM.ofExcept r) :=
  fun memo => ⟨[], List.Subset.refl [], computed_nil c o memo memo.polls r⟩

theorem computesWithin_ofPolling (x : Polling α β) :
    ComputesWithin c o [] (EvalM.ofPolling x) := by
  intro memo
  refine ⟨[], List.Subset.refl [], ?_⟩
  rw [EvalM.run_ofPolling]
  cases x.run memo.polls with
  | ok result => exact computed_nil c o memo result.2 _
  | error e => exact computed_nil c o memo memo.polls _

theorem computesWithin_pure (b : β) : ComputesWithin c o [] (pure b : EvalM α β) :=
  computesWithin_ofExcept (.ok b)

theorem ComputesWithin.bind {left right : List (Node.Any α)} {x : EvalM α β} {f : β → EvalM α γ}
    (first : ComputesWithin c o left x) (second : ∀ b, ComputesWithin c o right (f b)) :
    ComputesWithin c o (left ++ right) (x >>= f) := by
  intro memo
  obtain ⟨early, within, before⟩ := first memo
  cases outcome : x.run memo with
  | mk result memo' =>
    rw [outcome] at before
    cases result with
    | ok b =>
      obtain ⟨late, withinRight, after⟩ := second b memo'
      rw [Outcome.run_bind_ok outcome]
      refine ⟨late ++ early, List.append_subset.mpr ⟨?_, ?_⟩, before.trans after⟩
      · exact List.subset_append_of_subset_right left withinRight
      · exact List.subset_append_of_subset_left right within
    | error e =>
      rw [Outcome.run_bind_error outcome]
      exact ⟨early, List.subset_append_of_subset_left right within, before.listed, before.nodup,
        before.computes, before.kept, fun _ returned => (nomatch returned)⟩

theorem ComputesWithin.map {nodes : List (Node.Any α)} {x : EvalM α β} {f : β → EvalM α γ}
    (first : ComputesWithin c o nodes x) (second : ∀ b, ComputesWithin c o [] (f b)) :
    ComputesWithin c o nodes (x >>= f) := by
  have both := first.bind second
  rwa [List.append_nil] at both

end Computed

/-! ## Evaluation -/

namespace Node

variable {α : Type} {c : Chain α} {o : Options α} {k : Kind} {n : Node α k}

/-- From every memory, the computation computes some parts of the node, and these once, and among
them the node itself exactly if it has to be computed. -/
def ComputesParts (c : Chain α) (o : Options α) (n : Node α k) (x : EvalM α (Value α k)) : Prop :=
  ∀ memo, ∃ anew, anew ⊆ n.parts ∧ (⟨k, n⟩ ∈ anew ↔ n.Computes c o memo) ∧
    Computed c o memo anew (x.run memo)

/-- A node that need not be computed leaves the memory alone, and computes no part. -/
theorem computed_none {memo : Memo α} (settled : ¬ n.Computes c o memo)
    (result : Except (Error α) (Value α k)) :
    ∃ anew, anew ⊆ n.parts ∧ (⟨k, n⟩ ∈ anew ↔ n.Computes c o memo) ∧
      Computed c o memo anew (result, memo) :=
  ⟨[], List.nil_subset _, iff_of_false List.not_mem_nil settled,
    computed_nil c o memo memo.polls result⟩

theorem ComputesParts.within {x : EvalM α (Value α k)} (computes : ComputesParts c o n x) :
    ComputesWithin c o n.parts x := by
  intro memo
  obtain ⟨anew, inside, _, computed⟩ := computes memo
  exact ⟨anew, inside, computed⟩

variable [Scalar α]

theorem computesParts_memoized (admitted : ¬ Refused c k) {compute : EvalM α (Value α k)}
    (within : ComputesWithin c o n.parts.tail compute) :
    ComputesParts c o n (memoized (.of c o) n.id compute) := by
  intro memo
  obtain ⟨v, found, run⟩ | ⟨stale, run⟩ := run_memoized (.of c o) n.id compute memo
  · rw [run]
    exact computed_none (fun computes => computes.not_knows ⟨v, found⟩) _
  · obtain ⟨below, inside, computed⟩ := within (memo.note n.id)
    have computes : n.Computes c o memo := ⟨admitted, stale⟩
    have apart : ⟨k, n⟩ ∉ below := fun member => n.notMem_tail_parts (inside member)
    rw [run]
    refine ⟨below ++ [⟨k, n⟩], List.append_subset.mpr ⟨?_, ?_⟩, ?_, computed.storing computes apart⟩
    · exact fun m member => List.mem_of_mem_tail (inside member)
    · exact List.cons_subset.mpr ⟨n.mem_parts_self, List.nil_subset _⟩
    · exact iff_of_true (List.mem_append_right below List.mem_cons_self) computes

theorem computesParts_checked {n : Node α .path} {compute : EvalM α (Value α .path)}
    (within : ComputesWithin c o n.parts.tail compute) :
    ComputesParts c o n
      (EvalM.ofExcept c.requireStates >>= fun _ => memoized (.of c o) n.id compute) := by
  by_cases empty : c.size = 0
  · have refuses : c.requireStates = .error .noStates := if_pos empty
    rw [refuses]
    intro memo
    exact computed_none (fun computes => computes.admitted ⟨rfl, empty⟩) _
  · have admits : c.requireStates = .ok () := if_neg empty
    rw [admits]
    exact computesParts_memoized (fun refused => empty refused.2) within

theorem evaluate_computesParts (c : Chain α) (o : Options α) (n : Node α k) :
    ComputesParts c o n (n.evaluate c o) := by
  have admitted : ¬ Refused c .state := fun refused => nomatch refused.1
  induction n with
  | top | bot | atom => exact computesParts_memoized admitted (computesWithin_pure _)
  | and _ lhs rhs left right | or _ lhs rhs left right =>
    refine computesParts_memoized admitted (left.within.bind fun l => ?_)
    exact right.within.map fun r => computesWithin_pure _
  | not _ arg inner | prob _ _ arg inner =>
    exact computesParts_memoized admitted (inner.within.map fun v => computesWithin_pure _)
  | next _ arg inner =>
    exact computesParts_checked (inner.within.map fun v => computesWithin_ofExcept _)
  | strongUntil _ lhs rhs _ left right =>
    refine computesParts_checked (left.within.bind fun l => ?_)
    exact right.within.map fun r => computesWithin_ofPolling _

theorem admitted_of_evaluate_eq_ok {memo memo' : Memo α} {v : Value α k}
    (returned : (n.evaluate c o).run memo = (.ok v, memo')) : ¬ Refused c k := by
  rintro ⟨rfl, empty⟩
  have refuses : c.requireStates = .error .noStates := if_pos empty
  cases n with
  | next | strongUntil =>
    rw [evaluate, refuses] at returned
    cases returned

/-- A node that is not refused and knows its result answers with it. -/
theorem evaluate_of_find? {memo : Memo α} {v : Value α k} (admitted : ¬ Refused c k)
    (found : memo.find? k n.id = some ⟨.of c o, v⟩) :
    (n.evaluate c o).run memo = (.ok v, memo) := by
  have evaluation := n.evaluation c o memo
  cases outcome : (n.evaluate c o).run memo with
  | mk result memo' =>
    rw [outcome] at evaluation
    cases evaluation with
    | refused refused => exact absurd refused admitted
    | recalled recalled =>
      cases found.symm.trans recalled
      rfl
    | computed computes _ | failed computes _ => exact absurd ⟨v, found⟩ computes.not_knows

end Node

end MarkovCheck

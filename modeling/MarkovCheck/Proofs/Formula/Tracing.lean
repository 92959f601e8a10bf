import Mathlib.Logic.Relation
import MarkovCheck.Proofs.Formula.Remembering

/-!
# What an evaluation reaches and writes

Evaluating a node is refused, answered from memory, or carried out by evaluating the operands in
order, up to the first that fails. So one evaluation consists of many, and each of them is a `Call`:
a node together with the memory that its evaluation starts from.

* `Node.Evaluation`: everything that can happen when a node is evaluated
* `Call.Reaches`: the calls that are made during a call
* `Call.wrote_run`: what has changed in the memory was written by calls that were reached and
  succeeded
-/

namespace MarkovCheck

namespace Node

variable {α : Type}

/-- The nodes right under a node, in the order in which they are evaluated. -/
def operands : {k : Kind} → Node α k → List (Node.Any α)
  | _, .top _ | _, .bot _ | _, .atom _ _ => []
  | _, .and _ lhs rhs | _, .or _ lhs rhs | _, .strongUntil _ lhs rhs _ => [⟨_, lhs⟩, ⟨_, rhs⟩]
  | _, .not _ arg | _, .next _ arg => [⟨_, arg⟩]
  | _, .prob _ _ path => [⟨_, path⟩]

theorem parts_eq {k : Kind} (n : Node α k) :
    n.parts = ⟨k, n⟩ :: n.operands.flatMap fun operand => operand.node.parts := by
  cases n <;> simp [parts, operands]

theorem mem_parts_of_mem_operands {k : Kind} {n : Node α k} {operand : Node.Any α}
    (member : operand ∈ n.operands) : operand ∈ n.parts := by
  rw [parts_eq]
  exact List.mem_cons_of_mem _
    (List.mem_flatMap.mpr ⟨operand, member, mem_parts_self operand.node⟩)

theorem length_parts_lt {k : Kind} {n : Node α k} {operand : Node.Any α}
    (member : operand ∈ n.operands) : operand.node.parts.length < n.parts.length := by
  obtain ⟨before, after, split⟩ := List.append_of_mem member
  rw [parts_eq n, split]
  simp only [List.flatMap_append, List.flatMap_cons, List.length_cons, List.length_append]
  omega

/-- What holds of a node whenever it holds of the operands holds of every node. -/
theorem induction_operands {motive : Node.Any α → Prop}
    (step : ∀ n : Node.Any α, (∀ operand ∈ n.node.operands, motive operand) → motive n)
    (n : Node.Any α) : motive n := by
  induction size : n.node.parts.length using Nat.strongRecOn generalizing n with
  | ind size inductionHypothesis =>
    subst size
    exact step n fun operand member =>
      inductionHypothesis _ (length_parts_lt member) operand rfl

end Node

namespace Memo

variable {α : Type} {memo : Memo α}

theorem find?_store_self (memo : Memo α) (k : Kind) (id : Nat) (e : Entry α k) :
    (memo.store k id e).find? k id = some e := by
  cases k <;> simp [store, find?]

theorem find?_store_of_ne (memo : Memo α) {k k' : Kind} {id id' : Nat} (e : Entry α k)
    (other : ¬ (k = k' ∧ id = id')) : (memo.store k id e).find? k' id' = memo.find? k' id' := by
  cases k <;> cases k' <;> simp_all [store, find?, Std.HashMap.getElem?_insert]

end Memo

/-! ## One evaluation -/

section Evaluation

variable {α : Type} [Scalar α] {c : Chain α} {o : Options α}

/-- Evaluating nodes in order, up to the first that fails, leads from one memory to another. What
is computed from their values may ask for the signal to stop. -/
inductive Sweep (c : Chain α) (o : Options α) : List (Node.Any α) → Memo α → Memo α → Prop where
  | done (memo : Memo α) (polls : Nat) : Sweep c o [] memo { memo with polls := polls }
  | failed {operand : Node.Any α} {rest : List (Node.Any α)} {memo memo' : Memo α} {e : Error α}
      (failed : (operand.node.evaluate c o).run memo = (.error e, memo')) :
      Sweep c o (operand :: rest) memo memo'
  | next {operand : Node.Any α} {rest : List (Node.Any α)} {memo memo' memo'' : Memo α}
      {v : Value α operand.kind}
      (returned : (operand.node.evaluate c o).run memo = (.ok v, memo'))
      (swept : Sweep c o rest memo' memo'') : Sweep c o (operand :: rest) memo memo''

/-- The computation touches the memory by evaluating the nodes, and in no other way. -/
def Sweeps (c : Chain α) (o : Options α) (nodes : List (Node.Any α)) {β : Type} (x : EvalM α β) :
    Prop :=
  ∀ memo, Sweep c o nodes memo (x.run memo).2

theorem sweeps_ofExcept {β : Type} (r : Except (Error α) β) : Sweeps c o [] (EvalM.ofExcept r) :=
  fun memo => .done memo memo.polls

theorem sweeps_ofPolling {β : Type} (x : Polling α β) : Sweeps c o [] (EvalM.ofPolling x) := by
  intro memo
  rw [EvalM.run_ofPolling]
  cases x.run memo.polls with
  | ok result => exact .done memo result.2
  | error e => exact .done memo memo.polls

theorem sweeps_pure {β : Type} (b : β) : Sweeps c o [] (pure b : EvalM α β) :=
  sweeps_ofExcept (.ok b)

theorem Sweeps.bind {operand : Node.Any α} {rest : List (Node.Any α)} {β : Type}
    {f : Value α operand.kind → EvalM α β} (next : ∀ v, Sweeps c o rest (f v)) :
    Sweeps c o (operand :: rest) (operand.node.evaluate c o >>= f) := by
  intro memo
  cases outcome : (operand.node.evaluate c o).run memo with
  | mk result memo' =>
    cases result with
    | ok v =>
      rw [Outcome.run_bind_ok outcome]
      exact .next outcome (next v memo')
    | error e =>
      rw [Outcome.run_bind_error outcome]
      exact .failed outcome

namespace Node

/-- A path formula is refused by a chain without states. -/
def Refused (c : Chain α) (k : Kind) : Prop := k = .path ∧ c.size = 0

/-- The node is not refused, and the memory has no result for it under the current key. -/
structure Computes (c : Chain α) (o : Options α) {k : Kind} (n : Node α k) (memo : Memo α) :
    Prop where
  admitted : ¬ Refused c k
  stale : ∀ entry, memo.find? k n.id = some entry → entry.key ≠ .of c o

/-- What an evaluation of a node can return, and the memory it can leave. -/
inductive Evaluation (c : Chain α) (o : Options α) {k : Kind} (n : Node α k) (memo : Memo α) :
    Except (Error α) (Value α k) × Memo α → Prop where
  | refused (refused : Refused c k) : Evaluation c o n memo (.error .noStates, memo)
  | recalled {v : Value α k} (found : memo.find? k n.id = some ⟨.of c o, v⟩) :
      Evaluation c o n memo (.ok v, memo)
  | computed {v : Value α k} {memo' : Memo α} (computes : n.Computes c o memo)
      (swept : Sweep c o n.operands (memo.note n.id) memo') :
      Evaluation c o n memo (.ok v, memo'.store k n.id ⟨.of c o, v⟩)
  | failed {e : Error α} {memo' : Memo α} (computes : n.Computes c o memo)
      (swept : Sweep c o n.operands (memo.note n.id) memo') :
      Evaluation c o n memo (.error e, memo')

theorem evaluation_memoized {k : Kind} {n : Node α k} (admitted : ¬ Refused c k)
    {compute : EvalM α (Value α k)} (sweeps : Sweeps c o n.operands compute) (memo : Memo α) :
    Evaluation c o n memo ((memoized (.of c o) n.id compute).run memo) := by
  obtain ⟨v, found, run⟩ | ⟨stale, run⟩ := run_memoized (.of c o) n.id compute memo
  · rw [run]
    exact .recalled found
  · have swept := sweeps (memo.note n.id)
    rw [run]
    cases outcome : compute.run (memo.note n.id) with
    | mk result memo' =>
      rw [outcome] at swept
      cases result with
      | ok v => exact .computed ⟨admitted, stale⟩ swept
      | error e => exact .failed ⟨admitted, stale⟩ swept

theorem evaluation_checked {n : Node α .path} {compute : EvalM α (Value α .path)}
    (sweeps : Sweeps c o n.operands compute) (memo : Memo α) :
    Evaluation c o n memo
      ((EvalM.ofExcept c.requireStates >>= fun _ => memoized (.of c o) n.id compute).run memo) := by
  by_cases empty : c.size = 0
  · have refuses : c.requireStates = .error .noStates := if_pos empty
    rw [refuses]
    exact .refused ⟨rfl, empty⟩
  · have admits : c.requireStates = .ok () := if_neg empty
    rw [admits]
    exact evaluation_memoized (fun refused => empty refused.2) sweeps memo

/-- Evaluating a node is refused, answered from memory, or a sweep over the operands after which a
success is stored. -/
theorem evaluation (c : Chain α) (o : Options α) {k : Kind} (n : Node α k) (memo : Memo α) :
    Evaluation c o n memo ((n.evaluate c o).run memo) := by
  have admitted : ¬ Refused c .state := fun refused => nomatch refused.1
  cases n with
  | top | bot | atom => exact evaluation_memoized admitted (sweeps_pure _) memo
  | and _ lhs rhs | or _ lhs rhs =>
    exact evaluation_memoized admitted (.bind fun _ => .bind fun _ => sweeps_pure _) memo
  | not _ arg | prob _ _ arg =>
    exact evaluation_memoized admitted (.bind fun _ => sweeps_pure _) memo
  | next _ arg => exact evaluation_checked (.bind fun _ => sweeps_ofExcept _) memo
  | strongUntil _ lhs rhs _ =>
    exact evaluation_checked (.bind fun _ => .bind fun _ => sweeps_ofPolling _) memo

/-- A result that was returned is remembered under the current key. -/
theorem find?_of_evaluate_eq_ok {k : Kind} {n : Node α k} {memo memo' : Memo α} {v : Value α k}
    (returned : (n.evaluate c o).run memo = (.ok v, memo')) :
    memo'.find? k n.id = some ⟨.of c o, v⟩ := by
  have evaluation := n.evaluation c o memo
  rw [returned] at evaluation
  cases evaluation with
  | recalled found => exact found
  | computed _ _ => exact Memo.find?_store_self _ _ _ _

end Node

end Evaluation

/-! ## The calls made during a call -/

/-- The evaluation of a node from a memory. -/
structure Call (α : Type) where
  node : Node.Any α
  memo : Memo α

section Calls

variable {α : Type} [Scalar α] {c : Chain α} {o : Options α}

/-- Evaluating the nodes in order from the memory makes the call. -/
inductive Starts (c : Chain α) (o : Options α) : List (Node.Any α) → Memo α → Call α → Prop where
  | first {operand : Node.Any α} {rest : List (Node.Any α)} {memo : Memo α} :
      Starts c o (operand :: rest) memo ⟨operand, memo⟩
  | later {operand : Node.Any α} {rest : List (Node.Any α)} {memo memo' : Memo α}
      {v : Value α operand.kind} {call : Call α}
      (returned : (operand.node.evaluate c o).run memo = (.ok v, memo'))
      (starts : Starts c o rest memo' call) : Starts c o (operand :: rest) memo call

theorem Starts.mem {nodes : List (Node.Any α)} {memo : Memo α} {call : Call α}
    (starts : Starts c o nodes memo call) : call.node ∈ nodes := by
  induction starts with
  | first => exact List.mem_cons_self
  | later _ _ inductionHypothesis => exact List.mem_cons_of_mem _ inductionHypothesis

theorem Starts.keeps {P : Memo α → Prop} {nodes : List (Node.Any α)} {memo : Memo α}
    {call : Call α} (starts : Starts c o nodes memo call)
    (kept : ∀ n ∈ nodes, ∀ before, P before → P ((n.node.evaluate c o).run before).2)
    (holds : P memo) : P call.memo := by
  induction starts with
  | first => exact holds
  | later returned _ inductionHypothesis =>
    have after := kept _ List.mem_cons_self _ holds
    rw [returned] at after
    exact inductionHypothesis (fun n member => kept n (List.mem_cons_of_mem _ member)) after

namespace Call

/-- The first call, when it computes, makes the second one for an operand. -/
structure Makes (c : Chain α) (o : Options α) (call inner : Call α) : Prop where
  computes : call.node.node.Computes c o call.memo
  starts : Starts c o call.node.node.operands (call.memo.note call.node.node.id) inner

/-- The second call is the first one or made during it. -/
def Reaches (c : Chain α) (o : Options α) : Call α → Call α → Prop :=
  Relation.ReflTransGen (Makes c o)

theorem Reaches.mem_parts {call inner : Call α} (reaches : Reaches c o call inner) :
    inner.node ∈ call.node.node.parts := by
  induction reaches with
  | refl => exact Node.mem_parts_self _
  | tail _ makes inductionHypothesis =>
    exact Node.mem_parts_trans inductionHypothesis
      (Node.mem_parts_of_mem_operands makes.starts.mem)

/-- What notes and the evaluations of all parts keep holds of the memory of every call reached. -/
theorem Reaches.keeps {P : Memo α → Prop} {call inner : Call α} (reaches : Reaches c o call inner)
    (noted : ∀ memo id, P memo → P (memo.note id))
    (kept : ∀ part ∈ call.node.node.parts, ∀ before, P before →
      P ((part.node.evaluate c o).run before).2)
    (holds : P call.memo) : P inner.memo := by
  induction reaches with
  | refl => exact holds
  | tail reaches makes inductionHypothesis =>
    refine makes.starts.keeps (fun operand member => kept operand ?_) (noted _ _ inductionHypothesis)
    exact Node.mem_parts_trans (Reaches.mem_parts reaches) (Node.mem_parts_of_mem_operands member)

/-- A call never reaches another call of the same node, since all others are of smaller nodes. -/
theorem Reaches.eq_of_node_eq {call inner : Call α} (reaches : Reaches c o call inner)
    (same : inner.node = call.node) : inner = call := by
  have smaller : inner = call ∨ inner.node.node.parts.length < call.node.node.parts.length := by
    clear same
    induction reaches with
    | refl => exact .inl rfl
    | tail _ makes inductionHypothesis =>
      have less := Node.length_parts_lt makes.starts.mem
      right
      obtain rfl | below := inductionHypothesis
      · exact less
      · exact Nat.lt_trans less below
  obtain equal | below := smaller
  · exact equal
  · rw [same] at below
    exact absurd below (Nat.lt_irrefl _)

/-! ## What is written -/

/-- Where two memories differ, the later one has the result of a successful call with the property,
under the current key. -/
def Wrote (c : Chain α) (o : Options α) (reached : Call α → Prop) (memo memo' : Memo α) : Prop :=
  ∀ k id, memo'.find? k id = memo.find? k id ∨
    ∃ (m : Node α k) (before : Memo α) (v : Value α k), m.id = id ∧ reached ⟨⟨k, m⟩, before⟩ ∧
      ((m.evaluate c o).run before).1 = .ok v ∧ memo'.find? k id = some ⟨.of c o, v⟩

variable {reached : Call α → Prop} {memo memo' memo'' : Memo α}

theorem wrote_of_find?_eq (same : ∀ k id, memo'.find? k id = memo.find? k id) :
    Wrote c o reached memo memo' :=
  fun k id => .inl (same k id)

theorem Wrote.mono {more : Call α → Prop} (wrote : Wrote c o reached memo memo')
    (included : ∀ call, reached call → more call) : Wrote c o more memo memo' := by
  intro k id
  obtain same | ⟨m, before, v, identity, made, returned, found⟩ := wrote k id
  · exact .inl same
  · exact .inr ⟨m, before, v, identity, included _ made, returned, found⟩

theorem Wrote.trans (first : Wrote c o reached memo memo') (second : Wrote c o reached memo' memo'') :
    Wrote c o reached memo memo'' := by
  intro k id
  obtain same | written := second k id
  · rw [same]
    exact first k id
  · exact .inr written

theorem Wrote.store {k : Kind} {n : Node α k} {before : Memo α} {v : Value α k}
    (wrote : Wrote c o reached memo memo') (made : reached ⟨⟨k, n⟩, before⟩)
    (returned : ((n.evaluate c o).run before).1 = .ok v) :
    Wrote c o reached memo (memo'.store k n.id ⟨.of c o, v⟩) := by
  refine wrote.trans fun k' id => ?_
  by_cases same : k = k' ∧ n.id = id
  · obtain ⟨rfl, rfl⟩ := same
    exact .inr ⟨n, before, v, rfl, made, returned, Memo.find?_store_self _ _ _ _⟩
  · exact .inl (Memo.find?_store_of_ne _ _ same)

/-- A sweep writes what the calls that it starts write. -/
theorem wrote_sweep {nodes : List (Node.Any α)} (swept : Sweep c o nodes memo memo')
    (each : ∀ n ∈ nodes, ∀ before,
      Wrote c o (Reaches c o ⟨n, before⟩) before ((n.node.evaluate c o).run before).2) :
    Wrote c o (fun call => ∃ started, Starts c o nodes memo started ∧ Reaches c o started call)
      memo memo' := by
  induction swept with
  | done => exact wrote_of_find?_eq fun _ _ => rfl
  | @failed operand rest memo memo' e failed =>
    have wrote := each operand List.mem_cons_self memo
    rw [failed] at wrote
    exact wrote.mono fun call reaches => ⟨⟨operand, memo⟩, .first, reaches⟩
  | @next operand rest memo memo' memo'' v returned swept inductionHypothesis =>
    have wrote := each operand List.mem_cons_self memo
    rw [returned] at wrote
    have later := inductionHypothesis fun n member => each n (List.mem_cons_of_mem _ member)
    refine (wrote.mono fun call reaches => ?_).trans (later.mono fun call made => ?_)
    · exact ⟨⟨operand, memo⟩, .first, reaches⟩
    · obtain ⟨started, starts, reaches⟩ := made
      exact ⟨started, .later returned starts, reaches⟩

/-- Whatever a call changes in the memory is written by successful calls that it reaches. -/
theorem wrote_run (n : Node.Any α) (memo : Memo α) :
    Wrote c o (Reaches c o ⟨n, memo⟩) memo ((n.node.evaluate c o).run memo).2 := by
  induction n using Node.induction_operands generalizing memo with
  | step n inductionHypothesis =>
    -- The sweep over the operands writes what their calls write, and those are made by this one.
    have sweeps {memo' : Memo α} (computes : n.node.Computes c o memo)
        (swept : Sweep c o n.node.operands (memo.note n.node.id) memo') :
        Wrote c o (Reaches c o ⟨n, memo⟩) memo memo' := by
      have noted : Wrote c o (Reaches c o ⟨n, memo⟩) memo (memo.note n.node.id) :=
        wrote_of_find?_eq fun k id => Memo.find?_note memo n.node.id k id
      refine noted.trans ((wrote_sweep swept inductionHypothesis).mono ?_)
      rintro call ⟨started, starts, reaches⟩
      exact .head ⟨computes, starts⟩ reaches
    have evaluation := n.node.evaluation c o memo
    cases outcome : (n.node.evaluate c o).run memo with
    | mk result memo' =>
      rw [outcome] at evaluation
      cases evaluation with
      | refused | recalled => exact wrote_of_find?_eq fun _ _ => rfl
      | computed computes swept =>
        exact (sweeps computes swept).store .refl (congrArg Prod.fst outcome)
      | failed computes swept => exact sweeps computes swept

end Call

end Calls

end MarkovCheck

import MarkovCheck.Formula.Memo
import MarkovCheck.Proofs.Formula.Allowance
import MarkovCheck.Proofs.Formula.Parts

/-!
# Evaluation from memory

What a memory holds is described by a property of its entries, and evaluation keeps the property. If
the entries under the current key are the values of their nodes, then so is every answer, and a
failing evaluation would also fail without memory.

Two memory-free evaluations stand beside an evaluation from memory: one under wider settings, which
an answer is compared with because an entry may have been made with a larger allowance, and one
under the same settings, which a failure is compared with. The latter asks for the signal to stop at
least as often, since an answer from memory asks for nothing; so it does not get further.

* `Memo.All`: all entries of a memory have a property
* `EvalM.Meets`: a computation keeps the property and agrees with two memory-free ones
* `Node.evaluate_meets`: evaluation of a node does
-/

namespace MarkovCheck

/-- Properties of what a node of some kind and identity remembers. -/
abbrev Memo.Property (α : Type) := (k : Kind) → Nat → Entry α k → Prop

namespace Memo

variable {α : Type} {p : Property α} {memo : Memo α}

def All (memo : Memo α) (p : Property α) : Prop :=
  ∀ k id e, memo.find? k id = some e → p k id e

theorem all_empty (p : Property α) : (empty : Memo α).All p := by
  intro k id e found
  cases k <;> simp [find?, empty] at found

theorem All.mono {q : Property α} (all : memo.All p) (weaker : ∀ k id e, p k id e → q k id e) :
    memo.All q :=
  fun k id e found => weaker k id e (all k id e found)

theorem find?_note (memo : Memo α) (id : Nat) (k : Kind) (other : Nat) :
    (memo.note id).find? k other = memo.find? k other := by
  cases k <;> rfl

theorem find?_newCall (memo : Memo α) (k : Kind) (id : Nat) :
    memo.newCall.find? k id = memo.find? k id := by
  cases k <;> rfl

theorem polls_store (memo : Memo α) {k : Kind} (id : Nat) (e : Entry α k) :
    (memo.store k id e).polls = memo.polls := by
  cases k <;> rfl

theorem All.note (all : memo.All p) (id : Nat) : (memo.note id).All p :=
  fun k other e found => all k other e (by rwa [find?_note] at found)

theorem All.newCall (all : memo.All p) : memo.newCall.All p :=
  fun k id e found => all k id e (by rwa [find?_newCall] at found)

theorem find?_store {k : Kind} {id : Nat} {new : Entry α k} {k' : Kind} {id' : Nat}
    {e : Entry α k'} (found : (memo.store k id new).find? k' id' = some e) :
    (∃ same : k = k', id = id' ∧ same ▸ new = e) ∨ memo.find? k' id' = some e := by
  -- The two kinds of nodes have tables of their own.
  cases k <;> cases k' <;> simp only [store, find?] at found
  case state.state | path.path =>
    rw [Std.HashMap.getElem?_insert] at found
    split at found
    · next same => exact .inl ⟨rfl, by simpa using same, by simpa using found⟩
    · exact .inr found
  case state.path | path.state => exact .inr found

theorem All.store (all : memo.All p) {k : Kind} {id : Nat} {new : Entry α k} (holds : p k id new) :
    (memo.store k id new).All p := by
  intro k' id' e found
  obtain ⟨rfl, rfl, rfl⟩ | old := find?_store found
  · exact holds
  · exact all k' id' e old

theorem All.erase (all : memo.All p) (id : Nat) : (memo.erase id).All p := by
  intro k other e found
  apply all k other e
  cases k <;> simp only [Memo.erase, find?, Std.HashMap.getElem?_erase] at found ⊢ <;>
    split at found <;> first | exact found | cases found

theorem All.forget (all : memo.All p) {k : Kind} (n : Node α k) : (n.forget memo).All p := by
  unfold Node.forget
  generalize n.ids = ids
  induction ids generalizing memo with
  | nil => exact all
  | cons id ids inductionHypothesis => exact inductionHypothesis (all.erase id)

end Memo

/-! ## Hits and misses -/

section Memoized

variable {α : Type} [Scalar α] {key : EvalKey α} {k : Kind} {id : Nat}
  {compute : EvalM α (Value α k)} {memo : Memo α}

/-- A node that remembers a result under the key answers with it and changes nothing. -/
theorem run_memoized_hit {entry : Entry α k} (found : memo.find? k id = some entry)
    (current : entry.key = key) :
    (memoized key id compute).run memo = (.ok entry.value, memo) := by
  simp only [memoized, ExceptT.run_mk, found, current, if_true]

def storing (key : EvalKey α) (id : Nat) :
    Except (Error α) (Value α k) × Memo α → Except (Error α) (Value α k) × Memo α
  | (.ok v, memo) => (.ok v, memo.store k id ⟨key, v⟩)
  | (.error e, memo) => (.error e, memo)

/-- A node that remembers nothing under the key computes, and remembers a success. -/
theorem run_memoized_miss (stale : ∀ entry, memo.find? k id = some entry → entry.key ≠ key) :
    (memoized key id compute).run memo = storing key id (compute.run (memo.note id)) := by
  cases found : memo.find? k id with
  | none =>
    simp only [memoized, ExceptT.run_mk, found]
    rfl
  | some entry =>
    simp only [memoized, ExceptT.run_mk, found, stale entry found, if_false]
    rfl

/-- A node answers with what it remembers under the key, or computes. -/
theorem run_memoized (key : EvalKey α) (id : Nat) (compute : EvalM α (Value α k))
    (memo : Memo α) :
    (∃ v, memo.find? k id = some ⟨key, v⟩ ∧
        (memoized key id compute).run memo = (.ok v, memo)) ∨
      (∀ entry, memo.find? k id = some entry → entry.key ≠ key) ∧
        (memoized key id compute).run memo = storing key id (compute.run (memo.note id)) := by
  by_cases hit : ∃ entry, memo.find? k id = some entry ∧ entry.key = key
  · obtain ⟨entry, found, rfl⟩ := hit
    exact .inl ⟨entry.value, found, run_memoized_hit found rfl⟩
  · have stale : ∀ entry, memo.find? k id = some entry → entry.key ≠ key :=
      fun entry found current => hit ⟨entry, found, current⟩
    exact .inr ⟨stale, run_memoized_miss stale⟩

end Memoized

/-! ## Agreement with memory-free evaluation -/

namespace EvalM

variable {α β γ : Type} {p : Memo.Property α}

/-- The memory has the property; a value is the one of `wide`, and a failure is shared by `narrow`,
which asked for the signal `polls` times before it began and asks at least as often altogether. -/
structure Agrees (p : Memo.Property α) (wide narrow : Polling α β) (polls : Nat)
    (outcome : Except (Error α) β × Memo α) : Prop where
  all : outcome.2.All p
  returns : ∀ b, outcome.1 = .ok b → wide.value = .ok b
  fails : ∀ e, outcome.1 = .error e → Outcome.Fails (narrow.run polls)
  asks : ∀ b after, narrow.run polls = .ok (b, after) → outcome.2.polls ≤ after

/-- From every memory with the property, a computation ends in agreement with two memory-free ones,
if the narrow one has asked for the signal at least as often. -/
def Meets (p : Memo.Property α) (x : EvalM α β) (wide narrow : Polling α β) : Prop :=
  ∀ (memo : Memo α) (polls : Nat), memo.All p → memo.polls ≤ polls →
    Agrees p wide narrow polls (x.run memo)

theorem Meets.agrees {x : EvalM α β} {wide narrow : Polling α β} (meets : Meets p x wide narrow)
    {memo : Memo α} (all : memo.All p) : Agrees p wide narrow memo.polls (x.run memo) :=
  meets memo memo.polls all (Nat.le_refl _)

theorem run_ofExcept (r : Except (Error α) β) (memo : Memo α) :
    (ofExcept r).run memo = (r, memo) := rfl

/-- The memory keeps what a part has asked, unless it fails. -/
theorem run_ofPolling (x : Polling α β) (memo : Memo α) :
    (ofPolling x).run memo = match x.run memo.polls with
      | .ok (b, polls) => (.ok b, { memo with polls := polls })
      | .error e => (.error e, memo) := rfl

theorem meets_ofExcept (r : Except (Error α) β) :
    Meets p (ofExcept r) (liftM r) (liftM r) := by
  intro memo polls all atMost
  refine ⟨all, fun b returned => (Polling.value_lift r).trans returned, fun e failed => ?_,
    fun b after returned => ?_⟩
  · cases failed
    exact Outcome.fails_error e
  · rw [(Polling.run_lift_eq_ok.mp returned).2]
    exact atMost

theorem meets_pure (b : β) : Meets p (pure b : EvalM α β) (pure b) (pure b) :=
  meets_ofExcept (.ok b)

/-- A part that asks for the signal asks equally often, and fails where it has asked more often
before. -/
theorem meets_ofPolling {wide narrow : Polling α β} (follows : Polling.Follows narrow narrow)
    (widens : Polling.Follows narrow wide) : Meets p (ofPolling narrow) wide narrow := by
  intro memo polls all atMost
  have again (b : β) (after : Nat) (returned : narrow.run polls = .ok (b, after)) :
      ∃ asked, after = polls + asked ∧
        narrow.run memo.polls = .ok (b, memo.polls + asked) := by
    obtain ⟨asked, total, earlier⟩ := follows b polls after returned
    exact ⟨asked, total, earlier memo.polls atMost⟩
  rw [run_ofPolling]
  cases outcome : narrow.run memo.polls with
  | ok result =>
    obtain ⟨b, after⟩ := result
    refine ⟨all, fun b' same => ?_, fun e failed => (nomatch failed), fun b' after' returned => ?_⟩
    · cases same
      exact widens.value_of_run outcome
    · obtain ⟨asked, rfl, same⟩ := again b' after' returned
      cases outcome.symm.trans same
      exact Nat.add_le_add_right atMost asked
  | error e =>
    refine ⟨all, fun b same => (nomatch same), fun e' _ => ?_, fun b after returned => ?_⟩
    · rw [Outcome.fails_iff]
      rintro ⟨b, after⟩ returned
      obtain ⟨asked, _, same⟩ := again b after returned
      cases outcome.symm.trans same
    · obtain ⟨asked, _, same⟩ := again b after returned
      cases outcome.symm.trans same

/-- Sequences agree with sequences, if the second part agrees after every value that the first
part can have. -/
theorem Meets.bind {x : EvalM α β} {f : β → EvalM α γ} {wide narrow : Polling α β}
    {wideNext narrowNext : β → Polling α γ} (first : Meets p x wide narrow)
    (widens : Polling.Follows narrow wide) (steady : ∀ b, Polling.Steady (wideNext b))
    (second : ∀ b, Meets p (f b) (wideNext b) (narrowNext b)) :
    Meets p (x >>= f) (wide >>= wideNext) (narrow >>= narrowNext) := by
  intro memo polls all atMost
  have agrees := first memo polls all atMost
  cases outcome : x.run memo with
  | mk result memo' =>
    rw [outcome] at agrees
    cases result with
    | ok b =>
      have wideValue := agrees.returns b rfl
      -- Where the narrow first part has a value, it is the one that the second part got.
      have rest {c : γ} {after : Nat}
          (returned : (narrow >>= narrowNext).run polls = .ok (c, after)) : ∃ between,
          memo'.polls ≤ between ∧ (narrowNext b).run between = .ok (c, after) := by
        obtain ⟨b', between, start, rest⟩ := Polling.run_bind_eq_ok.mp returned
        cases (widens.value_of_run start).symm.trans wideValue
        exact ⟨between, agrees.asks _ _ start, rest⟩
      have agreesEnd (between : Nat) := second b memo' between agrees.all
      rw [Outcome.run_bind_ok outcome]
      refine ⟨(agreesEnd _ (Nat.le_refl _)).all, fun c returned => ?_, fun e failed => ?_,
        fun c after returned => ?_⟩
      · rw [Polling.value_bind steady, wideValue]
        exact (agreesEnd _ (Nat.le_refl _)).returns c returned
      · rw [Outcome.fails_iff]
        rintro ⟨c, after⟩ returned
        obtain ⟨between, asked, end_⟩ := rest returned
        exact Outcome.fails_iff.mp ((agreesEnd between asked).fails e failed) _ end_
      · obtain ⟨between, asked, end_⟩ := rest returned
        exact (agreesEnd between asked).asks c after end_
    | error e =>
      rw [Outcome.run_bind_error outcome]
      have noStart (b : β) (between : Nat) : narrow.run polls ≠ .ok (b, between) :=
        Outcome.fails_iff.mp (agrees.fails e rfl) (b, between)
      refine ⟨agrees.all, fun c returned => (nomatch returned), fun _ _ => ?_,
        fun c after returned => ?_⟩
      · rw [Outcome.fails_iff]
        rintro ⟨c, after⟩ returned
        obtain ⟨b, between, start, _⟩ := Polling.run_bind_eq_ok.mp returned
        exact noStart b between start
      · obtain ⟨b, between, start, _⟩ := Polling.run_bind_eq_ok.mp returned
        exact absurd start (noStart b between)

theorem Meets.checked {r : Except (Error α) Unit} {x : EvalM α β} {wide narrow : Polling α β}
    (meets : r = .ok () → Meets p x wide narrow) :
    Meets p (ofExcept r >>= fun _ => x) (liftM r >>= fun _ => wide)
      (liftM r >>= fun _ => narrow) := by
  intro memo polls all atMost
  cases r with
  | ok _ =>
    rw [Outcome.run_bind_ok (run_ofExcept (.ok ()) memo)]
    exact meets rfl memo polls all atMost
  | error e =>
    rw [Outcome.run_bind_error (run_ofExcept (.error e) memo)]
    exact ⟨all, fun b returned => (nomatch returned), fun _ _ => Outcome.fails_error e,
      fun b after returned => (nomatch returned)⟩

/-- A remembered result agrees with what the computation agrees with, if the entries of its node
under the key are exactly the value of `wide`. -/
theorem Meets.memoized [Scalar α] {key : EvalKey α} {k : Kind} {id : Nat}
    {compute : EvalM α (Value α k)} {wide narrow : Polling α (Value α k)}
    (meets : Meets p compute wide narrow) (follows : Polling.Follows narrow narrow)
    (exactly : ∀ v, p k id ⟨key, v⟩ ↔ wide.value = .ok v) :
    Meets p (memoized key id compute) wide narrow := by
  intro memo polls all atMost
  obtain ⟨v, found, run⟩ | ⟨_, run⟩ := run_memoized key id compute memo
  · rw [run]
    refine ⟨all, fun v' returned => ?_, fun e failed => (nomatch failed),
      fun v' after returned => ?_⟩
    · -- The entry has the property because it was remembered, and under this key that is the value.
      cases returned
      exact (exactly v).mp (all k id _ found)
    · -- Nothing was asked here, and the narrow computation does not take back what it asked.
      obtain ⟨asked, rfl, _⟩ := follows v' polls after returned
      exact Nat.le_add_right_of_le atMost
  · rw [run]
    have agrees := meets _ polls (all.note id) atMost
    cases outcome : compute.run (memo.note id) with
    | mk result memo' =>
      rw [outcome] at agrees
      cases result with
      | ok v =>
        -- A success is the value of `wide`, so it may be stored.
        have stored := agrees.all.store ((exactly v).mpr (agrees.returns v rfl))
        refine ⟨stored, agrees.returns, agrees.fails, fun v' after returned => ?_⟩
        exact Nat.le_trans (Nat.le_of_eq (memo'.polls_store id ⟨key, v⟩))
          (agrees.asks v' after returned)
      | error e => exact agrees

end EvalM

namespace Node

variable {α : Type} [Scalar α]

/-- Evaluation of a node keeps a property of the memory that, under the current key and for every
part of the node, is being the part's value under wider settings. It returns only the node's value
under the wider settings, without a signal, and fails only if the node has no value under the
settings given. -/
theorem evaluate_meets {p : Memo.Property α} {o wide : Options α} (widens : wide.Widens o)
    (running : wide.cancelledAfter = none) (c : Chain α) {k : Kind} (n : Node α k)
    (exactly : ∀ part ∈ n.parts, ∀ v, p part.kind part.node.id ⟨.of c o, v⟩ ↔
      c.evaluate wide part.node.formula = .ok v) :
    EvalM.Meets p (n.evaluate c o) (c.evaluatePolling wide n.formula)
      (c.evaluatePolling o n.formula) := by
  have follows {k : Kind} (f : Formula α k) := Chain.evaluatePolling_follows o.widens_refl c f
  have wider {k : Kind} (f : Formula α k) := Chain.evaluatePolling_follows widens c f
  have steady {k : Kind} (f : Formula α k) := Chain.steady_evaluatePolling running c f
  induction n with
  | top | bot | atom =>
    exact (EvalM.meets_pure _).memoized (Polling.follows_pure _) (exactly _ (mem_parts_self _))
  | and id lhs rhs left right | or id lhs rhs left right =>
    refine EvalM.Meets.memoized ?_ (follows _) (exactly _ (mem_parts_self _))
    refine (left fun part member => exactly part (by simp [parts, member])).bind (wider _)
      (fun _ => (steady _).bind fun _ => Polling.steady_pure _) fun l => ?_
    exact (right fun part member => exactly part (by simp [parts, member])).bind (wider _)
      (fun _ => Polling.steady_pure _) fun r => EvalM.meets_pure _
  | not id arg inner | prob id bounds arg inner =>
    refine EvalM.Meets.memoized ?_ (follows _) (exactly _ (mem_parts_self _))
    exact (inner fun part member => exactly part (by simp [parts, member])).bind (wider _)
      (fun _ => Polling.steady_pure _) fun v => EvalM.meets_pure _
  | next id arg inner =>
    -- The chain is asked for states before the memory is asked for an entry.
    refine EvalM.Meets.checked fun states => ?_
    have whole := exactly _ (mem_parts_self _)
    simp only [formula, Chain.evaluate, Chain.evaluatePolling, Polling.value_bind_lift, states]
      at whole
    refine EvalM.Meets.memoized ?_ ((follows _).bind fun _ => Polling.follows_lift _) whole
    exact (inner fun part member => exactly part (by simp [parts, member])).bind (wider _)
      (fun _ => Polling.steady_lift _) fun v => EvalM.meets_ofExcept _
  | strongUntil id lhs rhs bound left right =>
    have analysis (l r : StateSet) := Chain.reachabilityPolling_follows o.widens_refl c r
      (l.complement c.size) bound
    have steadyAnalysis (l r : StateSet) := Chain.steady_reachabilityPolling running c r
      (l.complement c.size) bound
    refine EvalM.Meets.checked fun states => ?_
    have whole := exactly _ (mem_parts_self _)
    simp only [formula, Chain.evaluate, Chain.evaluatePolling, Polling.value_bind_lift, states]
      at whole
    refine EvalM.Meets.memoized ?_
      ((follows _).bind fun l => (follows _).bind fun r => analysis l r) whole
    refine (left fun part member => exactly part (by simp [parts, member])).bind (wider _)
      (fun l => (steady _).bind fun r => steadyAnalysis l r) fun l => ?_
    refine (right fun part member => exactly part (by simp [parts, member])).bind (wider _)
      (fun r => steadyAnalysis l r) fun r => ?_
    exact EvalM.meets_ofPolling (analysis l r) (Chain.reachabilityPolling_follows widens c _ _ _)

end Node

end MarkovCheck

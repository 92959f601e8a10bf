import MarkovCheck.Proofs.Formula.Tracing
import MarkovCheck.Proofs.Session.Transparency

/-!
# What an evaluation changes in a session

An evaluation changes nothing but what nodes remember, and of these only the node evaluated and its
parts. What a node remembers afterwards is what it remembered before, or its own result, from a call
that succeeded; so a failure part of the way leaves no node with half a result. Resetting a formula
makes it and its parts forget, and no others.

Identities tell the nodes of a session apart, which the ledger of its past knows.
-/

namespace MarkovCheck

namespace Memo

variable {α : Type}

theorem find?_erase (memo : Memo α) (id : Nat) (k : Kind) (other : Nat) :
    (memo.erase id).find? k other = if id = other then none else memo.find? k other := by
  cases k <;> simp [erase, find?, Std.HashMap.getElem?_erase]

theorem find?_forget {k : Kind} (n : Node α k) (memo : Memo α) (k' : Kind) (id : Nat) :
    (n.forget memo).find? k' id = if id ∈ n.ids then none else memo.find? k' id := by
  unfold Node.forget
  generalize n.ids = ids
  induction ids generalizing memo with
  | nil => simp
  | cons first ids inductionHypothesis =>
    rw [List.foldl_cons, inductionHypothesis, find?_erase]
    by_cases same : first = id
    · simp [same]
    · simp [same, Ne.symm same]

end Memo

namespace Session

variable {s : Session}

/-- An evaluation of the node ended with the result and led from one session to the other: the
memory alone changed, only below the node, and by calls that succeeded. -/
structure WritesBelow (s : Session) (chain : Chain Float) (o : Options Float) {k : Kind}
    (n : Node Float k) (result : Except (Error Float) (Value Float k)) (t : Session) : Prop where
  rest : t = { s with memo := t.memo }
  outside : ∀ {k' : Kind} {m : Node Float k'}, s.Holds m → ⟨k', m⟩ ∉ n.parts →
    t.memo.find? k' m.id = s.memo.find? k' m.id
  returned : ∀ v, result = .ok v → t.memo.find? k n.id = some ⟨.of chain o, v⟩
  failed : ∀ e, result = .error e → t.memo.find? k n.id = s.memo.find? k n.id
  changed : ∀ {k' : Kind} {m : Node Float k'}, s.Holds m →
    t.memo.find? k' m.id ≠ s.memo.find? k' m.id →
    ∃ before v, Call.Reaches chain o ⟨⟨k, n⟩, s.memo.newCall⟩ ⟨⟨k', m⟩, before⟩ ∧
      ((m.evaluate chain o).run before).1 = .ok v ∧
      t.memo.find? k' m.id = some ⟨.of chain o, v⟩ ∧
      chain.content.evaluate o.unhindered m.formula = .ok v

/-- Between the two sessions the node and its parts have forgotten what they remembered, and nothing
else has changed. -/
structure Forgets (s : Session) {k : Kind} (n : Node Float k) (t : Session) : Prop where
  rest : t = { s with memo := t.memo }
  below : ∀ part ∈ n.parts, t.memo.find? part.kind part.node.id = none
  outside : ∀ {k' : Kind} {m : Node Float k'}, s.Holds m → ⟨k', m⟩ ∉ n.parts →
    t.memo.find? k' m.id = s.memo.find? k' m.id

section Described

variable {ledger : Ledger} {limit : Nat} {c : Nat} {chain : Chain Float} {o : Options Float}
  {k : Kind} {n : Node Float k}

/-- Where the memory of a node differs after an evaluation, the node was called with success during
it. -/
theorem reached_of_changed (describes : ledger.Describes limit s) (made : ledger.nodes ⟨k, n⟩)
    {k' : Kind} {m : Node Float k'} (known : ledger.nodes ⟨k', m⟩)
    (differs : ((evaluate chain o n).run s).2.memo.find? k' m.id ≠ s.memo.find? k' m.id) :
    ∃ before v, Call.Reaches chain o ⟨⟨k, n⟩, s.memo.newCall⟩ ⟨⟨k', m⟩, before⟩ ∧
      ((m.evaluate chain o).run before).1 = .ok v ∧
      ((evaluate chain o n).run s).2.memo.find? k' m.id = some ⟨.of chain o, v⟩ := by
  obtain same | ⟨m', before, v, identity, reaches, returned, found⟩ :=
    Call.wrote_run (c := chain) (o := o) ⟨k, n⟩ s.memo.newCall k' m.id
  · rw [Memo.find?_newCall] at same
    exact absurd same differs
  · -- The node that wrote has this identity, so it is this node.
    have below := describes.nodes.parts _ made _ reaches.mem_parts
    cases describes.nodes.unique ⟨k', m'⟩ ⟨k', m⟩ below known identity
    exact ⟨before, v, reaches, returned, found⟩

theorem writesBelow (describes : ledger.Describes Options.largestAllowance s)
    (there : s.chains[c]? = some chain) (made : ledger.nodes ⟨k, n⟩)
    (allowed : o.maxIterations ≤ Options.largestAllowance) :
    WritesBelow s chain o n ((evaluate chain o n).run s).1 ((evaluate chain o n).run s).2 := by
  refine ⟨rfl, fun held apart => ?_, fun v returned => ?_, fun e failed => ?_,
    fun held differs => ?_⟩
  · by_contra differs
    obtain ⟨_, _, reaches, _⟩ := reached_of_changed describes made (held.recorded describes) differs
    exact apart reaches.mem_parts
  · exact Node.find?_of_evaluate_eq_ok (Prod.ext returned rfl)
  · by_contra differs
    obtain ⟨before, v, reaches, returned, _⟩ := reached_of_changed describes made made differs
    -- The node is called once only, and that call failed.
    cases reaches.eq_of_node_eq rfl
    rw [show ((n.evaluate chain o).run s.memo.newCall).1 = .error e from failed] at returned
    cases returned
  · obtain ⟨before, v, reaches, returned, found⟩ :=
      reached_of_changed describes made (held.recorded describes) differs
    refine ⟨before, v, reaches, returned, found, ?_⟩
    have justified := ((describes.evaluate_meets there allowed made).agrees
      describes.remembered.newCall).all _ _ _ found
    rw [Chain.evaluate_content (describes.chains.matrixCurrent c chain there)]
    exact (describes.justifies_iff there o (held.recorded describes) v).mp justified

theorem forgets (describes : ledger.Describes limit s) (made : ledger.nodes ⟨k, n⟩) :
    Forgets s n { s with memo := n.forget s.memo } := by
  refine ⟨rfl, fun part member => ?_, fun {k' m} held apart => ?_⟩
  · rw [Memo.find?_forget, Node.ids_eq, if_pos (List.mem_map_of_mem member)]
  · rw [Memo.find?_forget, Node.ids_eq, if_neg]
    intro listed
    obtain ⟨part, member, same⟩ := List.mem_map.mp listed
    have known := describes.nodes.parts _ made part member
    cases describes.nodes.unique part ⟨k', m⟩ known (held.recorded describes) same
    exact apart member

end Described

theorem run_reset {name : String} {n : Node.Any Float} (named : s.formulas.find? name = some n) :
    (run (.reset name)).run s = (.ok .done, { s with memo := n.node.forget s.memo }) := by
  have found : (node name).run s = (.ok n, s) := by
    rw [run_node, named]
    rfl
  exact Outcome.run_bind_ok found

/-- After every history of commands, evaluating a formula that the session holds changes only what
the formula and its parts remember: its own result if it returns one, nothing of its own if it
fails, and in either case only results of parts that were evaluated with success. Resetting it
makes exactly the formula and its parts forget. -/
theorem evaluate_writes_below (history : List Command)
    (machine : ∀ command ∈ history, command.allowance ≤ Options.largestAllowance)
    {c : Nat} {chain : Chain Float} (there : (start.after history).chains[c]? = some chain)
    {k : Kind} {n : Node Float k} (held : (start.after history).Holds n)
    {o : Options Float} (allowed : o.maxIterations ≤ Options.largestAllowance) :
    let s := start.after history
    WritesBelow s chain o n ((evaluate chain o n).run s).1 ((evaluate chain o n).run s).2 ∧
      Forgets s n { s with memo := n.forget s.memo } ∧
      ∀ name, s.formulas.find? name = some ⟨k, n⟩ →
        (run (.reset name)).run s = (.ok .done, { s with memo := n.forget s.memo }) := by
  intro s
  obtain ⟨ledger, describes⟩ := exists_ledger history machine
  have known := held.recorded describes
  exact ⟨writesBelow describes there known allowed, forgets describes known,
    fun name named => run_reset named⟩

/-- A shared label, its negation, and an until over both that is told to stop after the first of its
two steps: the parts were evaluated and remember their results, the whole failed and remembers
nothing new. -/
theorem evaluate_writes_below_cancelled :
    let history : List Command := [.addState 0 none [], .addState 0 none ["a"],
      .addTransition 0 0 1 0.5, .formula "a" (.operator (.atom "a")),
      .formula "not a" (.operator (.not "a")),
      .formula "until" (.operator (.strongUntil "not a" "a" (some 2)))]
    let chain : Chain Float :=
      ⟨0, 3, #[⟨0, "s0", []⟩, ⟨1, "s1", ["a"]⟩], [⟨0, 1, 0.5⟩], some 0, none⟩
    let o : Options Float := { (Options.default : Options Float) with cancelledAfter := some 1 }
    let a : Node Float .state := .atom 0 "a"
    let n : Node Float .path := .strongUntil 2 (.not 1 a) a (some 2)
    let s := start.after history
    let outcome := (evaluate chain o n).run s
    s.chains[0]? = some chain ∧ s.Holds n ∧ s.Holds (.not 1 a) ∧
      outcome.1 = .error .cancelled ∧
      outcome.2.memo.find? .path 2 = s.memo.find? .path 2 ∧
      outcome.2.memo.find? .state 1 ≠ s.memo.find? .state 1 ∧
      ∃ v, outcome.2.memo.find? .state 1 = some ⟨.of chain o, v⟩ ∧
        chain.content.evaluate o.unhindered (Node.not 1 a).formula = .ok v := by
  intro history chain o a n s outcome
  have there : s.chains[0]? = some chain := by with_unfolding_all rfl
  have named : s.formulas.find? "until" = some ⟨.path, n⟩ := by with_unfolding_all rfl
  have held : s.Holds n := ⟨"until", ⟨.path, n⟩, named, Node.mem_parts_self n⟩
  have part : s.Holds (.not 1 a) := ⟨"until", ⟨.path, n⟩, named, by simp [n, Node.parts]⟩
  have machine : ∀ command ∈ history, command.allowance ≤ Options.largestAllowance := by decide
  have writes := (evaluate_writes_below history machine there held (o := o) (by decide)).1
  -- Both operands return, and the until over their values is told to stop.
  have admits : chain.requireStates = .ok () := by with_unfolding_all rfl
  have stops : (chain.untilPolling o ((chain.labelled "a").complement chain.size)
      (chain.labelled "a") (some 2)).run 0 = .error .cancelled := by decide +kernel
  have fresh : s.memo = Memo.empty := by with_unfolding_all rfl
  have ends : outcome.1 = .error .cancelled ∧ (outcome.2.memo.find? .state 1).isSome = true := by
    change ((n.evaluate chain o).run s.memo.newCall).1 = _ ∧
      (((n.evaluate chain o).run s.memo.newCall).2.find? .state 1).isSome = true
    rw [fresh]
    clear_value chain o
    have keeps {β : Type} (b : β) (memo : Memo Float) :
        (StateT.pure b : StateM (Memo Float) β) memo = (b, memo) := rfl
    simp [n, a, Node.evaluate, memoized, Memo.find?, Memo.note, Memo.store, Memo.empty,
      Memo.newCall, EvalM.ofExcept, EvalM.ofPolling, ExceptT.run, bind, ExceptT.bind,
      ExceptT.bindCont, ExceptT.mk, pure, ExceptT.pure, StateT.bind, keeps,
      Std.HashMap.getElem_insert, stops, admits]
  have differs : outcome.2.memo.find? .state 1 ≠ s.memo.find? .state 1 := by
    intro same
    rw [same, fresh] at ends
    simp [Memo.find?, Memo.empty] at ends
  obtain ⟨_, v, _, _, found, value⟩ := writes.changed part differs
  exact ⟨there, held, part, ends.1, writes.failed _ ends.1, differs, v, found, value⟩

end Session

end MarkovCheck

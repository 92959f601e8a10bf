import Mathlib.Algebra.Order.BigOperators.Group.List
import Mathlib.Algebra.Order.Group.Nat
import MarkovCheck.Proofs.Formula.Sharing
import MarkovCheck.Proofs.Session.Transparency

/-!
# Shared parts in a session

The nodes that a session makes have new identities, and share the parts of nodes that it has
already. So in every formula of a session an identity stands for one part, in however many places
it occurs, and an evaluation computes it once.

* `Node.Coherent`: an identity stands for one part
* `Session.Holds.coherent`: so it is in the formulas of every session
* `Node.evaluate_computes_once`: an evaluation computes each identity at most once, and not again
  right after it
-/

namespace MarkovCheck

/-- Parts of the node with the same identity are the same. -/
def Node.Coherent {α : Type} {k : Kind} (n : Node α k) : Prop :=
  ∀ part ∈ n.parts, ∀ other ∈ n.parts, part.node.id = other.node.id → part = other

/-- In the formulas that a session holds after any history, an identity stands for one part. -/
theorem Session.Holds.coherent {history : List Command} {k : Kind} {n : Node Float k}
    (held : (start.after history).Holds n) : n.Coherent := by
  have allowed : ∀ command ∈ history, command.allowance ≤ (history.map Command.allowance).sum :=
    fun command member => List.le_sum_of_mem (List.mem_map_of_mem member)
  obtain ⟨ledger, describes⟩ := exists_ledger history allowed
  have recorded (part : Node.Any Float) (member : part ∈ n.parts) : ledger.nodes part :=
    describes.nodes.parts _ (held.recorded describes) part member
  intro part member other member' same
  exact describes.nodes.unique part other (recorded part member) (recorded other member') same

namespace Node

variable {α : Type} [Scalar α] {k : Kind} {n : Node α k}

/-! ## A formula with many parts -/

/-- A label, joined with itself over and over. -/
def doubled (label : String) : Nat → Node α .state
  | 0 => .atom 0 label
  | k + 1 => .and (k + 1) (doubled label k) (doubled label k)

omit [Scalar α] in
theorem length_parts_doubled (label : String) (k : Nat) :
    (doubled label k : Node α .state).parts.length + 1 = 2 ^ (k + 1) := by
  induction k with
  | zero => rfl
  | succ k inductionHypothesis =>
    rw [pow_succ, ← inductionHypothesis, doubled, parts, List.length_cons, List.length_append]
    omega

theorem evaluate_doubled_eq_ok (c : Chain α) (o : Options α) (label : String) (k : Nat)
    (memo : Memo α) :
    ∃ v memo', ((doubled label k).evaluate c o).run memo = (.ok v, memo') := by
  induction k generalizing memo with
  | zero =>
    obtain ⟨v, _, run⟩ | ⟨_, run⟩ :=
      run_memoized (k := .state) (.of c o) 0 (pure (c.labelled label)) memo
    · exact ⟨v, memo, run⟩
    · exact ⟨c.labelled label, _, run⟩
  | succ k inductionHypothesis =>
    obtain ⟨v, _, run⟩ | ⟨_, run⟩ := run_memoized (k := .state) (.of c o) (k + 1) (do
      let l ← (doubled label k).evaluate c o
      let r ← (doubled label k).evaluate c o
      return StateSet.inter l r) memo
    · exact ⟨v, memo, run⟩
    · obtain ⟨l, first, left⟩ := inductionHypothesis (memo.note (k + 1))
      obtain ⟨r, second, right⟩ := inductionHypothesis first
      rw [Outcome.run_bind_ok left, Outcome.run_bind_ok right] at run
      exact ⟨l.inter r, _, run⟩

/-! ## Evaluation -/

/-- One evaluation of a node in which each identity stands for one part computes no identity more
than once, whatever the memory holds: the identities it lists belong to different parts, none of
which had a result under the current key, and the node is one of them exactly if it is neither
refused nor known. After a success, another evaluation with the same chain, method and tolerance
returns the same and computes nothing. -/
theorem evaluate_computes_once (coherent : n.Coherent) (c : Chain α) (o : Options α)
    (memo : Memo α) :
    let outcome := (n.evaluate c o).run memo
    (∃ anew : List (Node.Any α),
      outcome.2.computed = (anew.map fun part => part.node.id) ++ memo.computed ∧
      (anew.map fun part => part.node.id).Nodup ∧
      (∀ part ∈ anew, part ∈ n.parts ∧ part.node.Computes c o memo) ∧
      (⟨k, n⟩ ∈ anew ↔ n.Computes c o memo)) ∧
    ∀ v, outcome.1 = .ok v → ∀ again : Options α,
      again.method = o.method → again.tolerance = o.tolerance →
      (n.evaluate c again).run outcome.2 = (.ok v, outcome.2) := by
  intro outcome
  constructor
  · obtain ⟨anew, inside, itself, computed⟩ := n.evaluate_computesParts c o memo
    refine ⟨anew, computed.listed, computed.nodup.map_on fun part member other member' same => ?_,
      fun part member => ⟨inside member, computed.computes part member⟩, itself⟩
    exact coherent part (inside member) other (inside member') same
  · intro v returned again method tolerance
    have ends : (n.evaluate c o).run memo = (.ok v, outcome.2) := Prod.ext returned rfl
    have key : EvalKey.of c again = .of c o := by
      rw [EvalKey.of, EvalKey.of, method, tolerance]
    refine evaluate_of_find? (admitted_of_evaluate_eq_ok ends) ?_
    rw [key]
    exact find?_of_evaluate_eq_ok ends

set_option maxRecDepth 2000 in
/-- A label is asked for, a second state with the label is added, and then the label is joined with
itself eight times over. The formula has 511 parts but nine identities, and evaluating it computes
none of these twice; what the label remembers is about one state, so it is not used. Asking again is
answered from memory, even when told to stop. -/
theorem evaluate_computes_once_doubled :
    let history : List Command := [.addState 0 none ["a"], .formula "x" (.operator (.atom "a")),
      .check 0 "x" Settings.default, .addState 0 none ["a"]] ++
        List.replicate 8 (.formula "x" (.operator (.and "x" "x")))
    let s := Session.start.after history
    let earlier : Chain Float := ⟨0, 1, #[⟨0, "s0", ["a"]⟩], [], some 0, none⟩
    let chain : Chain Float := ⟨0, 2, #[⟨0, "s0", ["a"]⟩, ⟨1, "s1", ["a"]⟩], [], some 0, none⟩
    let n : Node Float .state := doubled "a" 8
    let o : Options Float := Options.default
    let outcome := (n.evaluate chain o).run s.memo
    s.chains[0]? = some chain ∧ s.Holds n ∧ n.Coherent ∧ n.parts.length + 1 = 2 ^ 9 ∧
      s.memo = (Memo.empty.note 0).store .state 0 ⟨.of earlier o, ⟨#[1], 1⟩⟩ ∧
      (∃ anew : List Nat, outcome.2.computed = anew ++ [0] ∧ anew.Nodup ∧ anew ⊆ List.range 9 ∧
        8 ∈ anew) ∧
      ∃ v, outcome.1 = .ok v ∧
        (n.evaluate chain { o with cancelledAfter := some 0 }).run outcome.2 =
          (.ok v, outcome.2) := by
  intro history s earlier chain n o outcome
  have there : s.chains[0]? = some chain := by with_unfolding_all rfl
  have named : s.formulas.find? "x" = some ⟨.state, n⟩ := by with_unfolding_all rfl
  have held : s.Holds n := ⟨"x", ⟨.state, n⟩, named, Node.mem_parts_self n⟩
  have memory : s.memo = (Memo.empty.note 0).store .state 0 ⟨.of earlier o, ⟨#[1], 1⟩⟩ := by
    with_unfolding_all rfl
  have asked : s.memo.computed = [0] := congrArg Memo.computed memory
  have identities : ∀ id ∈ n.ids, id ∈ List.range 9 := by decide +kernel
  obtain ⟨⟨anew, listed, nodup, below, itself⟩, remembers⟩ :=
    evaluate_computes_once held.coherent chain o s.memo
  refine ⟨there, held, held.coherent, length_parts_doubled "a" 8, memory,
    ⟨_, asked ▸ listed, nodup, ?_, ?_⟩, ?_⟩
  · intro id member
    obtain ⟨part, computed, rfl⟩ := List.mem_map.mp member
    refine identities _ ?_
    rw [ids_eq]
    exact List.mem_map_of_mem (below part computed).1
  · have unknown : s.memo.find? .state 8 = none := by
      rw [memory, Memo.find?_store_of_ne _ _ (by simp), Memo.find?_note]
      simp [Memo.empty, Memo.find?]
    have computes : n.Computes chain o s.memo := by
      refine ⟨fun refused => ?_, fun entry found => ?_⟩
      · cases refused.1
      · cases unknown.symm.trans found
    exact List.mem_map_of_mem (itself.mpr computes)
  · obtain ⟨v, memo', run⟩ := evaluate_doubled_eq_ok chain o "a" 8 s.memo
    have returned : outcome.1 = .ok v := congrArg Prod.fst run
    exact ⟨v, returned, remembers v returned { o with cancelledAfter := some 0 } rfl rfl⟩

end Node

end MarkovCheck

import MarkovCheck.Proofs.Session.Ledger

/-!
# Memory does not change answers

Whatever a session has done before, evaluating a formula from memory gives the value that the
formula has for the present content of the chain, and fails only where evaluation without memory
fails as well.
-/

namespace MarkovCheck

/-- The largest number of iterations that fits in 64 bits. -/
def Options.largestAllowance : Nat := 18446744073709551615

/-- The same method and tolerance, with the largest allowance and no signal to stop. -/
def Options.unhindered {α : Type} (o : Options α) : Options α :=
  { o with maxIterations := largestAllowance, cancelledAfter := none }

namespace Session

/-- The node is a formula that has a name in the session, or part of one. -/
def Holds (s : Session) {k : Kind} (n : Node Float k) : Prop :=
  ∃ name whole, s.formulas.find? name = some whole ∧ ⟨k, n⟩ ∈ whole.node.parts

theorem Holds.recorded {ledger : Ledger} {limit : Nat} {s : Session}
    (describes : ledger.Describes limit s) {k : Kind} {n : Node Float k} (held : s.Holds n) :
    ledger.nodes ⟨k, n⟩ := by
  obtain ⟨name, whole, named, part⟩ := held
  exact describes.nodes.parts _ (describes.nodes.named name whole named) _ part

/-- After every history of commands, evaluation of a formula that the session holds returns only the
value that evaluation without memory has on the content of the chain, unhindered by allowance and
signal; and it fails only if evaluation without memory fails under the very same settings. -/
theorem evaluate_transparent (history : List Command)
    (machine : ∀ command ∈ history, command.allowance ≤ Options.largestAllowance)
    {c : Nat} {chain : Chain Float} (there : (start.after history).chains[c]? = some chain)
    {k : Kind} {n : Node Float k} (held : (start.after history).Holds n)
    {o : Options Float} (allowed : o.maxIterations ≤ Options.largestAllowance) :
    (∀ v, ((evaluate chain o n).run (start.after history)).1 = .ok v →
      chain.content.evaluate o.unhindered n.formula = .ok v) ∧
    (∀ e, ((evaluate chain o n).run (start.after history)).1 = .error e →
      ∃ e', chain.content.evaluate o n.formula = .error e') := by
  obtain ⟨ledger, describes⟩ := exists_ledger history machine
  obtain ⟨name, whole, named, part⟩ := held
  have made := describes.nodes.parts _ (describes.nodes.named name whole named) _ part
  have agrees :=
    (describes.evaluate_meets there allowed made).agrees describes.remembered.newCall
  have current := describes.chains.matrixCurrent c chain there
  constructor
  · intro v returned
    rw [Chain.evaluate_content current]
    exact agrees.returns v returned
  · intro e failed
    obtain ⟨e', ends⟩ := agrees.fails e failed
    rw [Chain.evaluate_content current]
    exact ⟨e', Polling.run'_eq_error ends⟩

/-- A label is asked for, a second state with the label is added, and the label is asked for again:
the result remembered for one state is not used for two. -/
theorem evaluate_transparent_grown :
    let history : List Command := [.addState 0 none ["a"], .formula "a" (.operator (.atom "a")),
      .check 0 "a" Settings.default, .addState 0 none ["a"]]
    let n : Node Float .state := .atom 0 "a"
    let chain : Chain Float := ⟨0, 2, #[⟨0, "s0", ["a"]⟩, ⟨1, "s1", ["a"]⟩], [], some 0, none⟩
    (start.after history).chains[0]? = some chain ∧ (start.after history).Holds n ∧
      ((evaluate chain Options.default n).run (start.after history)).1 = .ok ⟨#[3], 2⟩ ∧
      chain.content.evaluate Options.default.unhindered n.formula = .ok ⟨#[3], 2⟩ := by
  intro history n chain
  have there : (start.after history).chains[0]? = some chain := by with_unfolding_all rfl
  have held : (start.after history).Holds n :=
    ⟨"a", ⟨.state, n⟩, by with_unfolding_all rfl, Node.mem_parts_self n⟩
  have returned : ((evaluate chain Options.default n).run (start.after history)).1 =
      .ok ⟨#[3], 2⟩ := by with_unfolding_all rfl
  have machine : ∀ command ∈ history, command.allowance ≤ Options.largestAllowance := by decide
  exact ⟨there, held, returned,
    (evaluate_transparent history machine there held (by decide)).1 _ returned⟩

end Session

end MarkovCheck

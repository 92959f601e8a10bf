import MarkovCheck.Proofs.Formula.Safety
import MarkovCheck.Proofs.Session.Transparency

/-!
# Evaluation in a session is safe

Whatever a session has done before, evaluation ends with a value that fits the chain or with an
error that the settings and the formula allow. It never asks for a state that the chain does not
have, and its analyses never subtract more states than there are.

The chains of a session are made by operations, so they are well formed. What is remembered under
the key of a chain was computed for its present content, so it fits as a value just computed does.
-/

namespace MarkovCheck

/-- What an analysis relies on without a test: the states that it counts as goal, blocked and good
are different own states, and the equations that it sets up fit. -/
structure Chain.Sound (c : Chain Float) (goal forbidden : StateSet) (stepBounded : Bool) :
    Prop where
  tally : goal.size + (forbidden.diff goal).size +
    (c.backward goal (forbidden.diff goal)).size ≤ c.size
  equations : ∃ system, c.system goal forbidden stepBounded = .ok system ∧ system.Fits c.size

namespace Session

/-! ## Chains -/

theorem Change.constructed {limit : Nat} {s t : Session} (change : Change limit s t)
    (made : ∀ (c : Nat) (chain : Chain Float), s.chains[c]? = some chain → chain.Constructed)
    (c : Nat) (chain : Chain Float) (there : t.chains[c]? = some chain) : chain.Constructed := by
  have pushed {new : Chain Float} (constructed : new.Constructed)
      (there : (s.chains.push new)[c]? = some chain) : chain.Constructed := by
    rw [Array.getElem?_push] at there
    split at there
    · cases there
      exact constructed
    · exact made c chain there
  cases change with
  | newChain => exact pushed (.empty _) there
  | duplicate found => exact pushed (.duplicate (made _ _ found) _) there
  | chain found changed =>
    rw [Array.getElem?_setIfInBounds] at there
    split at there
    · split at there
      · cases there
        exact .change (made _ _ found) changed
      · cases there
    · exact made c chain there
  | formula | evaluate | forget | distributions | signals => exact made c chain there

/-- Some allowance covers all commands of a history. -/
theorem exists_limit (history : List Command) (least : Nat) :
    ∃ limit, least ≤ limit ∧ ∀ command ∈ history, command.allowance ≤ limit := by
  induction history with
  | nil => exact ⟨least, Nat.le_refl least, fun _ member => nomatch member⟩
  | cons command rest inductionHypothesis =>
    obtain ⟨limit, enough, covers⟩ := inductionHypothesis
    refine ⟨max limit command.allowance, by omega, ?_⟩
    intro other member
    obtain rfl | member := List.mem_cons.mp member
    · exact Nat.le_max_right _ _
    · exact Nat.le_trans (covers other member) (Nat.le_max_left _ _)

/-- Every chain of a session was made by operations. -/
theorem constructed_after (history : List Command) (c : Nat) (chain : Chain Float)
    (there : (start.after history).chains[c]? = some chain) : chain.Constructed := by
  obtain ⟨limit, _, covers⟩ := exists_limit history 0
  refine (after_steps history covers start).keeps (P := fun s => ∀ (c : Nat) (chain : Chain Float),
    s.chains[c]? = some chain → chain.Constructed) Change.constructed ?_ c chain there
  intro c chain there
  cases c with
  | zero =>
    cases there
    exact .empty 0
  | succ c => cases there

/-! ## Evaluation -/

section Described

variable {ledger : Ledger} {limit : Nat} {s : Session} {c : Nat} {chain : Chain Float}
  {o : Options Float} {k : Kind} {n : Node Float k}

theorem fits_of_returned (describes : ledger.Describes limit s) (there : s.chains[c]? = some chain)
    (made : chain.WellFormed) (allowed : o.maxIterations ≤ limit) (known : ledger.nodes ⟨k, n⟩)
    {memo : Memo Float} (all : memo.All (ledger.Justifies limit)) {v : Value Float k}
    (returned : ((n.evaluate chain o).run memo).1 = .ok v) : Value.Fits chain.size v :=
  made.evaluate_fits
    (((describes.evaluate_meets there allowed known).agrees all).returns v returned)

theorem mayFail_of_failed (describes : ledger.Describes limit s)
    (there : s.chains[c]? = some chain) (made : chain.WellFormed) (allowed : o.maxIterations ≤ limit)
    (known : ledger.nodes ⟨k, n⟩) {memo : Memo Float} (all : memo.All (ledger.Justifies limit))
    {e : Error Float} (failed : ((n.evaluate chain o).run memo).1 = .error e) :
    chain.MayFail o n.formula e :=
  Node.evaluate_failsOnly made ⟨k, n⟩ (fun part member => describes.evaluate_meets there allowed
    (describes.nodes.parts _ known part member)) memo all e failed

theorem sound_of_reached (describes : ledger.Describes limit s) (there : s.chains[c]? = some chain)
    (made : chain.WellFormed) (allowed : o.maxIterations ≤ limit) (known : ledger.nodes ⟨k, n⟩)
    {memo : Memo Float} (all : memo.All (ledger.Justifies limit)) {id : Nat}
    {lhs rhs : Node Float .state} {bound : Option Nat} {before between after : Memo Float}
    {l r : StateSet}
    (reaches : Call.Reaches chain o ⟨⟨k, n⟩, memo⟩ ⟨⟨.path, .strongUntil id lhs rhs bound⟩, before⟩)
    (computes : (Node.strongUntil id lhs rhs bound).Computes chain o before)
    (left : (lhs.evaluate chain o).run (before.note id) = (.ok l, between))
    (right : (rhs.evaluate chain o).run between = (.ok r, after)) :
    chain.Sound r (l.complement chain.size) bound.isSome := by
  have parts := describes.nodes.parts _ known
  -- Evaluation keeps the memory justified, so it is when the call is made.
  have justified : before.All (ledger.Justifies limit) :=
    reaches.keeps (P := fun memo => memo.All (ledger.Justifies limit))
      (fun _ id all => all.note id)
      (fun part member _ all =>
        ((describes.evaluate_meets there allowed (parts part member)).agrees all).all) all
  have inside {m : Node Float .state}
      (member : ⟨.state, m⟩ ∈ (Node.strongUntil id lhs rhs bound).operands) :
      ledger.nodes ⟨.state, m⟩ :=
    parts _ (Node.mem_parts_trans reaches.mem_parts (Node.mem_parts_of_mem_operands member))
  have kept := ((describes.evaluate_meets there allowed
    (inside (m := lhs) (by simp [Node.operands]))).agrees (justified.note id)).all
  rw [left] at kept
  have fits : Value.Fits chain.size (k := .state) r :=
    fits_of_returned describes there made allowed (inside (m := rhs) (by simp [Node.operands])) kept
      (congrArg Prod.fst right)
  have nonempty : 0 < chain.size := Nat.pos_of_ne_zero fun empty => computes.admitted ⟨rfl, empty⟩
  exact ⟨made.tally_le fits.1 fits.2 (StateSet.within_complement l chain.size),
    made.system_fits nonempty fits.1 (StateSet.within_complement l chain.size) bound.isSome⟩

end Described

/-- After every history of commands, for every formula that the session holds and all settings:
a value that evaluation returns fits the chain. On a chain without states evaluation says so exactly
if the formula asks for probabilities, and returns otherwise. On a chain with states it fails only
because an until without a step bound used up its allowance or because it was told to stop; never
because of a misuse. Transitions join own states, and every analysis made during the evaluation is
sound. -/
theorem evaluate_safe (history : List Command) {c : Nat} {chain : Chain Float}
    (there : (start.after history).chains[c]? = some chain) {k : Kind} {n : Node Float k}
    (held : (start.after history).Holds n) (o : Options Float) :
    let s := start.after history
    let result := ((evaluate chain o n).run s).1
    (∀ v, result = .ok v → Value.Fits chain.size v) ∧
    (chain.size = 0 → (result = .error .noStates ↔ n.formula.NeedsStates) ∧
      (¬ n.formula.NeedsStates → ∃ v, result = .ok v)) ∧
    (0 < chain.size → ∀ e, result = .error e →
      (∃ change, e = .notConverged o.maxIterations change ∧ n.formula.hasUnboundedUntil = true) ∨
        e = .cancelled ∧ ∃ vain, o.cancelledAfter = some vain) ∧
    result ≠ .error .misuse ∧
    (∀ t ∈ chain.transitions, t.source < chain.size ∧ t.target < chain.size) ∧
    ∀ {id : Nat} {lhs rhs : Node Float .state} {bound : Option Nat}
      {before between after : Memo Float} {l r : StateSet},
      Call.Reaches chain o ⟨⟨k, n⟩, s.memo.newCall⟩
        ⟨⟨.path, .strongUntil id lhs rhs bound⟩, before⟩ →
      (Node.strongUntil id lhs rhs bound).Computes chain o before →
      (lhs.evaluate chain o).run (before.note id) = (.ok l, between) →
      (rhs.evaluate chain o).run between = (.ok r, after) →
      chain.Sound r (l.complement chain.size) bound.isSome := by
  intro s result
  obtain ⟨limit, allowed, covers⟩ := exists_limit history o.maxIterations
  obtain ⟨ledger, describes⟩ := exists_ledger history covers
  have made := (constructed_after history c chain there).wellFormed
  have known := held.recorded describes
  have all := describes.remembered.newCall
  have mayFail : ∀ e, result = .error e → chain.MayFail o n.formula e := fun e =>
    mayFail_of_failed describes there made allowed known all
  refine ⟨fun v => fits_of_returned describes there made allowed known all, fun empty => ?_,
    fun nonempty e failed => ?_, fun failed => ?_, made.own,
    sound_of_reached describes there made allowed known all⟩
  · have returns (v : Value Float k) (returned : result = .ok v) : ¬ n.formula.NeedsStates := by
      intro needs
      have value := ((describes.evaluate_meets there allowed known).agrees all).returns v returned
      exact absurd empty (Nat.ne_of_gt (Chain.nonempty_of_evaluate_eq_ok value needs))
    have fails (e : Error Float) (failed : result = .error e) :
        e = .noStates ∧ n.formula.NeedsStates := by
      cases mayFail e failed with
      | noStates _ needs => exact ⟨rfl, needs⟩
      | cancelled nonempty | notConverged nonempty => omega
    cases outcome : result with
    | ok v =>
      have free := returns v outcome
      simp [free]
    | error e =>
      obtain ⟨rfl, needs⟩ := fails e outcome
      simp [needs]
  · cases mayFail e failed with
    | noStates empty => omega
    | cancelled _ told => exact .inr ⟨rfl, _, told⟩
    | notConverged _ endless change => exact .inl ⟨change, rfl, endless⟩
  · cases mayFail _ failed

set_option maxRecDepth 1000 in
/-- A label was checked for two states before a third one came: an until over the label returns
three probabilities on that chain, from a sound analysis of the two states that now have the label,
and on a chain without states it says that there are none. -/
theorem evaluate_safe_grown :
    let history : List Command := [.addState 0 none [], .addState 0 none ["a"],
      .addTransition 0 0 1 0.5, .formula "a" (.operator (.atom "a")),
      .check 0 "a" Settings.default, .addState 0 none ["a"],
      .formula "until" (.operator (.strongUntil "a" "a" (some 2))), .newChain]
    let chain : Chain Float := ⟨0, 4, #[⟨0, "s0", []⟩, ⟨1, "s1", ["a"]⟩, ⟨2, "s2", ["a"]⟩],
      [⟨0, 1, 0.5⟩], some 0, none⟩
    let a : Node Float .state := .atom 0 "a"
    let n : Node Float .path := .strongUntil 1 a a (some 2)
    let labelled : StateSet := ⟨#[6], 2⟩
    let s := start.after history
    s.chains[0]? = some chain ∧ s.chains[1]? = some (Chain.empty 1) ∧ s.Holds n ∧
      (∃ v : Array Float,
        ((evaluate chain Options.default n).run s).1 = .ok v ∧ v.size = chain.size) ∧
      chain.Sound labelled (labelled.complement chain.size) true ∧
      ((evaluate (Chain.empty 1) Options.default n).run s).1 = .error .noStates := by
  intro history chain a n labelled s
  have there : s.chains[0]? = some chain := by with_unfolding_all rfl
  have empty : s.chains[1]? = some (Chain.empty 1) := by with_unfolding_all rfl
  have held : s.Holds n :=
    ⟨"until", ⟨.path, n⟩, by with_unfolding_all rfl, Node.mem_parts_self n⟩
  obtain ⟨fits, _, fails, _, _, sound⟩ := evaluate_safe history there held Options.default
  obtain ⟨_, refuses, _⟩ := evaluate_safe history empty held Options.default
  have computes : n.Computes chain Options.default s.memo.newCall := by
    have none : s.memo.vectors = ∅ := by with_unfolding_all rfl
    refine ⟨fun refused => absurd refused.2 (by decide), fun entry found => ?_⟩
    simp [Memo.find?, Memo.newCall, none] at found
  -- The label is evaluated anew the first time and remembered the second time.
  have first : ((a.evaluate chain Options.default).run (s.memo.newCall.note 1)).1 =
      .ok labelled := by with_unfolding_all rfl
  have second : ((a.evaluate chain Options.default).run
      ((a.evaluate chain Options.default).run (s.memo.newCall.note 1)).2).1 =
      .ok labelled := by with_unfolding_all rfl
  refine ⟨there, empty, held, ?_, sound .refl computes (Prod.ext first rfl) (Prod.ext second rfl),
    (refuses rfl).1.mpr (.inl rfl)⟩
  -- The until has a step bound and nobody says stop, so no error is left.
  cases outcome : ((evaluate chain Options.default n).run s).1 with
  | ok v => exact ⟨v, rfl, fits v outcome⟩
  | error e =>
    obtain ⟨_, _, endless⟩ | ⟨_, _, told⟩ := fails (by decide) e outcome
    · cases endless
    · cases told

end Session

end MarkovCheck

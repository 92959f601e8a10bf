import MarkovCheck.Session.Run
import MarkovCheck.Proofs.Chain.Changes
import MarkovCheck.Proofs.Formula.Parts

/-!
# How sessions change

`Session.Change` lists everything that carrying out a command can do to a session, and
`Session.Steps` are sequences of such changes. A failed command has made some of the changes that a
successful one makes. So whatever every change keeps holds after every history of commands.

* `Session.Change`: one change
* `EvolvesFrom`: a computation that only makes changes, with a rule for each way to combine two
* `run_steps`, `after_steps`: commands and histories only make changes
-/

namespace MarkovCheck

/-- How many iterations settings allow. -/
def Settings.allowance (settings : Settings) : Nat :=
  settings.maxIterations.getD (Options.default : Options Float).maxIterations

/-- How many iterations a command allows, the default where it does not say. -/
def Command.allowance : Command → Nat
  | .reach _ _ _ _ settings | .check _ _ settings | .path _ _ settings => settings.allowance
  | _ => (Options.default : Options Float).maxIterations

namespace Session

/-- The session after a list of commands. -/
def after (s : Session) : List Command → Session
  | [] => s
  | command :: rest => after ((run command).run s).2 rest

theorem after_append (s : Session) (first second : List Command) :
    s.after (first ++ second) = (s.after first).after second := by
  induction first generalizing s with
  | nil => rfl
  | cons command rest inductionHypothesis => exact inductionHypothesis _

/-- A node that a command can make in a session, with the first identity left after it. -/
inductive Makes (s : Session) : Node.Any Float → Nat → Prop where
  | formula (f : Formula.Any Float) :
      Makes s (Node.Any.ofFormula s.freshNode f).1 (Node.Any.ofFormula s.freshNode f).2
  | operator {op : Operator Float (Node.Any Float)} {n : Node.Any Float}
      (named : ∀ operand ∈ op.operands, ∃ name, s.formulas.find? name = some operand)
      (made : op.node s.freshNode = .ok n) : Makes s n (s.freshNode + 1)

/-- What a command can do to a session at once. Evaluations are allowed up to `limit`
iterations. -/
inductive Change (limit : Nat) (s : Session) : Session → Prop where
  | newChain : Change limit s { s with chains := s.chains.push (Chain.empty s.chains.size) }
  | duplicate {c : Nat} {chain : Chain Float} (there : s.chains[c]? = some chain) :
      Change limit s { s with chains := s.chains.push (chain.duplicate s.chains.size) }
  | chain {c : Nat} {chain chain' : Chain Float} (there : s.chains[c]? = some chain)
      (changed : chain.Change chain') :
      Change limit s { s with chains := s.chains.setIfInBounds c chain' }
  | formula {n : Node.Any Float} {fresh : Nat} (made : Makes s n fresh) (name : String) :
      Change limit s { s with freshNode := fresh, formulas := s.formulas.put name n }
  | evaluate {c : Nat} {chain : Chain Float} (there : s.chains[c]? = some chain)
      {name : String} {k : Kind} {n : Node Float k}
      (named : s.formulas.find? name = some ⟨k, n⟩) {o : Options Float}
      (allowed : o.maxIterations ≤ limit) :
      Change limit s { s with memo := ((n.evaluate chain o).run s.memo.newCall).2 }
  | forget {name : String} {n : Node.Any Float} (named : s.formulas.find? name = some n) :
      Change limit s { s with memo := n.node.forget s.memo }
  | distributions (table : Table (Distribution Float)) :
      Change limit s { s with distributions := table }
  | signals (table : Table Nat) : Change limit s { s with signals := table }

/-- Any number of changes, one after the other. -/
inductive Steps (limit : Nat) : Session → Session → Prop where
  | refl (s : Session) : Steps limit s s
  | step {s t u : Session} (change : Change limit s t) (rest : Steps limit t u) : Steps limit s u

variable {limit : Nat}

theorem Steps.single {s t : Session} (change : Change limit s t) : Steps limit s t :=
  .step change (.refl t)

theorem Steps.trans {s t u : Session} (first : Steps limit s t) (second : Steps limit t u) :
    Steps limit s u := by
  induction first with
  | refl => exact second
  | step change _ inductionHypothesis => exact .step change (inductionHypothesis second)

/-- What each change keeps, a sequence of changes keeps. -/
theorem Steps.keeps {s t : Session} (steps : Steps limit s t) {P : Session → Prop}
    (kept : ∀ {s t : Session}, Change limit s t → P s → P t) (holds : P s) : P t := by
  induction steps with
  | refl => exact holds
  | step change _ inductionHypothesis => exact inductionHypothesis (kept change holds)

/-! ## Computations that read -/

section Reads

variable {β γ : Type}

/-- A computation that leaves the session alone. -/
def Reads (x : SessionM β) : Prop := ∀ s, (x.run s).2 = s

theorem reads_pure (b : β) : Reads (pure b : SessionM β) := fun _ => rfl

theorem reads_throw (e : Error Float) : Reads (throw e : SessionM β) := fun _ => rfl

theorem reads_lift (r : Except (Error Float) β) : Reads (lift r) := fun _ => rfl

theorem run_chain (c : Nat) (s : Session) :
    (chain c).run s = (s.chains[c]?.elim (.error .misuse) .ok, s) := by
  change (require s.chains[c]?).run s = _
  cases s.chains[c]? <;> rfl

theorem run_node (f : String) (s : Session) :
    (node f).run s = ((s.formulas.find? f).elim (.error .misuse) .ok, s) := by
  change (require (s.formulas.find? f)).run s = _
  cases s.formulas.find? f <;> rfl

theorem run_distribution (d : String) (s : Session) :
    (distribution d).run s = ((s.distributions.find? d).elim (.error .misuse) .ok, s) := by
  change (require (s.distributions.find? d)).run s = _
  cases s.distributions.find? d <;> rfl

theorem reads_chain (c : Nat) : Reads (chain c) := fun s => by rw [run_chain]

theorem reads_node (f : String) : Reads (node f) := fun s => by rw [run_node]

theorem reads_distribution (d : String) : Reads (distribution d) := fun s => by
  rw [run_distribution]

theorem run_chain_eq_ok {c : Nat} {s : Session} {found : Chain Float}
    (returned : ((chain c).run s).1 = .ok found) : s.chains[c]? = some found := by
  rw [run_chain] at returned
  cases there : s.chains[c]? with
  | none => simp [there] at returned
  | some found' =>
    simp only [there, Option.elim_some, Except.ok.injEq] at returned
    rw [returned]

theorem run_node_eq_ok {f : String} {s : Session} {n : Node.Any Float}
    (returned : ((node f).run s).1 = .ok n) : s.formulas.find? f = some n := by
  rw [run_node] at returned
  cases there : s.formulas.find? f with
  | none => simp [there] at returned
  | some n' =>
    simp only [there, Option.elim_some, Except.ok.injEq] at returned
    rw [returned]

/-- A reading returns or fails, and the session is still the same. -/
theorem Reads.outcome {x : SessionM β} (reads : Reads x) (s : Session) :
    (∃ b, x.run s = (.ok b, s)) ∨ ∃ e, x.run s = (.error e, s) := by
  have unchanged := reads s
  cases ran : x.run s with
  | mk result s' =>
    rw [ran] at unchanged
    subst unchanged
    cases result with
    | ok b => exact .inl ⟨b, rfl⟩
    | error e => exact .inr ⟨e, rfl⟩

theorem Reads.bind {x : SessionM β} {f : β → SessionM γ} (first : Reads x)
    (second : ∀ b, Reads (f b)) : Reads (x >>= f) := by
  intro s
  obtain ⟨b, returned⟩ | ⟨e, failed⟩ := first.outcome s
  · rw [Outcome.run_bind_ok returned, second b]
  · rw [Outcome.run_bind_error failed]

/-- A sequence that starts with a reading returns what its second part returns in the same
session. -/
theorem Reads.run_bind_eq_ok {x : SessionM β} {f : β → SessionM γ} (reads : Reads x)
    {s : Session} {c : γ} (returned : ((x >>= f).run s).1 = .ok c) :
    ∃ b, (x.run s).1 = .ok b ∧ ((f b).run s).1 = .ok c := by
  obtain ⟨b, first⟩ | ⟨e, failed⟩ := reads.outcome s
  · rw [Outcome.run_bind_ok first] at returned
    exact ⟨b, congrArg Prod.fst first, returned⟩
  · rw [Outcome.run_bind_error failed] at returned
    cases returned

theorem Reads.map {x : SessionM β} (reads : Reads x) (f : β → γ) : Reads (f <$> x) := by
  rw [map_eq_pure_bind]
  exact reads.bind fun _ => reads_pure _

end Reads

/-! ## Computations that change the session -/

section Evolves

variable {β γ : Type} {s : Session}

/-- Run from a session, the computation makes changes and nothing else. -/
def EvolvesFrom (limit : Nat) (s : Session) (x : SessionM β) : Prop :=
  Steps limit s (x.run s).2

theorem Reads.evolves {x : SessionM β} (reads : Reads x) : EvolvesFrom limit s x := by
  simp only [EvolvesFrom]
  rw [reads s]
  exact .refl s

/-- After a reading, the session is the same and the value is the one read from it. -/
theorem EvolvesFrom.read {x : SessionM β} {f : β → SessionM γ} (reads : Reads x)
    (next : ∀ b, (x.run s).1 = .ok b → EvolvesFrom limit s (f b)) :
    EvolvesFrom limit s (x >>= f) := by
  simp only [EvolvesFrom]
  obtain ⟨b, returned⟩ | ⟨e, failed⟩ := reads.outcome s
  · rw [Outcome.run_bind_ok returned]
    exact next b (congrArg Prod.fst returned)
  · rw [Outcome.run_bind_error failed]
    exact .refl s

theorem EvolvesFrom.bind {x : SessionM β} {f : β → SessionM γ} (first : EvolvesFrom limit s x)
    (second : ∀ b t, EvolvesFrom limit t (f b)) : EvolvesFrom limit s (x >>= f) := by
  simp only [EvolvesFrom] at first ⊢
  cases outcome : x.run s with
  | mk result s' =>
    rw [outcome] at first
    cases result with
    | ok b =>
      rw [Outcome.run_bind_ok outcome]
      exact first.trans (second b s')
    | error e =>
      rw [Outcome.run_bind_error outcome]
      exact first

theorem EvolvesFrom.answer {x : SessionM β} (evolves : EvolvesFrom limit s x) (f : β → γ) :
    EvolvesFrom limit s (x >>= fun b => pure (f b)) :=
  evolves.bind fun b _ => (reads_pure (f b)).evolves

theorem run_takeSignal (name : String) (s : Session) :
    (takeSignal name).run s = match s.signals.find? name with
      | some polls => (.ok (some polls), { s with signals := s.signals.put name 0 })
      | none => (.ok none, s) := by
  change (match s.signals.find? name with
    | some polls => (do
      set { s with signals := s.signals.put name 0 }
      return some polls : SessionM (Option Nat))
    | none => pure none).run s = _
  cases s.signals.find? name <;> rfl

/-- Looking settings up allows as many iterations as they say, and can only change what is known of
the signals. -/
theorem run_options (settings : Settings) (s : Session) :
    ∃ o signals, (options settings).run s = (.ok o, { s with signals := signals }) ∧
      o.maxIterations = settings.allowance := by
  obtain ⟨method, tolerance, maxIterations, signal⟩ := settings
  cases signal with
  | none => exact ⟨_, s.signals, rfl, rfl⟩
  | some name =>
    have run := run_takeSignal name s
    cases found : s.signals.find? name with
    | some polls =>
      rw [found] at run
      exact ⟨_, _, Outcome.run_bind_ok run, rfl⟩
    | none =>
      rw [found] at run
      exact ⟨_, s.signals, Outcome.run_bind_ok run, rfl⟩

/-- After settings were looked up, only what is known of the signals can be different. -/
theorem EvolvesFrom.chooses {settings : Settings} {f : Options Float → SessionM β}
    (next : ∀ (o : Options Float) (signals : Table Nat), o.maxIterations = settings.allowance →
      EvolvesFrom limit { s with signals := signals } (f o)) :
    EvolvesFrom limit s (options settings >>= f) := by
  obtain ⟨o, signals, chosen, iterations⟩ := run_options settings s
  simp only [EvolvesFrom]
  rw [Outcome.run_bind_ok chosen]
  exact .step (.signals signals) (next o signals iterations)

theorem EvolvesFrom.forM {items : List β} {f : β → SessionM PUnit}
    (each : ∀ item t, EvolvesFrom limit t (f item)) : EvolvesFrom limit s (items.forM f) := by
  induction items generalizing s with
  | nil => exact (reads_pure _).evolves
  | cons item items inductionHypothesis =>
    exact (each item s).bind fun _ _ => inductionHypothesis

theorem evolves_setChain {c : Nat} {chain chain' : Chain Float} (there : s.chains[c]? = some chain)
    (changed : chain.Change chain') : EvolvesFrom limit s (setChain c chain') :=
  .single (.chain there changed)

theorem evolves_addState (c : Nat) (name : Option String) (labels : List String) :
    EvolvesFrom limit s (addState c name labels) :=
  .read (reads_chain c) fun chain returned =>
    (evolves_setChain (run_chain_eq_ok returned) (.addState chain name labels)).answer _

theorem evolves_addTransition (c source target : Nat) (p : Float) :
    EvolvesFrom limit s (addTransition c source target p) := by
  refine .read (reads_chain c) fun chain returned => .read (reads_lift _) fun result added => ?_
  exact (evolves_setChain (run_chain_eq_ok returned) (.addTransition added)).answer _

theorem evolves_keepDistribution (name : Option String) (d : Distribution Float) :
    EvolvesFrom limit s (keepDistribution name d) := by
  cases name with
  | none => exact (reads_pure _).evolves
  | some n => exact .single (.distributions _)

theorem evolves_evaluate {c : Nat} {chain : Chain Float} (there : s.chains[c]? = some chain)
    {name : String} {k : Kind} {n : Node Float k} (named : s.formulas.find? name = some ⟨k, n⟩)
    {o : Options Float} (allowed : o.maxIterations ≤ limit) :
    EvolvesFrom limit s (evaluate chain o n) :=
  .single (.evaluate there named allowed)

/-! ## Making nodes -/

theorem reads_resolve (op : Operator Float String) : Reads (makeNode.resolve op) := by
  cases op with
  | top | bot | atom => exact reads_pure _
  | and lhs rhs | or lhs rhs | strongUntil lhs rhs _ =>
    exact (reads_node lhs).bind fun _ => (reads_node rhs).bind fun _ => reads_pure _
  | not arg | prob _ arg | next arg => exact (reads_node arg).bind fun _ => reads_pure _

/-- The operands that names under an operator stand for have those names. -/
theorem run_resolve_eq_ok {op : Operator Float String} {resolved : Operator Float (Node.Any Float)}
    (returned : ((makeNode.resolve op).run s).1 = .ok resolved) :
    ∀ operand ∈ resolved.operands, ∃ name, s.formulas.find? name = some operand := by
  cases op with
  | top | bot | atom =>
    cases returned
    simp [Operator.operands]
  | and lhs rhs | or lhs rhs | strongUntil lhs rhs _ =>
    obtain ⟨l, leftNamed, rest⟩ := (reads_node lhs).run_bind_eq_ok returned
    obtain ⟨r, rightNamed, result⟩ := (reads_node rhs).run_bind_eq_ok rest
    cases result
    intro operand member
    simp only [Operator.operands, List.mem_cons, List.not_mem_nil, or_false] at member
    obtain rfl | rfl := member
    · exact ⟨lhs, run_node_eq_ok leftNamed⟩
    · exact ⟨rhs, run_node_eq_ok rightNamed⟩
  | not arg | prob _ arg | next arg =>
    obtain ⟨n, named, result⟩ := (reads_node arg).run_bind_eq_ok returned
    cases result
    intro operand member
    simp only [Operator.operands, List.mem_cons, List.not_mem_nil, or_false] at member
    subst member
    exact ⟨arg, run_node_eq_ok named⟩

/-- Making a node fails and changes nothing, or takes the identities that the node needs. -/
theorem run_makeNode (source : FormulaSource) (s : Session) :
    (∃ e, (makeNode source).run s = (.error e, s)) ∨
      ∃ n fresh, (makeNode source).run s = (.ok n, { s with freshNode := fresh }) ∧
        Makes s n fresh := by
  cases source with
  | text str =>
    cases parsed : Formula.parse str with
    | error e =>
      left
      refine ⟨e, ?_⟩
      simp only [makeNode, parsed]
      rfl
    | ok f =>
      right
      refine ⟨_, _, ?_, .formula f⟩
      simp only [makeNode, parsed]
      rfl
  | tree f => exact .inr ⟨_, _, rfl, .formula f⟩
  | invalid e => exact .inl ⟨e, rfl⟩
  | operator op =>
    obtain ⟨resolved, returned⟩ | ⟨e, failed⟩ := (reads_resolve op).outcome s
    · have named := run_resolve_eq_ok (congrArg Prod.fst returned)
      have run : (makeNode (.operator op)).run s = _ := Outcome.run_bind_ok returned
      -- The operator may still refuse the kinds of its operands.
      change _ = (lift (resolved.node s.freshNode) >>= _).run s at run
      cases made : resolved.node s.freshNode with
      | error e =>
        rw [made] at run
        exact .inl ⟨e, run⟩
      | ok n =>
        rw [made] at run
        exact .inr ⟨n, _, run, .operator named made⟩
    · exact .inl ⟨e, Outcome.run_bind_error failed⟩

theorem evolves_formula (name : String) (source : FormulaSource) :
    EvolvesFrom limit s (run (.formula name source)) := by
  simp only [EvolvesFrom]
  obtain ⟨e, failed⟩ | ⟨n, fresh, made, makes⟩ := run_makeNode source s
  · have run : (run (.formula name source)).run s = _ := Outcome.run_bind_error failed
    rw [run]
    exact .refl s
  · have run : (run (.formula name source)).run s = _ := Outcome.run_bind_ok made
    rw [run]
    exact .single (.formula makes name)

end Evolves

/-! ## Commands and histories -/

/-- Carrying out a command only makes changes. -/
theorem run_steps (command : Command) (allowed : command.allowance ≤ limit) (s : Session) :
    Steps limit s ((run command).run s).2 := by
  change EvolvesFrom limit s (run command)
  cases command with
  | newChain => exact EvolvesFrom.answer (.single .newChain) _
  | duplicate c =>
    refine .read (reads_chain c) fun chain returned => ?_
    exact EvolvesFrom.answer (.single (.duplicate (run_chain_eq_ok returned))) _
  | addState c name labels => exact (evolves_addState c name labels).answer _
  | addLabel c st label =>
    refine .read (reads_chain c) fun chain returned => .read (reads_lift _) fun chain' added => ?_
    exact (evolves_setChain (run_chain_eq_ok returned) (.addLabel added)).answer _
  | addTransition c source target p => exact (evolves_addTransition c source target p).answer _
  | setInitial c st =>
    refine .read (reads_chain c) fun chain returned => .read (reads_lift _) fun chain' chosen => ?_
    exact (evolves_setChain (run_chain_eq_ok returned) (.setInitial chosen)).answer _
  | build c states edges =>
    refine EvolvesFrom.bind (.forM fun state t => ?_) fun _ t =>
      EvolvesFrom.bind (.forM fun edge t => ?_) fun _ t => ?_
    · exact (evolves_addState c state.1 state.2).answer _
    · exact (evolves_addTransition c edge.1 edge.2.1 edge.2.2).answer _
    · exact ((reads_chain c).bind fun _ => reads_pure _).evolves
  | overview c | text c | state c _ | idOf c _ | successors c _ | probability c _ _ | labelled c _
  | reachableFrom c _ | anatomy c =>
    exact ((reads_chain c).bind fun _ => reads_pure _).evolves
  | hasLabel c st label =>
    exact (((reads_chain c).map _).bind fun _ => reads_pure _).evolves
  | matrix c =>
    refine .read (reads_chain c) fun chain returned => ?_
    exact (evolves_setChain (run_chain_eq_ok returned) (.keepMatrix chain)).answer _
  | validate c _ | checkStates c _ | dot c _ _ | reaching c _ | component c _ | period c _
  | canReach c _ _ =>
    exact ((reads_chain c).bind fun _ => (reads_lift _).bind fun _ => reads_pure _).evolves
  | sameKey a b | sameState a b =>
    exact ((reads_chain _).bind fun _ => (reads_chain _).bind fun _ => reads_pure _).evolves
  | reach c goal forbidden steps settings =>
    exact .chooses fun _ _ _ => ((reads_chain c).bind fun _ =>
      (reads_lift _).bind fun _ => reads_pure _).evolves
  | cancel name | cancelAfter name polls => exact .single (.signals _)
  | distribution c source name =>
    refine .read (reads_chain c) fun chain _ => .read (reads_lift _) fun d _ => ?_
    exact (evolves_keepDistribution name d).answer _
  | transient c steps start name =>
    refine .read (reads_chain c) fun chain _ => ?_
    cases start with
    | none =>
      refine .read (reads_lift _) fun d _ => ?_
      exact (evolves_keepDistribution name d).answer _
    | some n =>
      refine .read (reads_distribution n) fun d₀ _ => .read (reads_lift _) fun d _ => ?_
      exact (evolves_keepDistribution name d).answer _
  | total d => exact ((reads_distribution d).bind fun _ => reads_pure _).evolves
  | massOf d set => exact ((reads_distribution d).bind fun _ => reads_pure _).evolves
  | massAt d st =>
    exact ((reads_distribution d).bind fun _ => (reads_lift _).bind fun _ => reads_pure _).evolves
  | formula name source => exact evolves_formula name source
  | check c f settings =>
    refine .read (reads_node f) fun n named => .read (reads_lift _) fun φ kind =>
      .chooses fun o signals chosen => .read (reads_chain c) fun chain there => ?_
    -- The node evaluated is the one that has the name.
    cases Node.Any.toState_eq_ok kind
    have named := run_node_eq_ok named
    exact (evolves_evaluate (run_chain_eq_ok there) named (chosen ▸ allowed)).answer _
  | holdsInitially c f =>
    refine .read (reads_node f) fun n named => .read (reads_lift _) fun φ kind =>
      .read (reads_chain c) fun chain there => ?_
    cases Node.Any.toState_eq_ok kind
    cases chain.initial with
    | none => exact (reads_throw _).evolves
    | some st =>
      exact (evolves_evaluate (run_chain_eq_ok there) (run_node_eq_ok named) allowed).answer _
  | path c f settings =>
    refine .read (reads_node f) fun n named => .read (reads_lift _) fun ψ kind =>
      .chooses fun o signals chosen => .read (reads_chain c) fun chain there => ?_
    cases Node.Any.toPath_eq_ok kind
    have named := run_node_eq_ok named
    refine (evolves_evaluate (run_chain_eq_ok there) named (chosen ▸ allowed)).bind fun v t => ?_
    exact Reads.evolves fun _ => rfl
  | pathAt c f st =>
    refine .read (reads_node f) fun n named => .read (reads_lift _) fun ψ kind =>
      .read (reads_chain c) fun chain there => ?_
    cases Node.Any.toPath_eq_ok kind
    refine (evolves_evaluate (run_chain_eq_ok there) (run_node_eq_ok named) allowed).bind
      fun v t => ?_
    cases v[st]? with
    | none => exact (reads_throw _).evolves
    | some p => exact (reads_pure _).evolves
  | cached f =>
    exact ((reads_node f).bind fun n => fun _ => rfl).evolves
  | reset f =>
    refine .read (reads_node f) fun n named => ?_
    exact .single (.forget (run_node_eq_ok named))

/-- A history of commands only makes changes. -/
theorem after_steps (history : List Command)
    (allowed : ∀ command ∈ history, command.allowance ≤ limit) (s : Session) :
    Steps limit s (s.after history) := by
  -- Each command starts in the session that the commands before it leave.
  induction history generalizing s with
  | nil => exact .refl s
  | cons command rest inductionHypothesis =>
    have first := run_steps command (allowed command List.mem_cons_self) s
    exact first.trans (inductionHypothesis (fun later member =>
      allowed later (List.mem_cons_of_mem _ member)) _)

end Session

end MarkovCheck

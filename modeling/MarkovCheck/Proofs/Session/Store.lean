import Mathlib.Logic.Function.Basic
import MarkovCheck.Proofs.Chain.WellFormed
import MarkovCheck.Proofs.Session.Changes

/-!
# The chains that a session stores

Calls that make chains, change them or ask for their matrix, in any order and whether they succeed
or fail, keep every chain of a session in order: states are numbered by their place, there is an
initial state as soon as there is a state, each pair of states has at most one transition with the
probability that was given last, and the matrix is the one of the present transitions. A call that
fails leaves everything as it was.

* `StoreCall`: the calls, as commands of a session
* `StoreCall.record`, `Session.givenBy`: the probabilities given last, read off calls and answers
* `Session.Answers`, `Session.run_call`: everything that a call can do
* `Session.Records.run`, `Session.records_after`: what one call keeps, and any number of them
-/

namespace MarkovCheck

namespace Transition

variable {α : Type}

/-- After an insertion the pair of states of the new transition has the new one, and every other
pair the one it had. -/
theorem find?_insertInto (t : Transition α) (us : List (Transition α)) (i j : Nat) :
    ((t.insertInto us).find? fun u => u.source = i && u.target = j) =
      if t.source = i ∧ t.target = j then some t
      else us.find? fun u => u.source = i && u.target = j := by
  induction us with
  | nil => by_cases here : t.source = i ∧ t.target = j <;> simp [insertInto, here]
  | cons u us inductionHypothesis =>
    simp only [insertInto]
    split
    · next same =>
      obtain ⟨source, target⟩ := sameEdge_iff.mp same
      by_cases here : t.source = i ∧ t.target = j
      · simp [here]
      · -- The transition that is replaced joins the same states, so it is not asked for either.
        simp [here, ← source, ← target]
    · next different =>
      rw [sameEdge_iff] at different
      split
      · by_cases here : t.source = i ∧ t.target = j <;> simp [here]
      · rw [List.find?_cons, inductionHypothesis, List.find?_cons]
        by_cases here : t.source = i ∧ t.target = j
        · obtain ⟨rfl, rfl⟩ := here
          have apart : (decide (u.source = t.source) && decide (u.target = t.target)) = false := by
            rw [Bool.and_eq_false_imp, decide_eq_true_eq]
            intro source
            exact decide_eq_false fun target => different ⟨source.symm, target.symm⟩
          simp [apart]
        · simp only [here, if_false]

end Transition

namespace Chain

variable {α : Type} [Scalar α]

/-- A chain is in order, and its transitions have the given probabilities. -/
structure Records (c : Chain α) (given : Nat → Nat → Option α) : Prop where
  wellFormed : c.WellFormed
  started : c.Started
  last : ∀ i j, (c.transition? i j).map Transition.probability = given i j

/-- A change that leaves the transitions alone leaves what is recorded of them. -/
theorem Records.change {c c' : Chain α} {given : Nat → Nat → Option α} (records : c.Records given)
    (change : Change c c') (same : c'.transitions = c.transitions) : c'.Records given := by
  refine ⟨change.wellFormed records.wellFormed, change.started records.started, ?_⟩
  intro i j
  rw [← records.last i j, transition?, transition?, same]

theorem Records.addTransition {c c' : Chain α} {given : Nat → Nat → Option α}
    (records : c.Records given) {source target : Nat} {p : α} {t : Transition α}
    (done : c.addTransition source target p = .ok (t, c')) :
    c'.Records (Function.update given source
      (Function.update (given source) target (some p))) := by
  have change := Change.addTransition done
  refine ⟨change.wellFormed records.wellFormed, change.started records.started, ?_⟩
  obtain ⟨_, _, _, rfl, rfl⟩ := addTransition_eq_ok done
  intro i j
  have found : c.transition? i j = c.transitions.find? _ := rfl
  simp only [transition?, touch, Transition.find?_insertInto]
  by_cases row : i = source
  · subst row
    rw [Function.update_self]
    by_cases column : j = target
    · simp [column]
    · rw [Function.update_of_ne column, if_neg fun here => column here.2.symm, ← records.last,
        found]
  · rw [Function.update_of_ne row, if_neg fun here => row here.1.symm, ← records.last, found]

theorem Records.duplicate {c : Chain α} {given : Nat → Nat → Option α} (records : c.Records given)
    (id : Nat) : (c.duplicate id).Records given := by
  obtain ⟨numbered, own, probable, ordered, _⟩ := records.wellFormed
  exact ⟨⟨numbered, own, probable, ordered, fun _ kept => nomatch kept⟩,
    ⟨records.started.isSome_iff, records.started.own⟩, records.last⟩

theorem records_empty (id : Nat) : (Chain.empty id : Chain α).Records fun _ _ => none :=
  ⟨wellFormed_empty id, started_empty id, fun _ _ => rfl⟩

theorem Records.probability_eq {c : Chain α} {given : Nat → Nat → Option α}
    (records : c.Records given) (i j : Nat) : c.probability i j = (given i j).getD 0 := by
  rw [← records.last i j, probability]
  cases c.transition? i j <;> rfl

/-- Transitions in order join different pairs of states. -/
theorem WellFormed.pairwise_sameEdge {c : Chain α} (made : c.WellFormed) :
    c.transitions.Pairwise fun t u => t.sameEdge u = false := by
  refine made.ordered.imp ?_
  intro t u before
  rw [← Bool.not_eq_true, Transition.sameEdge_iff]
  have order := Transition.precedes_iff.mp before
  omega

end Chain

/-! ## Calls -/

/-- The calls that make chains, change them or ask for their matrix. -/
inductive StoreCall where
  | newChain
  | duplicate (c : Nat)
  | addState (c : Nat) (name : Option String) (labels : List String)
  | addLabel (c s : Nat) (label : String)
  | addTransition (c source target : Nat) (p : Float)
  | setInitial (c s : Nat)
  | matrix (c : Nat)

namespace StoreCall

def command : StoreCall → Command
  | newChain => .newChain
  | duplicate c => .duplicate c
  | addState c name labels => .addState c name labels
  | addLabel c s label => .addLabel c s label
  | addTransition c source target p => .addTransition c source target p
  | setInitial c s => .setInitial c s
  | matrix c => .matrix c

/-- Probabilities by chain, source and target. -/
abbrev Given := Nat → Nat → Nat → Option Float

/-- The probabilities given last, after a call and its answer: a new chain has none, a duplicate has
those of its origin, and a transition that was accepted has the one it came with. -/
def record : StoreCall → Except (Error Float) Reply → Given → Given
  | newChain, .ok (.index new), given => Function.update given new fun _ _ => none
  | duplicate c, .ok (.index new), given => Function.update given new (given c)
  | addTransition c source target p, .ok _, given =>
    Function.update given c (Function.update (given c) source
      (Function.update (given c source) target (some p)))
  | _, _, given => given

theorem record_error (call : StoreCall) (e : Error Float) (given : Given) :
    call.record (.error e) given = given := by
  cases call <;> rfl

end StoreCall

namespace Session

open StoreCall (Given)

/-- The session after some calls, from the start. -/
def afterCalls (calls : List StoreCall) : Session :=
  start.after (calls.map StoreCall.command)

/-- The probabilities given last, read off some calls and their answers. -/
def givenBy (calls : List StoreCall) : Given :=
  (calls.zip (start.runAll (calls.map StoreCall.command))).foldl
    (fun given (call, reply) => call.record reply given) fun _ _ _ => none

/-- What a call that succeeds answers, and what it leaves. -/
inductive Answers (s : Session) : StoreCall → Reply → Session → Prop where
  | newChain : Answers s .newChain (.index s.chains.size)
      { s with chains := s.chains.push (Chain.empty s.chains.size) }
  | duplicate {c : Nat} {chain : Chain Float} (there : s.chains[c]? = some chain) :
      Answers s (.duplicate c) (.index s.chains.size)
        { s with chains := s.chains.push (chain.duplicate s.chains.size) }
  | addState {c : Nat} {chain : Chain Float} (there : s.chains[c]? = some chain)
      (name : Option String) (labels : List String) :
      Answers s (.addState c name labels) (.index chain.size)
        { s with chains := s.chains.setIfInBounds c (chain.addState name labels).2 }
  | addLabel {c st : Nat} {label : String} {chain chain' : Chain Float}
      (there : s.chains[c]? = some chain) (done : chain.addLabel st label = .ok chain') :
      Answers s (.addLabel c st label) (.version chain'.version)
        { s with chains := s.chains.setIfInBounds c chain' }
  | addTransition {c source target : Nat} {p : Float} {chain chain' : Chain Float}
      {t : Transition Float} (there : s.chains[c]? = some chain)
      (done : chain.addTransition source target p = .ok (t, chain')) :
      Answers s (.addTransition c source target p) (.transition t)
        { s with chains := s.chains.setIfInBounds c chain' }
  | setInitial {c st : Nat} {chain chain' : Chain Float} (there : s.chains[c]? = some chain)
      (done : chain.setInitial st = .ok chain') :
      Answers s (.setInitial c st) (.version chain'.version)
        { s with chains := s.chains.setIfInBounds c chain' }
  | matrix {c : Nat} {chain : Chain Float} (there : s.chains[c]? = some chain) :
      Answers s (.matrix c) (.matrix chain.transitionMatrix true)
        { s with chains := s.chains.setIfInBounds c chain.keepMatrix }

section Settles

variable {β γ : Type} {s : Session}

/-- Run from a session, a computation fails and leaves the session as it is, or it ends as
described. -/
def Settles (s : Session) (x : SessionM β) (ends : β → Session → Prop) : Prop :=
  (∃ e, x.run s = (.error e, s)) ∨ ∃ b t, x.run s = (.ok b, t) ∧ ends b t

theorem settles_of_run {x : SessionM β} {ends : β → Session → Prop} {b : β} {t : Session}
    (run : x.run s = (.ok b, t)) (holds : ends b t) : Settles s x ends :=
  .inr ⟨b, t, run, holds⟩

/-- A computation that starts with a reading settles as it does after the reading. -/
theorem settles_read {x : SessionM β} {f : β → SessionM γ} {ends : γ → Session → Prop}
    (reads : Reads x) (next : ∀ b, (x.run s).1 = .ok b → Settles s (f b) ends) :
    Settles s (x >>= f) ends := by
  simp only [Settles]
  obtain ⟨b, returned⟩ | ⟨e, failed⟩ := reads.outcome s
  · rw [Outcome.run_bind_ok returned]
    exact next b (congrArg Prod.fst returned)
  · exact .inl ⟨e, Outcome.run_bind_error failed⟩

theorem settles_chain {c : Nat} {f : Chain Float → SessionM γ} {ends : γ → Session → Prop}
    (next : ∀ found, s.chains[c]? = some found → Settles s (f found) ends) :
    Settles s (chain c >>= f) ends :=
  settles_read (reads_chain c) fun found returned => next found (run_chain_eq_ok returned)

theorem settles_lift {r : Except (Error Float) β} {f : β → SessionM γ}
    {ends : γ → Session → Prop} (next : ∀ b, r = .ok b → Settles s (f b) ends) :
    Settles s (lift r >>= f) ends :=
  settles_read (reads_lift r) next

theorem Settles.answer {x : SessionM β} {g : β → γ} {ends : γ → Session → Prop}
    (settles : Settles s x fun b t => ends (g b) t) :
    Settles s (x >>= fun b => pure (g b)) ends := by
  obtain ⟨e, failed⟩ | ⟨b, t, run, holds⟩ := settles
  · exact .inl ⟨e, Outcome.run_bind_error failed⟩
  · exact .inr ⟨g b, t, Outcome.run_bind_ok run, holds⟩

end Settles

/-- A call fails and leaves the session as it is, or it succeeds in one of the ways listed. -/
theorem run_call (call : StoreCall) (s : Session) :
    Settles s (run call.command) (s.Answers call) := by
  cases call with
  | newChain => exact settles_of_run rfl .newChain
  | duplicate c =>
    exact settles_chain fun found there => settles_of_run rfl (.duplicate there)
  | addState c name labels =>
    refine Settles.answer (settles_chain fun found there => ?_)
    exact settles_of_run rfl (.addState there name labels)
  | addLabel c st label =>
    refine settles_chain fun found there => settles_lift fun found' done => ?_
    exact settles_of_run rfl (.addLabel there done)
  | addTransition c source target p =>
    refine Settles.answer (settles_chain fun found there => settles_lift fun result done => ?_)
    exact settles_of_run rfl (.addTransition there done)
  | setInitial c st =>
    refine settles_chain fun found there => settles_lift fun found' done => ?_
    exact settles_of_run rfl (.setInitial there done)
  | matrix c =>
    refine settles_chain fun found there => ?_
    have answer : Answers s (.matrix c) (.matrix found.transitionMatrix true) _ := .matrix there
    exact settles_of_run rfl answer

theorem run_matrix {s : Session} {c : Nat} {found : Chain Float}
    (there : s.chains[c]? = some found) :
    ((run (.matrix c)).run s).1 = .ok (.matrix found.transitionMatrix true) := by
  have read : (chain c).run s = (.ok found, s) := by rw [run_chain, there, Option.elim_some]
  exact congrArg Prod.fst (Outcome.run_bind_ok read)

/-! ## Runs -/

/-- Every chain of the session is in order and has the given probabilities. -/
def Records (s : Session) (given : Given) : Prop :=
  ∀ (c : Nat) (chain : Chain Float), s.chains[c]? = some chain → chain.Records (given c)

variable {s : Session} {given : Given}

theorem Records.push (records : s.Records given) {chain : Chain Float}
    {new : Nat → Nat → Option Float} (fresh : chain.Records new) :
    Records { s with chains := s.chains.push chain }
      (Function.update given s.chains.size new) := by
  intro c found there
  change (s.chains.push chain)[c]? = some found at there
  rw [Array.getElem?_push] at there
  split at there
  · next last =>
    subst last
    cases there
    rwa [Function.update_self]
  · next earlier =>
    rw [Function.update_of_ne earlier]
    exact records c found there

theorem Records.set (records : s.Records given) (c : Nat) {chain : Chain Float}
    {new : Nat → Nat → Option Float} (fresh : chain.Records new) :
    Records { s with chains := s.chains.setIfInBounds c chain } (Function.update given c new) := by
  intro i found there
  change (s.chains.setIfInBounds c chain)[i]? = some found at there
  by_cases same : i = c
  · subst same
    rw [Function.update_self]
    have inside : i < s.chains.size := by
      simpa using (Array.getElem?_eq_some_iff.mp there).1
    rw [Array.getElem?_setIfInBounds_self_of_lt inside] at there
    cases there
    exact fresh
  · rw [Function.update_of_ne same]
    rw [Array.getElem?_setIfInBounds_ne (Ne.symm same)] at there
    exact records i found there

/-- A change of one chain that leaves its transitions alone changes nothing that is recorded. -/
theorem Records.change (records : s.Records given) {c : Nat} {chain chain' : Chain Float}
    (there : s.chains[c]? = some chain) (change : chain.Change chain')
    (same : chain'.transitions = chain.transitions) :
    Records { s with chains := s.chains.setIfInBounds c chain' } given := by
  have set := records.set c ((records c chain there).change change same)
  rwa [Function.update_eq_self] at set

theorem Records.answers (records : s.Records given) {call : StoreCall} {reply : Reply}
    {t : Session} (answers : s.Answers call reply t) :
    t.Records (call.record (.ok reply) given) := by
  cases answers with
  | newChain => exact records.push (Chain.records_empty s.chains.size)
  | duplicate there => exact records.push ((records _ _ there).duplicate s.chains.size)
  | addState there name labels => exact records.change there (.addState _ name labels) rfl
  | addLabel there done =>
    refine records.change there (.addLabel done) ?_
    obtain rfl | ⟨state, _, rfl⟩ := Chain.addLabel_eq_ok done
    · rfl
    · rfl
  | addTransition there done => exact records.set _ ((records _ _ there).addTransition done)
  | setInitial there done =>
    obtain ⟨_, rfl⟩ := Chain.setInitial_eq_ok done
    exact records.change there (.setInitial done) rfl
  | matrix there => exact records.change there (.keepMatrix _) rfl

/-- A call keeps the chains in order and gives what it is recorded to give. -/
theorem Records.run (records : s.Records given) (call : StoreCall) :
    Records ((run call.command).run s).2
      (call.record ((Session.run call.command).run s).1 given) := by
  obtain ⟨e, failed⟩ | ⟨reply, t, run, answers⟩ := run_call call s
  · rw [failed, StoreCall.record_error]
    exact records
  · rw [run]
    exact records.answers answers

/-- So does every sequence of calls. -/
theorem records_after (calls : List StoreCall) : (afterCalls calls).Records (givenBy calls) := by
  have all : ∀ (s : Session) (given : Given), s.Records given →
      (s.after (calls.map StoreCall.command)).Records
        ((calls.zip (s.runAll (calls.map StoreCall.command))).foldl
          (fun given (call, reply) => call.record reply given) given) := by
    induction calls with
    | nil =>
      intro s given records
      exact records
    | cons call rest inductionHypothesis =>
      intro s given records
      exact inductionHypothesis _ _ (records.run call)
  refine all start _ ?_
  intro c chain there
  cases c with
  | zero =>
    cases there
    exact Chain.records_empty 0
  | succ c => cases there

/-- After every sequence of calls, whether they succeeded or not, each chain is in order, its matrix
is that of its transitions, and these have the probabilities given last. A further call that fails
leaves the session as it is. -/
theorem chains_in_order (calls : List StoreCall) :
    (∀ (c : Nat) (chain : Chain Float), (afterCalls calls).chains[c]? = some chain →
      (∀ (i : Nat) (state : State), chain.states[i]? = some state → state.id = i) ∧
      (chain.initial.isSome = true ↔ 0 < chain.size) ∧
      (∀ s, chain.initial = some s → s < chain.size) ∧
      (∀ t ∈ chain.transitions, t.source < chain.size ∧ t.target < chain.size ∧
        0 < t.probability ∧ t.probability ≤ 1) ∧
      (chain.transitions.Pairwise fun t u => t.sameEdge u = false) ∧
      (∀ i j, (chain.transition? i j).map Transition.probability = givenBy calls c i j) ∧
      ∃ m : Matrix Float,
        ((run (.matrix c)).run (afterCalls calls)).1 = .ok (.matrix m true) ∧
        m.rows = chain.size ∧ m.cols = chain.size ∧
        ∀ i < chain.size, ∀ j < chain.size, m.entry i j = chain.probability i j ∧
          m.entry i j = (givenBy calls c i j).getD 0) ∧
    ∀ (call : StoreCall) (e : Error Float),
      ((run call.command).run (afterCalls calls)).1 = .error e →
        ((run call.command).run (afterCalls calls)).2 = afterCalls calls := by
  constructor
  · intro c chain there
    have records := records_after calls c chain there
    have made := records.wellFormed
    refine ⟨made.numbered, records.started.isSome_iff, records.started.own, ?_,
      made.pairwise_sameEdge, records.last, chain.transitionMatrix, run_matrix there,
      made.rows_transitionMatrix, made.cols_transitionMatrix, ?_⟩
    · intro t member
      obtain ⟨source, target⟩ := made.own t member
      exact ⟨source, target, made.probable t member⟩
    · intro i row j column
      rw [made.entry_transitionMatrix row column]
      exact ⟨rfl, records.probability_eq i j⟩
  · intro call e failed
    obtain ⟨_, unchanged⟩ | ⟨reply, t, run, _⟩ := run_call call (afterCalls calls)
    · rw [unchanged]
    · rw [run] at failed
      cases failed

set_option maxRecDepth 1000 in
/-- A transition is given, the matrix is asked for, an impossible probability is refused, and the
transition is given again: the matrix has the last probability, and a duplicate made before the
replacement keeps the first. -/
theorem chains_in_order_replaced :
    let calls : List StoreCall := [.addState 0 none [], .addState 0 none ["goal"],
      .addTransition 0 0 1 0.5, .matrix 0, .duplicate 0, .addTransition 0 0 1 2,
      .addTransition 0 0 1 0.25]
    let chain : Chain Float :=
      ⟨0, 4, #[⟨0, "s0", []⟩, ⟨1, "s1", ["goal"]⟩], [⟨0, 1, 0.25⟩], some 0, none⟩
    (afterCalls calls).chains[0]? = some chain ∧ givenBy calls 0 0 1 = some 0.25 ∧
      givenBy calls 1 0 1 = some 0.5 ∧
      (∃ m : Matrix Float, ((run (.matrix 0)).run (afterCalls calls)).1 = .ok (.matrix m true) ∧
        m.entry 0 1 = 0.25) ∧
      ((run (.addTransition 0 1 7 1)).run (afterCalls calls)).2 = afterCalls calls := by
  intro calls chain
  have there : (afterCalls calls).chains[0]? = some chain := by with_unfolding_all rfl
  have given : givenBy calls 0 0 1 = some 0.25 := by with_unfolding_all rfl
  have refused : ((run (StoreCall.addTransition 0 1 7 1).command).run (afterCalls calls)).1 =
      .error (.foreignState 7) := by with_unfolding_all rfl
  obtain ⟨inOrder, unchanged⟩ := chains_in_order calls
  obtain ⟨_, _, _, _, _, _, m, answered, _, _, entries⟩ := inOrder 0 chain there
  have kept : givenBy calls 1 0 1 = some 0.5 := by with_unfolding_all rfl
  refine ⟨there, given, kept, ⟨m, answered, ?_⟩, unchanged (.addTransition 0 1 7 1) _ refused⟩
  have entry := (entries 0 (by decide) 1 (by decide)).2
  rwa [given] at entry

end Session

end MarkovCheck

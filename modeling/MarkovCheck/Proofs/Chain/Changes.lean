import MarkovCheck.Proofs.Formula.Content

/-!
# How chains change

`Chain.Change` lists everything an operation can do to a chain, with the call that does it. A change
either keeps the version and the content, or advances the version by one; and it leaves no outdated
matrix behind. `Chain.Constructed` are the chains that exist at all: made empty or duplicated, then
changed. Such a chain has an initial state as soon as it has a state.

* `Change`: one operation
* `Constructed`: the chains that exist
* `addAll`, `constructed_of_addAll`: a chain from the lists of its states and transitions
-/

namespace MarkovCheck.Chain

variable {α : Type} [Scalar α]

/-- What one operation can do to a chain. -/
inductive Change : Chain α → Chain α → Prop where
  | addState (c : Chain α) (name : Option String) (labels : List String) :
      Change c (c.addState name labels).2
  | addLabel {c c' : Chain α} {s : Nat} {label : String}
      (done : c.addLabel s label = .ok c') : Change c c'
  | addTransition {c c' : Chain α} {t : Transition α} {source target : Nat} {p : α}
      (done : c.addTransition source target p = .ok (t, c')) : Change c c'
  | setInitial {c c' : Chain α} {s : Nat} (done : c.setInitial s = .ok c') : Change c c'
  | keepMatrix (c : Chain α) : Change c c.keepMatrix

/-- The chains that operations make. -/
inductive Constructed : Chain α → Prop where
  | empty (id : Nat) : Constructed (Chain.empty id)
  | duplicate {c : Chain α} (made : Constructed c) (id : Nat) : Constructed (c.duplicate id)
  | change {c c' : Chain α} (made : Constructed c) (changed : Change c c') : Constructed c'

/-- Adds states with the names and labels of those given, and then the transitions, in order. -/
def addAll (c : Chain α) (states : List State) (transitions : List (Transition α)) :
    Except (Error α) (Chain α) :=
  transitions.foldlM (fun c t => Prod.snd <$> c.addTransition t.source t.target t.probability)
    (states.foldl (fun c state => (c.addState (some state.name) state.labels).2) c)

theorem Constructed.addStates {c : Chain α} (made : Constructed c) (states : List State) :
    Constructed <| states.foldl
      (fun c state => (c.addState (some state.name) state.labels).2) c := by
  induction states generalizing c with
  | nil => exact made
  | cons state states inductionHypothesis =>
    exact inductionHypothesis (.change made (.addState c (some state.name) state.labels))

theorem Constructed.addAll {c c' : Chain α} (made : Constructed c) {states : List State}
    {transitions : List (Transition α)} (added : c.addAll states transitions = .ok c') :
    Constructed c' := by
  have start := made.addStates states
  rw [Chain.addAll] at added
  generalize states.foldl _ c = named at start added
  induction transitions generalizing named with
  | nil =>
    cases added
    exact start
  | cons t transitions inductionHypothesis =>
    obtain ⟨next, first, rest⟩ := Outcome.bind_eq_ok.mp added
    obtain ⟨_, done, rfl⟩ := Outcome.map_eq_ok.mp first
    exact inductionHypothesis _ (.change start (.addTransition done)) rest

/-- A chain is made by operations if adding its states and transitions to an empty chain gives it
back. -/
theorem constructed_of_addAll {c : Chain α}
    (same : (Chain.empty c.id).addAll c.states.toList c.transitions = .ok c) : Constructed c :=
  Constructed.addAll (.empty c.id) same

omit [Scalar α] in
theorem checkState_eq_ok {c : Chain α} {s : Nat} {u : Unit} (passed : c.checkState s = .ok u) :
    s < c.size := by
  simp only [checkState] at passed
  split at passed
  · assumption
  · cases passed

theorem addTransition_eq_ok {c c' : Chain α} {t : Transition α} {source target : Nat} {p : α}
    (done : c.addTransition source target p = .ok (t, c')) :
    (0 < p ∧ p ≤ 1) ∧ source < c.size ∧ target < c.size ∧ t = ⟨source, target, p⟩ ∧
      c' = { c with transitions := t.insertInto c.transitions }.touch := by
  simp only [addTransition] at done
  split at done
  · next range =>
    obtain ⟨_, ownSource, rest⟩ := Outcome.bind_eq_ok.mp done
    obtain ⟨_, ownTarget, rest⟩ := Outcome.bind_eq_ok.mp rest
    cases rest
    exact ⟨range, checkState_eq_ok ownSource, checkState_eq_ok ownTarget, rfl, rfl⟩
  · cases done

omit [Scalar α] in
/-- A label is there already, or it is added to an own state and the version advances. -/
theorem addLabel_eq_ok {c c' : Chain α} {s : Nat} {label : String}
    (done : c.addLabel s label = .ok c') :
    c' = c ∨ ∃ state, c.states[s]? = some state ∧ c' = { c with
      states := c.states.setIfInBounds s
        { state with labels := insertLabel label state.labels } }.touch := by
  simp only [addLabel] at done
  split at done
  · cases done
  · next state found =>
    split at done
    · exact .inl (Except.ok.inj done).symm
    · exact .inr ⟨state, found, (Except.ok.inj done).symm⟩

omit [Scalar α] in
theorem setInitial_eq_ok {c c' : Chain α} {s : Nat} (done : c.setInitial s = .ok c') :
    s < c.size ∧ c' = { c with initial := some s } := by
  simp only [setInitial] at done
  obtain ⟨_, own, rest⟩ := Outcome.bind_eq_ok.mp done
  exact ⟨checkState_eq_ok own, (Except.ok.inj rest).symm⟩

namespace Change

variable {c c' : Chain α}

theorem id_eq (change : Change c c') : c'.id = c.id := by
  cases change with
  | addState | keepMatrix => rfl
  | addLabel done =>
    obtain rfl | ⟨state, _, rfl⟩ := addLabel_eq_ok done
    · rfl
    · rfl
  | addTransition done =>
    obtain ⟨_, _, _, _, rfl⟩ := addTransition_eq_ok done
    rfl
  | setInitial done =>
    obtain ⟨_, rfl⟩ := setInitial_eq_ok done
    rfl

/-- A change keeps the version and the content, or it advances the version. -/
theorem version_content (change : Change c c') :
    (c'.version = c.version ∧ c'.content = c.content) ∨ c'.version = c.version + 1 := by
  cases change with
  | addState => exact .inr rfl
  | keepMatrix => exact .inl ⟨rfl, rfl⟩
  | addLabel done =>
    obtain rfl | ⟨state, _, rfl⟩ := addLabel_eq_ok done
    · exact .inl ⟨rfl, rfl⟩
    · exact .inr rfl
  | addTransition done =>
    obtain ⟨_, _, _, _, rfl⟩ := addTransition_eq_ok done
    exact .inr rfl
  | setInitial done =>
    obtain ⟨_, rfl⟩ := setInitial_eq_ok done
    exact .inl ⟨rfl, rfl⟩

theorem matrixCurrent (change : Change c c') (current : c.MatrixCurrent) :
    c'.MatrixCurrent := by
  cases change with
  | addState =>
    intro m kept
    cases kept
  | keepMatrix =>
    -- The matrix that is kept is the current one, kept before or just built.
    intro m kept
    cases kept
    exact current.transitionMatrix_eq
  | addLabel done =>
    obtain rfl | ⟨state, _, rfl⟩ := addLabel_eq_ok done
    · exact current
    · intro m kept
      cases kept
  | addTransition done =>
    obtain ⟨_, _, _, _, rfl⟩ := addTransition_eq_ok done
    intro m kept
    cases kept
  | setInitial done =>
    obtain ⟨_, rfl⟩ := setInitial_eq_ok done
    exact current

end Change

/-! ## The initial state -/

omit [Scalar α] in
/-- There is an initial state exactly when there is a state, and it is an own one. -/
structure Started (c : Chain α) : Prop where
  isSome_iff : c.initial.isSome = true ↔ 0 < c.size
  own : ∀ s, c.initial = some s → s < c.size

omit [Scalar α] in
theorem started_empty (id : Nat) : (Chain.empty id : Chain α).Started := by
  constructor
  · simp [Chain.empty, size]
  · intro s chosen
    cases chosen

omit [Scalar α] in
theorem Started.addState {c : Chain α} (started : c.Started) (name : Option String)
    (labels : List String) : (c.addState name labels).2.Started := by
  have grown : (c.addState name labels).2.size = c.size + 1 := Array.size_push _
  have initial : (c.addState name labels).2.initial = some (c.initial.getD c.size) := by
    simp only [Chain.addState, touch]
    cases c.initial <;> rfl
  constructor
  · simp [initial, grown]
  · intro s chosen
    rw [initial] at chosen
    cases chosen
    cases earlier : c.initial with
    | none => simp [grown]
    | some first =>
      have own := started.own first earlier
      simp only [Option.getD_some, grown]
      omega

theorem Change.started {c c' : Chain α} (change : Change c c') (started : c.Started) :
    c'.Started := by
  cases change with
  | addState name labels => exact started.addState name labels
  | addLabel done =>
    obtain rfl | ⟨state, _, rfl⟩ := addLabel_eq_ok done
    · exact started
    · -- Replacing a state keeps the number of states.
      exact ⟨by simpa [size, touch] using started.isSome_iff,
        by simpa [size, touch] using started.own⟩
  | addTransition done =>
    obtain ⟨_, _, _, _, rfl⟩ := addTransition_eq_ok done
    exact ⟨started.isSome_iff, started.own⟩
  | setInitial done =>
    obtain ⟨own, rfl⟩ := setInitial_eq_ok done
    constructor
    · simpa [size] using Nat.zero_lt_of_lt own
    · intro s chosen
      cases chosen
      exact own
  | keepMatrix => exact ⟨started.isSome_iff, started.own⟩

theorem Constructed.started {c : Chain α} (constructed : Constructed c) : c.Started := by
  induction constructed with
  | empty id => exact started_empty id
  | duplicate _ id started => exact ⟨started.isSome_iff, started.own⟩
  | change _ changed started => exact changed.started started

end MarkovCheck.Chain

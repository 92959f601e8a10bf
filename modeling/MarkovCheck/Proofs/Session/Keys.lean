import MarkovCheck.Proofs.Session.Safety

/-!
# Keys tell contents apart

The moments of a history are the sessions between its commands. Whatever chains are compared, at the
same moment or at different ones: chains with the same key are the same chain with the same content.
And a change of a chain's content gives it a key that no chain had at any moment before.

* `Session.moment`: the session after some commands of a history
* `Session.content_eq_of_steps`, `Session.exists_version_le`: what holds of two moments
* `ChainKey.words`: a key as two words of 64 bits
* `Session.key_determines_content`: what holds of all moments
-/

namespace MarkovCheck

/-- A key as a machine holds it. -/
def ChainKey.words (key : ChainKey) : UInt64 × UInt64 :=
  (UInt64.ofNat key.id, UInt64.ofNat key.version)

theorem ChainKey.eq_of_words_eq {key other : ChainKey} (same : key.words = other.words)
    (small : key.id < 2 ^ 64 ∧ key.version < 2 ^ 64)
    (small' : other.id < 2 ^ 64 ∧ other.version < 2 ^ 64) : key = other := by
  obtain ⟨sameId, sameVersion⟩ := Prod.mk.inj same
  have ids := congrArg UInt64.toNat sameId
  have versions := congrArg UInt64.toNat sameVersion
  rw [UInt64.toNat_ofNat_of_lt' small.1, UInt64.toNat_ofNat_of_lt' small'.1] at ids
  rw [UInt64.toNat_ofNat_of_lt' small.2, UInt64.toNat_ofNat_of_lt' small'.2] at versions
  cases key
  cases other
  exact ChainKey.mk.injEq .. ▸ ⟨ids, versions⟩

theorem Chain.content_eq_iff {α : Type} {c d : Chain α} :
    c.content = d.content ↔ c.states = d.states ∧ c.transitions = d.transitions := by
  simp [content]

namespace Session

variable {limit : Nat} {s t : Session}

/-- Chains with the same key, one of them earlier, are one chain that has the same content. -/
theorem content_eq_of_steps {ledger : Ledger} (describes : ledger.Describes limit s)
    (steps : Steps limit s t) {a b : Nat} {c d : Chain Float} (there : s.chains[a]? = some c)
    (there' : t.chains[b]? = some d) (same : c.key = d.key) : a = b ∧ c.content = d.content := by
  obtain ⟨later, extension, describes'⟩ := steps.exists_ledger describes
  constructor
  · rw [← describes.chains.id_eq a c there, ← describes'.chains.id_eq b d there']
    exact congrArg ChainKey.id same
  · have earlier := extension.contents _ _ (describes.chains.recorded a c there)
    rw [same, describes'.chains.recorded b d there'] at earlier
    exact (Option.some.inj earlier).symm

/-- A chain stays, and its version never goes back. -/
theorem exists_version_le {ledger : Ledger} (describes : ledger.Describes limit s)
    (steps : Steps limit s t) {a : Nat} {c : Chain Float} (there : s.chains[a]? = some c) :
    ∃ d, t.chains[a]? = some d ∧ c.version ≤ d.version := by
  obtain ⟨later, extension, describes'⟩ := steps.exists_ledger describes
  have recorded := extension.contents _ _ (describes.chains.recorded a c there)
  obtain ⟨d, found, forward⟩ := describes'.chains.past _ _ recorded
  refine ⟨d, ?_, forward⟩
  rw [← describes.chains.id_eq a c there]
  exact found

/-- Of two moments of a history, whichever is the earlier one, chains with the same key are one
chain that has the same content. -/
theorem content_eq_of_key_eq {ledger ledger' : Ledger} (describes : ledger.Describes limit s)
    (describes' : ledger'.Describes limit t) (steps : Steps limit s t ∨ Steps limit t s)
    {a b : Nat} {c d : Chain Float} (there : s.chains[a]? = some c)
    (there' : t.chains[b]? = some d) (same : c.key = d.key) : a = b ∧ c.content = d.content := by
  rcases steps with forward | backward
  · exact content_eq_of_steps describes forward there there' same
  · obtain ⟨sameChain, sameContent⟩ :=
      content_eq_of_steps describes' backward there' there same.symm
    exact ⟨sameChain.symm, sameContent.symm⟩

/-- A chain whose content is not the one it had at a moment has a key that was not there before. -/
theorem key_ne_of_changed {ledger : Ledger} {u : Session} (describes : ledger.Describes limit s)
    (steps : Steps limit s t) (steps' : Steps limit t u) {a b : Nat} {c d : Chain Float}
    (there : s.chains[b]? = some c) (there' : u.chains[a]? = some d)
    (changed : ∀ e, t.chains[a]? = some e → e.content ≠ d.content) : c.key ≠ d.key := by
  intro same
  obtain ⟨rfl, _⟩ := content_eq_of_steps describes (steps.trans steps') there there' same
  obtain ⟨ledger', _, describes'⟩ := steps.exists_ledger describes
  obtain ⟨e, between, forward⟩ := exists_version_le describes steps there
  obtain ⟨d', there'', forward'⟩ := exists_version_le describes' steps' between
  cases there'.symm.trans there''
  -- The version in between is caught between two that are the same.
  have version : c.version = d.version := congrArg ChainKey.version same
  have sameKey : e.key = d.key := by
    rw [Chain.key, Chain.key, ChainKey.mk.injEq]
    refine ⟨?_, by omega⟩
    obtain ⟨ledger'', _, describes''⟩ := steps'.exists_ledger describes'
    rw [describes'.chains.id_eq _ e between, describes''.chains.id_eq _ d there']
  exact changed e between (content_eq_of_steps describes' steps' between there' sameKey).2

/-- The session between two commands of a history, or after the last one. -/
def moment (history : List Command) (i : Nat) : Session := start.after (history.take i)

theorem steps_moment {history : List Command}
    (allowed : ∀ command ∈ history, command.allowance ≤ limit) {i j : Nat} (earlier : i ≤ j) :
    Steps limit (moment history i) (moment history j) := by
  have split : history.take j = history.take i ++ (history.take j).drop i := by
    conv_lhs => rw [← List.take_append_drop i (history.take j), List.take_take,
      Nat.min_eq_left earlier]
  rw [moment, moment, split, after_append]
  refine after_steps _ (fun command member => allowed command ?_) _
  exact List.mem_of_mem_take (List.mem_of_mem_drop member)

theorem describes_moment {history : List Command}
    (allowed : ∀ command ∈ history, command.allowance ≤ limit) (i : Nat) :
    ∃ ledger : Ledger, ledger.Describes limit (moment history i) :=
  exists_ledger _ fun command member => allowed command (List.mem_of_mem_take member)

/-- At any moments of a history, chains with the same key are one chain with the same states, labels
and transitions. A command after which a chain has other states, labels or transitions than before
it, or after which a chain is there that was not, leaves the chain with a key that no chain had at
any moment before. As long as the numbers of chains and of changes fit, keys can be told apart by
their words of 64 bits. -/
theorem key_determines_content (history : List Command) :
    (∀ (i j a b : Nat) (c d : Chain Float), (moment history i).chains[a]? = some c →
      (moment history j).chains[b]? = some d → c.key = d.key →
        a = b ∧ c.states = d.states ∧ c.transitions = d.transitions) ∧
    (∀ (i a : Nat) (d : Chain Float), (moment history (i + 1)).chains[a]? = some d →
      (∀ c, (moment history i).chains[a]? = some c →
        c.states ≠ d.states ∨ c.transitions ≠ d.transitions) →
      ∀ j ≤ i, ∀ (b : Nat) (c : Chain Float), (moment history j).chains[b]? = some c →
        c.key ≠ d.key) ∧
    ((∀ (a : Nat) (c : Chain Float), (start.after history).chains[a]? = some c →
        a < 2 ^ 64 ∧ c.version < 2 ^ 64) →
      ∀ (i j a b : Nat) (c d : Chain Float), (moment history i).chains[a]? = some c →
        (moment history j).chains[b]? = some d → c.key.words = d.key.words → c.key = d.key) := by
  obtain ⟨limit, _, allowed⟩ := exists_limit history 0
  refine ⟨?_, ?_, ?_⟩
  · intro i j a b c d there there' same
    obtain ⟨_, describes⟩ := describes_moment allowed i
    obtain ⟨_, describes'⟩ := describes_moment allowed j
    have steps := (Nat.le_total i j).imp (steps_moment allowed) (steps_moment allowed)
    obtain ⟨sameChain, sameContent⟩ :=
      content_eq_of_key_eq describes describes' steps there there' same
    exact ⟨sameChain, Chain.content_eq_iff.mp sameContent⟩
  · intro i a d there' changed j earlier b c there
    obtain ⟨_, describes⟩ := describes_moment allowed j
    refine key_ne_of_changed describes (steps_moment allowed earlier)
      (steps_moment allowed (Nat.le_succ i)) there there' fun e between sameContent => ?_
    obtain ⟨states, transitions⟩ := Chain.content_eq_iff.mp sameContent
    exact (changed e between).elim (· states) (· transitions)
  · intro fits i j a b c d there there' same
    have small : ∀ (k e : Nat) (chain : Chain Float), (moment history k).chains[e]? = some chain →
        chain.key.id < 2 ^ 64 ∧ chain.key.version < 2 ^ 64 := by
      intro k e chain found
      obtain ⟨_, describes⟩ := describes_moment allowed k
      have last : moment history (max k history.length) = start.after history := by
        rw [moment, List.take_of_length_le (le_max_right _ _)]
      have steps := steps_moment allowed (le_max_left k history.length)
      rw [last] at steps
      obtain ⟨final, found', forward⟩ := exists_version_le describes steps found
      obtain ⟨index, version⟩ := fits e final found'
      rw [Chain.key, describes.chains.id_eq e chain found]
      exact ⟨index, forward.trans_lt version⟩
    exact ChainKey.eq_of_words_eq same (small i a c there) (small j b d there')

/-- A duplicate starts at the version that its original started at. Choosing an initial state and
repeating a label change nothing, and the new label brings a new key. -/
theorem key_determines_content_duplicate :
    let history : List Command := [.addState 0 none ["a"], .duplicate 0, .setInitial 0 0,
      .addLabel 0 0 "a", .addLabel 0 0 "b"]
    let c : Chain Float := ⟨0, 1, #[⟨0, "s0", ["a"]⟩], [], some 0, none⟩
    let copy : Chain Float := ⟨1, 0, #[⟨0, "s0", ["a"]⟩], [], some 0, none⟩
    let d : Chain Float := ⟨0, 2, #[⟨0, "s0", ["a", "b"]⟩], [], some 0, none⟩
    (moment history 4).chains = #[c, copy] ∧ (moment history 5).chains = #[d, copy] ∧
      (∀ (i a : Nat) (e : Chain Float), (moment history i).chains[a]? = some e → e.key = c.key →
        a = 0 ∧ e.states = c.states ∧ e.transitions = c.transitions) ∧
      (∀ j ≤ 4, ∀ (b : Nat) (e : Chain Float), (moment history j).chains[b]? = some e →
        e.key ≠ d.key) ∧
      c.key.words ≠ d.key.words := by
  intro history c copy d
  have before : (moment history 4).chains = #[c, copy] := by with_unfolding_all rfl
  have after : (moment history 5).chains = #[d, copy] := by with_unfolding_all rfl
  have there : (moment history 4).chains[0]? = some c := by rw [before]; rfl
  have there' : (moment history 5).chains[0]? = some d := by rw [after]; rfl
  obtain ⟨same, changed, words⟩ := key_determines_content history
  have new := changed 4 0 d there' fun e found => by
    cases there.symm.trans found
    exact .inl (by decide)
  refine ⟨before, after, fun i a e found keys => same i 4 a 0 e c found there keys, new, ?_⟩
  intro alike
  refine new 4 le_rfl 0 c there (words ?_ 4 5 0 0 c d there there' alike)
  intro a e found
  have final : (start.after history).chains = #[d, copy] := after
  rw [final] at found
  match a with
  | 0 | 1 =>
    cases found
    decide
  | a + 2 => cases found

end Session

end MarkovCheck

import Mathlib.Data.List.Nodup
import MarkovCheck.Proofs.Formula.Remembering
import MarkovCheck.Proofs.Session.Changes

/-!
# The past of a session

A `Ledger` records what a session does not keep: the content that each chain had under each of its
keys, and every node that was ever made. It is written as the session changes and never rewritten.
The ledger ties remembered results to the past: an entry is the value of its node, for the content
recorded under the entry's key.

* `Ledger.Describes`: a ledger is right about a session
* `Ledger.Describes.change`: after every change, some ledger that extends the old one is right
* `exists_ledger`: after every history, some ledger is right
-/

namespace MarkovCheck

/-- What is recorded about the past of a session. -/
structure Ledger where
  /-- The content of the chain that had a key. -/
  contents : ChainKey → Option (Chain Float)
  /-- The nodes that were made. -/
  nodes : Node.Any Float → Prop

namespace Ledger

/-- The later ledger has all that the earlier one has. -/
structure Extends (later ledger : Ledger) : Prop where
  contents : ∀ key content, ledger.contents key = some content → later.contents key = some content
  nodes : ∀ n, ledger.nodes n → later.nodes n

theorem Extends.refl (ledger : Ledger) : ledger.Extends ledger :=
  ⟨fun _ _ recorded => recorded, fun _ made => made⟩

theorem Extends.trans {first second third : Ledger} (later : third.Extends second)
    (earlier : second.Extends first) : third.Extends first :=
  ⟨fun key content recorded => later.contents key content (earlier.contents key content recorded),
    fun n made => later.nodes n (earlier.nodes n made)⟩

def record (ledger : Ledger) (chain : Chain Float) : Ledger :=
  { ledger with contents := fun key =>
      if key = chain.key then some chain.content else ledger.contents key }

def recordNodes (ledger : Ledger) (new : Node.Any Float → Prop) : Ledger :=
  { ledger with nodes := fun n => ledger.nodes n ∨ new n }

theorem extends_record {ledger : Ledger} {chain : Chain Float}
    (new : ledger.contents chain.key = none) : (ledger.record chain).Extends ledger := by
  refine ⟨fun key content recorded => ?_, fun _ made => made⟩
  have different : key ≠ chain.key := by
    rintro rfl
    rw [new] at recorded
    cases recorded
  simp only [record, if_neg different]
  exact recorded

theorem extends_recordNodes (ledger : Ledger) (new : Node.Any Float → Prop) :
    (ledger.recordNodes new).Extends ledger :=
  ⟨fun _ _ recorded => recorded, fun _ made => .inl made⟩

/-- The settings of an entry's key, with an allowance of `limit` and no signal to stop. -/
def settings (key : EvalKey Float) (limit : Nat) : Options Float :=
  ⟨key.method, key.tolerance, limit, none⟩

/-- An entry is the value of its node, for the content recorded under its key. -/
def Justifies (ledger : Ledger) (limit : Nat) : Memo.Property Float := fun k id e =>
  ∃ n : Node Float k, ledger.nodes ⟨k, n⟩ ∧ n.id = id ∧
    ∃ content, ledger.contents e.key.chain = some content ∧
      content.evaluate (settings e.key limit) n.formula = .ok e.value

theorem Extends.justifies {later ledger : Ledger} (extension : later.Extends ledger) {limit : Nat}
    (k : Kind) (id : Nat) (e : Entry Float k) (justified : ledger.Justifies limit k id e) :
    later.Justifies limit k id e := by
  obtain ⟨n, made, same, content, recorded, value⟩ := justified
  exact ⟨n, extension.nodes _ made, same, content, extension.contents _ _ recorded, value⟩

/-- The ledger is right about the chains of a session, and no chain will have a recorded key for
another content. -/
structure DescribesChains (ledger : Ledger) (chains : Array (Chain Float)) : Prop where
  id_eq : ∀ (c : Nat) (chain : Chain Float), chains[c]? = some chain → chain.id = c
  matrixCurrent : ∀ (c : Nat) (chain : Chain Float), chains[c]? = some chain → chain.MatrixCurrent
  recorded : ∀ (c : Nat) (chain : Chain Float), chains[c]? = some chain →
    ledger.contents chain.key = some chain.content
  past : ∀ (key : ChainKey) (content : Chain Float), ledger.contents key = some content →
    ∃ chain, chains[key.id]? = some chain ∧ key.version ≤ chain.version

/-- The ledger is right about the nodes of a session, and the next identity is not taken. -/
structure DescribesNodes (ledger : Ledger) (formulas : Table (Node.Any Float)) (fresh : Nat) :
    Prop where
  named : ∀ name n, formulas.find? name = some n → ledger.nodes n
  parts : ∀ n, ledger.nodes n → ∀ part ∈ n.node.parts, ledger.nodes part
  unique : ∀ n m, ledger.nodes n → ledger.nodes m → n.node.id = m.node.id → n = m
  below : ∀ n, ledger.nodes n → n.node.id < fresh

/-- The ledger is right about a session whose evaluations were allowed up to `limit` iterations. -/
structure Describes (ledger : Ledger) (limit : Nat) (s : Session) : Prop where
  chains : ledger.DescribesChains s.chains
  nodes : ledger.DescribesNodes s.formulas s.freshNode
  remembered : s.memo.All (ledger.Justifies limit)

/-! ## Chains -/

section Chains

variable {ledger : Ledger} {chains : Array (Chain Float)}

theorem DescribesChains.recordNodes (describes : ledger.DescribesChains chains)
    (new : Node.Any Float → Prop) : (ledger.recordNodes new).DescribesChains chains :=
  ⟨describes.id_eq, describes.matrixCurrent, describes.recorded, describes.past⟩

/-- A chain at the end has a key that was never seen. -/
theorem DescribesChains.push (describes : ledger.DescribesChains chains) {chain : Chain Float}
    (identity : chain.id = chains.size) (current : chain.MatrixCurrent) :
    (ledger.record chain).Extends ledger ∧
      (ledger.record chain).DescribesChains (chains.push chain) := by
  have new : ledger.contents chain.key = none := by
    -- A recorded key belongs to a chain of the session, and the new chain is not yet one.
    cases recorded : ledger.contents chain.key with
    | none => rfl
    | some content =>
      obtain ⟨old, there, _⟩ := describes.past _ _ recorded
      have below : chain.id < chains.size := (Array.getElem?_eq_some_iff.mp there).1
      omega
  have extension := extends_record new
  have split : ∀ c found, (chains.push chain)[c]? = some found →
      (c = chains.size ∧ found = chain) ∨ chains[c]? = some found := by
    intro c found there
    rw [Array.getElem?_push] at there
    split at there
    · next last => exact .inl ⟨last, (Option.some.inj there).symm⟩
    · exact .inr there
  refine ⟨extension, ?_, ?_, ?_, ?_⟩
  · intro c found there
    obtain ⟨rfl, rfl⟩ | old := split c found there
    · exact identity
    · exact describes.id_eq c found old
  · intro c found there
    obtain ⟨rfl, rfl⟩ | old := split c found there
    · exact current
    · exact describes.matrixCurrent c found old
  · intro c found there
    obtain ⟨rfl, rfl⟩ | old := split c found there
    · simp [record]
    · exact extension.contents _ _ (describes.recorded c found old)
  · intro key content recorded
    simp only [record] at recorded
    split at recorded
    · next same =>
      subst same
      refine ⟨chain, ?_, Nat.le_refl _⟩
      change (chains.push chain)[chain.id]? = some chain
      rw [identity, Array.getElem?_push_size]
    · obtain ⟨old, there, earlier⟩ := describes.past key content recorded
      refine ⟨old, ?_, earlier⟩
      have below := (Array.getElem?_eq_some_iff.mp there).1
      rw [Array.getElem?_push, if_neg (by omega)]
      exact there

/-- A chain may be replaced by a later one that the ledger knows, if nothing else is new in the
ledger. -/
theorem DescribesChains.replace (describes : ledger.DescribesChains chains) {later : Ledger}
    (extension : later.Extends ledger) {c : Nat} {chain chain' : Chain Float}
    (there : chains[c]? = some chain) (identity : chain'.id = c) (current : chain'.MatrixCurrent)
    (forward : chain.version ≤ chain'.version)
    (known : later.contents chain'.key = some chain'.content)
    (origin : ∀ key content, later.contents key = some content →
      key = chain'.key ∨ ledger.contents key = some content) :
    later.DescribesChains (chains.setIfInBounds c chain') := by
  have inside : c < chains.size := (Array.getElem?_eq_some_iff.mp there).1
  have replaced : (chains.setIfInBounds c chain')[c]? = some chain' :=
    Array.getElem?_setIfInBounds_self_of_lt inside
  have others : ∀ i, i ≠ c → (chains.setIfInBounds c chain')[i]? = chains[i]? :=
    fun i apart => Array.getElem?_setIfInBounds_ne apart.symm
  constructor
  · intro i found here
    by_cases same : i = c
    · subst same
      cases replaced.symm.trans here
      exact identity
    · exact describes.id_eq i found (by rwa [others i same] at here)
  · intro i found here
    by_cases same : i = c
    · subst same
      cases replaced.symm.trans here
      exact current
    · exact describes.matrixCurrent i found (by rwa [others i same] at here)
  · intro i found here
    by_cases same : i = c
    · subst same
      cases replaced.symm.trans here
      exact known
    · exact extension.contents _ _ (describes.recorded i found (by rwa [others i same] at here))
  · intro key content recorded
    obtain rfl | recorded := origin key content recorded
    · refine ⟨chain', ?_, Nat.le_refl _⟩
      change (chains.setIfInBounds c chain')[chain'.id]? = some chain'
      rw [identity, replaced]
    · obtain ⟨old, found, earlier⟩ := describes.past key content recorded
      by_cases same : key.id = c
      · rw [same, there] at found
        cases found
        exact ⟨chain', by rw [same, replaced], by omega⟩
      · exact ⟨old, by rw [others _ same, found], earlier⟩

/-- A changed chain has the key and the content it had, or a key that was never seen. -/
theorem DescribesChains.change (describes : ledger.DescribesChains chains) {c : Nat}
    {chain chain' : Chain Float} (there : chains[c]? = some chain)
    (changed : chain.Change chain') :
    ∃ later : Ledger, later.Extends ledger ∧ later.nodes = ledger.nodes ∧
      later.DescribesChains (chains.setIfInBounds c chain') := by
  have identity : chain'.id = c := changed.id_eq.trans (describes.id_eq c chain there)
  have current := changed.matrixCurrent (describes.matrixCurrent c chain there)
  obtain ⟨sameVersion, sameContent⟩ | advanced := changed.version_content
  · have sameKey : chain'.key = chain.key := by
      simp only [Chain.key, sameVersion, changed.id_eq]
    refine ⟨ledger, .refl ledger, rfl, describes.replace (.refl ledger) there identity current
      (by omega) ?_ fun key content recorded => .inr recorded⟩
    rw [sameKey, sameContent]
    exact describes.recorded c chain there
  · have new : ledger.contents chain'.key = none := by
      -- No recorded version of the chain is later than its present one, so the next is new.
      cases recorded : ledger.contents chain'.key with
      | none => rfl
      | some content =>
        obtain ⟨old, found, earlier⟩ := describes.past _ _ recorded
        change chains[chain'.id]? = some old at found
        change chain'.version ≤ old.version at earlier
        rw [identity, there] at found
        cases found
        omega
    refine ⟨ledger.record chain', extends_record new, rfl, describes.replace (extends_record new)
      there identity current (by omega) (by simp [record]) ?_⟩
    intro key content recorded
    simp only [record] at recorded
    split at recorded
    · next same => exact .inl same
    · exact .inr recorded

end Chains

/-! ## Nodes -/

section Nodes

variable {ledger : Ledger} {formulas : Table (Node.Any Float)} {fresh : Nat}

theorem DescribesNodes.congr (describes : ledger.DescribesNodes formulas fresh) {later : Ledger}
    (same : later.nodes = ledger.nodes) : later.DescribesNodes formulas fresh := by
  refine ⟨?_, ?_, ?_, ?_⟩ <;> rw [same]
  · exact describes.named
  · exact describes.parts
  · exact describes.unique
  · exact describes.below

/-- A node can be named if its parts are old or have new identities, each its own. -/
theorem DescribesNodes.put (describes : ledger.DescribesNodes formulas fresh) {n : Node.Any Float}
    {fresh' : Nat} (forward : fresh ≤ fresh')
    (origin : ∀ part ∈ n.node.parts, ledger.nodes part ∨ fresh ≤ part.node.id)
    (below : ∀ part ∈ n.node.parts, part.node.id < fresh')
    (apart : ∀ part ∈ n.node.parts, ∀ other ∈ n.node.parts,
      part.node.id = other.node.id → part = other) (name : String) :
    (ledger.recordNodes (· ∈ n.node.parts)).DescribesNodes (formulas.put name n) fresh' := by
  -- Old nodes have old identities, so a part with a new one is none of them.
  have oldAndNew : ∀ old, ledger.nodes old → ∀ part ∈ n.node.parts,
      old.node.id = part.node.id → old = part := by
    intro old made part member same
    cases origin part member with
    | inl known => exact describes.unique old part made known same
    | inr new =>
      have := describes.below old made
      omega
  constructor
  · intro other m found
    by_cases same : other = name
    · subst same
      rw [Table.find?_put_self] at found
      cases found
      exact .inr (Node.mem_parts_self _)
    · rw [Table.find?_put_of_ne _ _ same] at found
      exact .inl (describes.named other m found)
  · rintro m (made | member) part below
    · exact .inl (describes.parts m made part below)
    · exact .inr (Node.mem_parts_trans member below)
  · rintro m m' (made | member) (made' | member') same
    · exact describes.unique m m' made made' same
    · exact oldAndNew m made m' member' same
    · exact (oldAndNew m' made' m member same.symm).symm
    · exact apart m member m' member' same
  · rintro m (made | member)
    · have := describes.below m made
      omega
    · exact below m member

theorem DescribesNodes.putFormula (describes : ledger.DescribesNodes formulas fresh)
    (f : Formula.Any Float) (name : String) :
    (ledger.recordNodes (· ∈ (Node.Any.ofFormula fresh f).1.node.parts)).DescribesNodes
      (formulas.put name (Node.Any.ofFormula fresh f).1) (Node.Any.ofFormula fresh f).2 := by
  obtain ⟨forward, ids⟩ := Node.mem_ids_ofFormula fresh f.formula
  have range : ∀ part ∈ (Node.ofFormula fresh f.formula).1.parts,
      fresh ≤ part.node.id ∧ part.node.id < (Node.ofFormula fresh f.formula).2 := by
    intro part member
    apply ids
    rw [Node.ids_eq]
    exact List.mem_map_of_mem member
  have nodup := Node.nodup_ids_ofFormula fresh f.formula
  rw [Node.ids_eq] at nodup
  refine describes.put (Nat.le_of_lt forward) (fun part member => .inr (range part member).1)
    (fun part member => (range part member).2) ?_ name
  intro part member other otherMember same
  exact List.inj_on_of_nodup_map nodup member otherMember same

theorem DescribesNodes.putOperator (describes : ledger.DescribesNodes formulas fresh)
    {op : Operator Float (Node.Any Float)} {n : Node.Any Float}
    (named : ∀ operand ∈ op.operands, ∃ name, formulas.find? name = some operand)
    (made : op.node fresh = .ok n) (name : String) :
    (ledger.recordNodes (· ∈ n.node.parts)).DescribesNodes (formulas.put name n) (fresh + 1) := by
  obtain ⟨identity, parts⟩ := Operator.node_eq_ok made
  have origin : ∀ part ∈ n.node.parts, part = n ∨ ledger.nodes part := by
    intro part member
    obtain rfl | ⟨operand, operandMember, partMember⟩ := parts part member
    · exact .inl rfl
    · obtain ⟨operandName, found⟩ := named operand operandMember
      exact .inr (describes.parts operand (describes.named _ _ found) part partMember)
  refine describes.put (Nat.le_succ fresh) ?_ ?_ ?_ name
  · intro part member
    obtain rfl | known := origin part member
    · exact .inr (Nat.le_of_eq identity.symm)
    · exact .inl known
  · intro part member
    obtain rfl | known := origin part member
    · omega
    · have := describes.below part known
      omega
  · intro part member other otherMember same
    rcases origin part member with rfl | known <;> rcases origin other otherMember with rfl | known'
    · rfl
    · have := describes.below other known'
      omega
    · have := describes.below part known
      omega
    · exact describes.unique part other known known' same

theorem DescribesNodes.makes {s : Session} (describes : ledger.DescribesNodes s.formulas s.freshNode)
    {n : Node.Any Float} (makes : s.Makes n fresh) (name : String) :
    (ledger.recordNodes (· ∈ n.node.parts)).DescribesNodes (s.formulas.put name n) fresh := by
  cases makes with
  | formula f => exact describes.putFormula f name
  | operator named made => exact describes.putOperator named made name

end Nodes

/-! ## Sessions -/

variable {ledger : Ledger} {limit : Nat} {s : Session}

theorem settings_widens (c : Chain Float) {o : Options Float} (allowed : o.maxIterations ≤ limit) :
    (settings (.of c o) limit).Widens o :=
  Options.widens_of_running rfl rfl rfl allowed

/-- Under the key of a current chain, the justified entries of a recorded node are its value. -/
theorem Describes.justifies_iff (describes : ledger.Describes limit s) {c : Nat}
    {chain : Chain Float} (there : s.chains[c]? = some chain) (o : Options Float)
    {n : Node.Any Float} (made : ledger.nodes n) (v : Value Float n.kind) :
    ledger.Justifies limit n.kind n.node.id ⟨.of chain o, v⟩ ↔
      chain.evaluate (settings (.of chain o) limit) n.node.formula = .ok v := by
  have recorded := describes.chains.recorded c chain there
  have current := describes.chains.matrixCurrent c chain there
  constructor
  · rintro ⟨m, mMade, same, content, known, value⟩
    obtain ⟨k, node⟩ := n
    -- The entry was made for this node and this content, since identity and key determine both.
    cases describes.nodes.unique ⟨k, m⟩ ⟨k, node⟩ mMade made same
    cases recorded.symm.trans known
    rwa [Chain.evaluate_content current] at value
  · intro value
    refine ⟨n.node, made, rfl, chain.content, recorded, ?_⟩
    rwa [Chain.evaluate_content current]

/-- Evaluation of a recorded node keeps what is remembered justified and agrees with evaluation
without memory. -/
theorem Describes.evaluate_meets (describes : ledger.Describes limit s) {c : Nat}
    {chain : Chain Float} (there : s.chains[c]? = some chain) {o : Options Float}
    (allowed : o.maxIterations ≤ limit) {k : Kind} {n : Node Float k} (made : ledger.nodes ⟨k, n⟩) :
    EvalM.Meets (ledger.Justifies limit) (n.evaluate chain o)
      (chain.evaluatePolling (settings (.of chain o) limit) n.formula)
      (chain.evaluatePolling o n.formula) :=
  Node.evaluate_meets (settings_widens chain allowed) rfl chain n fun part member v =>
    describes.justifies_iff there o (describes.nodes.parts _ made part member) v

/-- A change of the session is matched by a ledger that has all that the old one has. -/
theorem Describes.change {t : Session} (describes : ledger.Describes limit s)
    (change : Session.Change limit s t) :
    ∃ later : Ledger, later.Extends ledger ∧ later.Describes limit t := by
  cases change with
  | newChain =>
    have current : (Chain.empty s.chains.size : Chain Float).MatrixCurrent := by
      intro m kept
      cases kept
    obtain ⟨extension, chains⟩ := describes.chains.push rfl current
    exact ⟨_, extension, chains, describes.nodes.congr rfl,
      describes.remembered.mono extension.justifies⟩
  | @duplicate _ source there =>
    have current : (source.duplicate s.chains.size).MatrixCurrent := by
      intro m kept
      cases kept
    obtain ⟨extension, chains⟩ := describes.chains.push rfl current
    exact ⟨_, extension, chains, describes.nodes.congr rfl,
      describes.remembered.mono extension.justifies⟩
  | chain there changed =>
    obtain ⟨later, extension, sameNodes, chains⟩ := describes.chains.change there changed
    exact ⟨later, extension, chains, describes.nodes.congr sameNodes,
      describes.remembered.mono extension.justifies⟩
  | formula makes name =>
    exact ⟨_, extends_recordNodes ledger _, describes.chains.recordNodes _,
      describes.nodes.makes makes name,
      describes.remembered.mono (extends_recordNodes ledger _).justifies⟩
  | evaluate there named allowed =>
    -- Evaluation stores only justified entries, also when it fails half way.
    have meets := describes.evaluate_meets there allowed (describes.nodes.named _ _ named)
    exact ⟨ledger, .refl ledger, describes.chains, describes.nodes,
      (meets.agrees describes.remembered.newCall).all⟩
  | forget named =>
    exact ⟨ledger, .refl ledger, describes.chains, describes.nodes, describes.remembered.forget _⟩
  | distributions | signals =>
    exact ⟨ledger, .refl ledger, describes.chains, describes.nodes, describes.remembered⟩

/-- The ledger of a session that starts. -/
def start : Ledger :=
  ⟨fun key => if key = ⟨0, 0⟩ then some (Chain.empty 0) else none, fun _ => False⟩

theorem describes_start (limit : Nat) : start.Describes limit Session.start := by
  have only : ∀ (c : Nat) (chain : Chain Float), Session.start.chains[c]? = some chain →
      c = 0 ∧ chain = Chain.empty 0 := by
    intro c chain there
    cases c with
    | zero => exact ⟨rfl, (Option.some.inj there).symm⟩
    | succ c => cases there
  refine ⟨⟨?_, ?_, ?_, ?_⟩, ⟨?_, ?_, ?_, ?_⟩, Memo.all_empty _⟩
  · intro c chain there
    obtain ⟨rfl, rfl⟩ := only c chain there
    rfl
  · intro c chain there
    obtain ⟨rfl, rfl⟩ := only c chain there
    intro m kept
    cases kept
  · intro c chain there
    obtain ⟨rfl, rfl⟩ := only c chain there
    rfl
  · intro key content recorded
    simp only [start] at recorded
    split at recorded
    · next same =>
      subst same
      exact ⟨Chain.empty 0, rfl, Nat.le_refl 0⟩
    · cases recorded
  · intro name n found
    cases found
  · intro n made
    cases made
  · intro n m made
    cases made
  · intro n made
    cases made

end Ledger

/-- A ledger of the past can be continued over any number of changes. -/
theorem Session.Steps.exists_ledger {ledger : Ledger} {limit : Nat} {s t : Session}
    (steps : Steps limit s t) (describes : ledger.Describes limit s) :
    ∃ later : Ledger, later.Extends ledger ∧ later.Describes limit t := by
  refine steps.keeps (P := fun u => ∃ later : Ledger, later.Extends ledger ∧
    later.Describes limit u) ?_ ⟨ledger, .refl ledger, describes⟩
  rintro u v change ⟨between, extension, describes'⟩
  obtain ⟨later, extension', describes''⟩ := describes'.change change
  exact ⟨later, extension'.trans extension, describes''⟩

/-- After every history some ledger is right about the session. -/
theorem exists_ledger {limit : Nat} (history : List Command)
    (allowed : ∀ command ∈ history, command.allowance ≤ limit) :
    ∃ ledger : Ledger, ledger.Describes limit (Session.start.after history) := by
  have steps := Session.after_steps history allowed Session.start
  obtain ⟨ledger, _, describes⟩ := steps.exists_ledger (Ledger.describes_start limit)
  exact ⟨ledger, describes⟩

end MarkovCheck

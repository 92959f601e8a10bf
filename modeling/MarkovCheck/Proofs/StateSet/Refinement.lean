import MarkovCheck.Session.Registers
import MarkovCheck.Proofs.StateSet.Listing

/-!
# Registers hold finite sets

Commands on registers of state sets are read a second time, as commands on finite sets of numbers.
The two readings stay in step: after every sequence of commands a register has the members of the
finite set of the same name, and whatever is asked about it is answered as for the finite set. How
many words a set has, which depends on its past, shows in no answer.

* `SetExpr.finset`, `SetCommand.effect`: the commands on finite sets
* `StateSet.Represents`: a set has the members of a finite set, and counts them
* `StateSet.beq_iff`: sets that count their members are equal when they have the same ones
* `Registers.Refines.run`, `Registers.refines_after`: one command, and any sequence of them
-/

namespace MarkovCheck

/-- The finite set that an expression gives, when each name stands for a finite set. -/
def SetExpr.finset (sets : String → Finset Nat) : SetExpr → Finset Nat
  | .empty => ∅
  | .withCapacity _ => ∅
  | .full n => Finset.range n
  | .ofList ids => ids.toFinset
  | .extend a ids => sets a ∪ ids.toFinset
  | .union a b => sets a ∪ sets b
  | .inter a b => sets a ∩ sets b
  | .diff a b => sets a \ sets b
  | .complement a n => Finset.range n \ sets a

/-- What a command does to named finite sets. -/
def SetCommand.effect (sets : String → Finset Nat) : SetCommand → String → Finset Nat
  | .store target e => Function.update sets target (e.finset sets)
  | .insert a id => Function.update sets a ({id} ∪ sets a)
  | .contains _ _ | .equal _ _ | .text _ | .taggedText _ => sets

namespace StateSet

/-! ## Equality -/

theorem contains_eq_of_wordAt {s t : StateSet} (same : ∀ i, s.wordAt i = t.wordAt i) (x : Nat) :
    s.contains x = t.contains x := by
  simp only [contains, same]

/-- The bits of the words are the members, so sets with the same members have the same words. -/
theorem wordAt_eq_of_contains {s t : StateSet} (same : ∀ x, s.contains x = t.contains x)
    (i : Nat) : s.wordAt i = t.wordAt i := by
  apply BitVec.eq_of_getLsbD_eq
  intro j inside
  have bit := same (64 * i + j)
  have quotient : (64 * i + j) / 64 = i := by omega
  have remainder : (64 * i + j) % 64 = j := by omega
  rwa [contains, contains, quotient, remainder] at bit

theorem wordAt_of_size_le (s : StateSet) {i : Nat} (beyond : s.words.size ≤ i) :
    s.wordAt i = 0 := by
  simp [wordAt_eq_getElem?, beyond]

/-- Sets that count their members are equal exactly when they have the same members. -/
theorem beq_iff {s t : StateSet} (left : s.Counted) (right : t.Counted) :
    (s == t) = true ↔ s.toFinset = t.toFinset := by
  have unfolded : (s == t) = true ↔ s.size = t.size ∧
      ∀ i < max s.words.size t.words.size, s.wordAt i = t.wordAt i := by
    change StateSet.beq s t = true ↔ _
    simp [StateSet.beq]
  rw [unfolded]
  constructor
  · rintro ⟨_, words⟩
    have all : ∀ i, s.wordAt i = t.wordAt i := by
      intro i
      by_cases inside : i < max s.words.size t.words.size
      · exact words i inside
      · -- Beyond both rows every word is zero.
        rw [s.wordAt_of_size_le (by omega), t.wordAt_of_size_le (by omega)]
    ext x
    rw [mem_toFinset, mem_toFinset, contains_eq_of_wordAt all]
  · intro same
    have contains : ∀ x, s.contains x = t.contains x := by
      intro x
      rw [Bool.eq_iff_iff, ← mem_toFinset, ← mem_toFinset, same]
    exact ⟨by rw [left, right, same], fun i _ => wordAt_eq_of_contains contains i⟩

theorem beq_iff_contains {s t : StateSet} (left : s.Counted) (right : t.Counted) :
    (s == t) = true ↔ ∀ x, s.contains x = true ↔ t.contains x = true := by
  simp only [beq_iff left right, Finset.ext_iff, mem_toFinset]

/-! ## Representation -/

/-- A set of states has the members of a finite set, and its size is their number. -/
structure Represents (s : StateSet) (m : Finset Nat) : Prop where
  toFinset_eq : s.toFinset = m
  counted : s.Counted

theorem represents_combine {op : Word → Word → Word} {s t : StateSet} {m : Finset Nat}
    (members : ∀ x, (combine op s t).contains x = true ↔ x ∈ m) :
    (combine op s t).Represents m := by
  refine ⟨?_, counted_combine op s t⟩
  ext x
  rw [mem_toFinset, members]

namespace Represents

variable {s t : StateSet} {m k : Finset Nat}

theorem contains_iff (represents : s.Represents m) (x : Nat) : s.contains x = true ↔ x ∈ m := by
  rw [← mem_toFinset, represents.toFinset_eq]

theorem size_eq (represents : s.Represents m) : s.size = m.card := by
  rw [← represents.toFinset_eq]
  exact represents.counted

theorem mem_toList_iff (represents : s.Represents m) (x : Nat) : x ∈ s.toList ↔ x ∈ m := by
  rw [mem_toList, represents.contains_iff]

/-- An insertion tells whether the number was absent. -/
theorem insertNew_iff (represents : s.Represents m) (x : Nat) :
    (s.insertNew x).1 = true ↔ x ∉ m := by
  rw [← represents.contains_iff]
  simp only [insertNew]
  split
  · next present => simp [present]
  · next absent => simp [absent]

theorem beq_iff (left : s.Represents m) (right : t.Represents k) :
    (s == t) = true ↔ m = k := by
  rw [StateSet.beq_iff left.counted right.counted, left.toFinset_eq, right.toFinset_eq]

theorem insert (represents : s.Represents m) (x : Nat) :
    (s.insert x).Represents ({x} ∪ m) := by
  refine ⟨?_, represents.counted.insert x⟩
  rw [toFinset_insert, represents.toFinset_eq]

theorem extend (represents : s.Represents m) (xs : List Nat) :
    (s.extend xs).Represents (m ∪ xs.toFinset) := by
  refine ⟨?_, represents.counted.extend xs⟩
  ext x
  rw [mem_toFinset, contains_extend, Bool.or_eq_true, List.contains_iff_mem,
    represents.contains_iff, Finset.mem_union, List.mem_toFinset, or_comm]

theorem union (left : s.Represents m) (right : t.Represents k) :
    (s.union t).Represents (m ∪ k) := by
  apply represents_combine
  intro x
  have both := s.contains_union t x
  rw [StateSet.union] at both
  rw [both, Bool.or_eq_true, left.contains_iff, right.contains_iff, Finset.mem_union]

theorem inter (left : s.Represents m) (right : t.Represents k) :
    (s.inter t).Represents (m ∩ k) := by
  apply represents_combine
  intro x
  have both := s.contains_inter t x
  rw [StateSet.inter] at both
  rw [both, Bool.and_eq_true, left.contains_iff, right.contains_iff, Finset.mem_inter]

theorem diff (left : s.Represents m) (right : t.Represents k) :
    (s.diff t).Represents (m \ k) := by
  apply represents_combine
  intro x
  have both := s.contains_diff t x
  rw [StateSet.diff] at both
  rw [both, Bool.and_eq_true, Bool.not_eq_true', left.contains_iff, Finset.mem_sdiff,
    ← right.contains_iff, Bool.not_eq_true]

end Represents

theorem represents_withCapacity (n : Nat) : (withCapacity n).Represents ∅ := by
  refine ⟨?_, counted_withCapacity n⟩
  ext x
  simp

theorem represents_empty : empty.Represents ∅ := represents_withCapacity 0

theorem represents_full (n : Nat) : (full n).Represents (Finset.range n) :=
  ⟨toFinset_full n, counted_full n⟩

end StateSet

namespace Registers

/-! ## Sequences of commands -/

/-- The registers after some commands, starting with empty ones. -/
def after (commands : List SetCommand) : Registers :=
  commands.foldl (fun r command => (r.run command).2) Table.empty

/-- The finite sets after the same commands, starting with empty ones. -/
def finsetsAfter (commands : List SetCommand) : String → Finset Nat :=
  commands.foldl SetCommand.effect fun _ => ∅

/-- Each register represents the finite set of its name. -/
def Refines (r : Registers) (sets : String → Finset Nat) : Prop :=
  ∀ name, (r.read name).Represents (sets name)

variable {r : Registers} {sets : String → Finset Nat}

theorem Refines.value (refines : r.Refines sets) (e : SetExpr) :
    (r.value e).Represents (e.finset sets) := by
  cases e with
  | empty => exact StateSet.represents_empty
  | withCapacity n => exact StateSet.represents_withCapacity n
  | full n => exact StateSet.represents_full n
  | ofList ids =>
    have extended := StateSet.represents_empty.extend ids
    rwa [Finset.empty_union] at extended
  | extend a ids => exact (refines a).extend ids
  | union a b => exact (refines a).union (refines b)
  | inter a b => exact (refines a).inter (refines b)
  | diff a b => exact (refines a).diff (refines b)
  | complement a n => exact (StateSet.represents_full n).diff (refines a)

theorem Refines.put (refines : r.Refines sets) (name : String) {s : StateSet} {m : Finset Nat}
    (represents : s.Represents m) : Refines (r.put name s) (Function.update sets name m) := by
  intro other
  by_cases same : other = name
  · subst same
    rw [read, Table.find?_put_self, Option.getD_some, Function.update_self]
    exact represents
  · rw [read, Table.find?_put_of_ne _ _ same, Function.update_of_ne same]
    exact refines other

/-- A command does to the registers what it does to the finite sets. -/
theorem Refines.run (refines : r.Refines sets) (command : SetCommand) :
    Refines (r.run command).2 (command.effect sets) := by
  cases command with
  | store target e => exact refines.put target (refines.value e)
  | insert a id => exact refines.put a ((refines a).insert id)
  | contains a ids | equal a b | text a | taggedText a => exact refines

/-- So does every sequence of commands. -/
theorem refines_after (commands : List SetCommand) :
    Refines (after commands) (finsetsAfter commands) := by
  have all : ∀ (r : Registers) (sets : String → Finset Nat), r.Refines sets →
      Refines (commands.foldl (fun r command => (r.run command).2) r)
        (commands.foldl SetCommand.effect sets) := by
    induction commands with
    | nil =>
      intro r sets refines
      exact refines
    | cons command rest inductionHypothesis =>
      intro r sets refines
      exact inductionHypothesis _ _ (refines.run command)
  exact all _ _ fun _ => StateSet.represents_empty

/-- After every sequence of commands, a register answers all questions as the finite set of its name
does: which numbers it has and how many, whether an insertion brings a new one, which is the
largest, what a cursor lists, and which other registers are equal to it. -/
theorem read_after (commands : List SetCommand) (name : String) :
    let s := (after commands).read name
    let m := finsetsAfter commands name
    (∀ x, s.contains x = true ↔ x ∈ m) ∧ s.size = m.card ∧
      (∀ x, (s.insertNew x).1 = true ↔ x ∉ m) ∧
      (s.max? = none ↔ m = ∅) ∧ (∀ x, s.max? = some x ↔ IsGreatest (m : Set Nat) x) ∧
      (∃ listed, s.Yields s.cursor listed ∧ listed = s.toList ∧ listed.Pairwise (· < ·) ∧
        ∀ x, x ∈ listed ↔ x ∈ m) ∧
      ∀ other, (s == (after commands).read other) = true ↔ m = finsetsAfter commands other := by
  intro s m
  have refines := refines_after commands
  have represents : s.Represents m := refines name
  refine ⟨represents.contains_iff, represents.size_eq, represents.insertNew_iff, ?_, ?_, ?_, ?_⟩
  · rw [StateSet.max?_eq_none, represents.toFinset_eq]
  · intro x
    rw [StateSet.max?_eq_some, represents.toFinset_eq]
  · exact ⟨s.toList, s.cursor_yields, rfl, s.pairwise_toList, represents.mem_toList_iff⟩
  · intro other
    exact represents.beq_iff (refines other)

end Registers

end MarkovCheck

import MarkovCheck.Text.Quoted

/-!
# Sets of states

States are numbered from zero, and a set of states is a row of 64-bit words with one bit for each
number, together with its size. Two rows of different length can be the same set, so equality
compares members and not words.

* membership: `contains`, `toList` in increasing order, `max?`
* construction: `empty`, `withCapacity`, `full`, `insertNew`, `ofList`, `extend`
* algebra: `union`, `inter`, `diff`, `complement`
-/

namespace MarkovCheck

def idText (s : Nat) : String := "s" ++ toString s

abbrev Word := BitVec 64

namespace Word

/-- The positions of the bits that are set, in increasing order. -/
def positions (w : Word) : List Nat := (List.range 64).filter w.getLsbD

def population (w : Word) : Nat := (List.range 64).countP w.getLsbD

/-- How many bits lie above the highest one that is set. -/
def leadingZeros (w : Word) : Nat := w.clz.toNat

/-- The word whose lowest `k` bits are set, all of them from 64 on. -/
def low (k : Nat) : Word := if 64 ≤ k then BitVec.allOnes 64 else (1#64 <<< k) - 1#64

end Word

/-- A finite set of state numbers: its bits and how many of them are set. -/
structure StateSet where
  words : Array Word
  size : Nat

namespace StateSet

def empty : StateSet := ⟨#[], 0⟩

instance : Inhabited StateSet := ⟨empty⟩

def wordsFor (n : Nat) : Nat := (n + 63) / 64

/-- The set without members, with room for the numbers below `n`. -/
def withCapacity (n : Nat) : StateSet := ⟨Array.replicate (wordsFor n) 0, 0⟩

def full (n : Nat) : StateSet :=
  ⟨Array.ofFn fun i : Fin (wordsFor n) => Word.low (n - 64 * i.val), n⟩

/-- The `i`-th word; words beyond the row are zero. -/
def wordAt (s : StateSet) (i : Nat) : Word := s.words.getD i 0

def contains (s : StateSet) (id : Nat) : Bool := (s.wordAt (id / 64)).getLsbD (id % 64)

def isEmpty (s : StateSet) : Bool := decide (s.size = 0)

/-- Adds a number, and tells whether it was absent. -/
def insertNew (s : StateSet) (id : Nat) : Bool × StateSet :=
  let grown := s.words ++ Array.replicate (id / 64 + 1 - s.words.size) (0 : Word)
  if s.contains id then (false, ⟨grown, s.size⟩)
  else (true, ⟨grown.modify (id / 64) (· ||| (1#64 <<< (id % 64))), s.size + 1⟩)

def insert (s : StateSet) (id : Nat) : StateSet := (s.insertNew id).2

def extend (s : StateSet) (ids : List Nat) : StateSet := ids.foldl insert s

def ofList (ids : List Nat) : StateSet := empty.extend ids

def toList (s : StateSet) : List Nat :=
  (List.range s.words.size).flatMap fun i => (s.wordAt i).positions.map (64 * i + ·)

/-- The largest member: the last word that is not zero has its highest bit. -/
def max? (s : StateSet) : Option Nat :=
  ((List.range s.words.size).reverse.find? fun i => s.wordAt i ≠ 0).map fun i =>
    64 * i + 63 - (s.wordAt i).leadingZeros

/-- Combines two sets word by word and counts the members anew. -/
def combine (op : Word → Word → Word) (s t : StateSet) : StateSet :=
  let words := Array.ofFn fun i : Fin (max s.words.size t.words.size) =>
    op (s.wordAt i.val) (t.wordAt i.val)
  ⟨words, words.foldl (fun n w => n + w.population) 0⟩

def union (s t : StateSet) : StateSet := combine (· ||| ·) s t

def inter (s t : StateSet) : StateSet := combine (· &&& ·) s t

/-- The numbers in the first set and not in the second. -/
def diff (s t : StateSet) : StateSet := combine (fun a b => a &&& ~~~b) s t

/-- The numbers below `n` that are not in the set. -/
def complement (s : StateSet) (n : Nat) : StateSet := (full n).diff s

protected def beq (s t : StateSet) : Bool :=
  decide (s.size = t.size) &&
    (List.range (max s.words.size t.words.size)).all fun i => s.wordAt i == t.wordAt i

instance : BEq StateSet := ⟨StateSet.beq⟩

def text (s : StateSet) : String :=
  Text.enclosed "\x7b" "\x7d" (s.toList.map idText)

def taggedText (s : StateSet) : String :=
  Text.enclosed "\x7b" "\x7d" (s.toList.map fun id => "StateId(" ++ toString id ++ ")")

end StateSet

end MarkovCheck

import MarkovCheck.StateSet.Basic

/-!
# Walking through a set of states

A cursor stands in one word of a set and has those bits of the word that are still to be listed. A
step gives the lowest of them and clears it; where none is left, the cursor moves to the next word
that has some, and past the last word there is no further step.
-/

namespace MarkovCheck

namespace Word

/-- The position of the lowest bit that is set. -/
def lowest (w : Word) : Nat := w.ctz.toNat

def clearLowest (w : Word) : Word := w &&& (w - 1#64)

end Word

/-- A place in the listing of a set: the number of a word, and its bits not listed yet. -/
structure Cursor where
  place : Nat
  pending : Word

namespace StateSet

/-- The cursor before the first member. -/
def cursor (s : StateSet) : Cursor := ⟨0, s.wordAt 0⟩

/-- The next member, and the cursor after it. -/
def next? (s : StateSet) (c : Cursor) : Option (Nat × Cursor) :=
  if c.pending = 0 then
    if c.place + 1 < s.words.size then s.next? ⟨c.place + 1, s.wordAt (c.place + 1)⟩ else none
  else some (64 * c.place + c.pending.lowest, ⟨c.place, c.pending.clearLowest⟩)
termination_by s.words.size - c.place

end StateSet

end MarkovCheck

import MarkovCheck.Formula.Parser

/-!
# Splitting the bytes of a text into tokens

The same tokens, found by walking along the bytes of the text. A byte is judged like the character
of the same code, and the text of a token is cut out of the whole text between two byte offsets. A
cut that is not between two boundaries of characters is a misuse, and so is a token that does not
advance.

* `ByteLexer.byte?`, `ByteLexer.slice`: the accesses to the text
* `ByteLexer.skip`: the end of a run of bytes
* `ByteLexer.tokenAt`, `ByteLexer.tokensAt`: one token, and all tokens from an offset on
* `Formula.parseBytes`: reading a formula from bytes
-/

namespace MarkovCheck

namespace ByteLexer

/-- The character with the code of the byte at an offset, if the text goes on that far. -/
def byte? (s : String) (i : Nat) : Option Char :=
  s.toByteArray[i]?.map fun b => Char.ofNat b.toNat

theorem lt_of_byte? {s : String} {i : Nat} {c : Char} (here : byte? s i = some c) :
    i < s.utf8ByteSize := by
  by_cases inside : i < s.toByteArray.size
  · exact inside
  · rw [byte?, getElem?_neg s.toByteArray i inside] at here
    cases here

/-- The text between two byte offsets. -/
def slice (s : String) (first last : Nat) : Except (Error Float) String :=
  if boundaries : String.Pos.Raw.IsValid s ⟨first⟩ ∧ String.Pos.Raw.IsValid s ⟨last⟩ ∧
      first ≤ last then
    .ok (s.extract (s.pos ⟨first⟩ boundaries.1) (s.pos ⟨last⟩ boundaries.2.1))
  else .error .misuse

/-- The first offset from `i` on at which the text ends or the property fails. -/
def skip (s : String) (p : Char → Bool) (i : Nat) : Nat :=
  match _here : byte? s i with
  | some c => if p c then skip s p (i + 1) else i
  | none => i
termination_by s.utf8ByteSize - i
decreasing_by
  have := lt_of_byte? _here
  omega

/-- Reads the token that starts at an offset with the non-blank byte `c`, and the offset at which it
ends. -/
def tokenAt (s : String) (i : Nat) (c : Char) : Except (Error Float) (Token × Nat) :=
  match Token.ofSign? c with
  | some t => .ok (t, i + 1)
  | none =>
    match Token.ofComparison? c with
    | some t =>
      if byte? s (i + 1) = some '=' then .ok (t, i + 2) else .error (.unreadable i (.lacksEquals c))
    | none =>
      if c = '-' || isNumberChar c then do
        let stop := skip s isNumberChar (i + 1)
        let digits ← slice s i stop
        return (.number digits.toList, stop)
      else if isNameStart c then do
        let stop := skip s isNameChar i
        let name ← slice s i stop
        return (Token.ofName name.toList, stop)
      else do
        let rest ← slice s i s.utf8ByteSize
        .error (.unreadable i (.strayChar (rest.toList.headD '?')))

/-- The tokens from an offset on. -/
def tokensAt (s : String) (i : Nat) : Except (Error Float) (List Located) :=
  match _here : byte? s i with
  | none => .ok []
  | some c =>
    if isBlank c then tokensAt s (i + 1)
    else
      match tokenAt s i c with
      | .error e => .error e
      | .ok (t, stop) =>
        if _advanced : i < stop then
          match tokensAt s stop with
          | .error e => .error e
          | .ok ts => .ok (⟨i, t⟩ :: ts)
        else .error .misuse
termination_by s.utf8ByteSize - i
decreasing_by all_goals
  have := lt_of_byte? _here
  omega

end ByteLexer

namespace Formula

def tokenizeBytes (s : String) : Except (Error Float) (List Located) := ByteLexer.tokensAt s 0

def parseBytes (s : String) : Except (Error Float) (Any Float) := do
  let ts ← tokenizeBytes s
  Parser.whole s.utf8ByteSize ts

end Formula

end MarkovCheck

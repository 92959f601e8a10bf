import MarkovCheck.Formula.Token

/-!
# Splitting a text into tokens

Tokens are read greedily from the left, and blanks between them are skipped. Offsets count bytes;
every token and every blank is ASCII, so an offset advances by one for each character.

* `Token.scan`: the token that starts a non-blank text, and what follows it
* `tokensFrom`: all tokens of a text, or its first lexical problem
-/

namespace MarkovCheck

/-- Blank, tab, line feed, form feed and carriage return separate tokens. -/
def isBlank (c : Char) : Bool :=
  c = ' ' || c = '\t' || c = '\n' || c = '\x0c' || c = '\r'

/-- The characters a number consists of after its first one. -/
def isNumberChar (c : Char) : Bool := c.isDigit || c = '.'

def isNameStart (c : Char) : Bool := c.isLower || c = '_'

/-- The characters a name consists of after its first one. -/
def isNameChar (c : Char) : Bool := c.isAlphanum || c = '_'

namespace Token

def ofSign? : Char → Option Token
  | '(' => some lparen
  | ')' => some rparen
  | '[' => some lbracket
  | ']' => some rbracket
  | ',' => some comma
  | '!' => some bang
  | '&' => some amp
  | '|' => some bar
  | 'X' => some x
  | 'U' => some u
  | 'P' => some p
  | _ => none

/-- The tokens that an equality sign completes, by their first character. -/
def ofComparison? : Char → Option Token
  | '<' => some le
  | '>' => some ge
  | '=' => some eqEq
  | _ => none

/-- A name is an atom, unless it is a truth value. -/
def ofName (name : List Char) : Token :=
  if name = top.spelling then top else if name = bot.spelling then bot else atom name

/-- Reads the token that starts with the non-blank character `c`. -/
def scan (c : Char) (rest : List Char) : Except SyntaxProblem (Token × List Char) :=
  match ofSign? c with
  | some t => .ok (t, rest)
  | none =>
    match ofComparison? c with
    | some t =>
      match rest with
      | '=' :: rest' => .ok (t, rest')
      | _ => .error (.lacksEquals c)
    | none =>
      if c = '-' || isNumberChar c then
        .ok (number (c :: rest.takeWhile isNumberChar), rest.dropWhile isNumberChar)
      else if isNameStart c then
        .ok (ofName (c :: rest.takeWhile isNameChar), rest.dropWhile isNameChar)
      else .error (.strayChar c)

theorem length_dropWhile_le (q : Char → Bool) (cs : List Char) :
    (cs.dropWhile q).length ≤ cs.length :=
  (List.dropWhile_suffix q).sublist.length_le

/-- Reading a token consumes at least its first character. -/
theorem length_scan_le {c : Char} {rest : List Char} {t : Token} {rest' : List Char}
    (h : scan c rest = .ok (t, rest')) : rest'.length ≤ rest.length := by
  unfold scan at h
  split at h
  · simp_all
  · split at h
    · split at h
      · simp only [Except.ok.injEq, Prod.mk.injEq] at h
        obtain ⟨rfl, rfl⟩ := h
        simp
      · cases h
    · split at h
      · simp only [Except.ok.injEq, Prod.mk.injEq] at h
        obtain ⟨rfl, rfl⟩ := h
        exact length_dropWhile_le _ _
      · split at h
        · simp only [Except.ok.injEq, Prod.mk.injEq] at h
          obtain ⟨rfl, rfl⟩ := h
          exact length_dropWhile_le _ _
        · cases h

end Token

/-- The tokens of a text whose first character has the given offset, or the offset and nature of
the first lexical problem. -/
def tokensFrom (offset : Nat) (cs : List Char) : Except (Nat × SyntaxProblem) (List Located) :=
  match cs with
  | [] => .ok []
  | c :: rest =>
    if isBlank c then tokensFrom (offset + 1) rest
    else
      match _scanned : Token.scan c rest with
      | .error problem => .error (offset, problem)
      | .ok (t, rest') =>
        match tokensFrom (offset + t.spelling.length) rest' with
        | .error e => .error e
        | .ok ts => .ok (⟨offset, t⟩ :: ts)
termination_by cs.length
decreasing_by
  · simp
  · have := Token.length_scan_le _scanned
    simp only [List.length_cons]
    omega

end MarkovCheck

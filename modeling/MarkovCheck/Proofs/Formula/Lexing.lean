import Mathlib.Data.List.TakeWhile
import MarkovCheck.Formula.Lexer

/-!
# Spelled tokens are recognized

Every token that is found in a text is well spelled, and a well-spelled token is found again
wherever its spelling stands, unless the character after it goes on with it: tokens are read
greedily, so a name or a number ends where the first other character stands.

* `Token.WellSpelled`: the tokens there can be
* `Token.continues`: the characters that a token does not end before
* `Lexes`: a text consists of the given tokens
-/

namespace MarkovCheck

/-- A name that starts with a lower-case letter or an underscore and goes on with letters, digits
and underscores, other than the truth values. -/
structure IsIdentifier (name : List Char) : Prop where
  start : ∃ c cs, name = c :: cs ∧ isNameStart c = true ∧ ∀ d ∈ cs, isNameChar d = true
  notTop : name ≠ Token.top.spelling
  notBot : name ≠ Token.bot.spelling

namespace Token

def WellSpelled : Token → Prop
  | atom name => IsIdentifier name
  | number digits => ∃ c cs, digits = c :: cs ∧ (c = '-' ∨ isNumberChar c = true) ∧
      ∀ d ∈ cs, isNumberChar d = true
  | _ => True

/-- The token goes on with the character, if it stands right after it. -/
def continues : Token → Char → Bool
  | top | bot | atom _ => isNameChar
  | number _ => isNumberChar
  | _ => fun _ => false

def isSign : Token → Bool
  | top | bot | atom _ | number _ => false
  | _ => true

/-! ## One token -/

/-- The character starts a name or a number. -/
def startsWord (c : Char) : Bool := isNameStart c || c = '-' || isNumberChar c

theorem ofSign?_eq_none {c : Char} (word : startsWord c = true) : ofSign? c = none := by
  unfold ofSign?
  split <;> first | rfl | exact absurd word (by decide)

theorem ofComparison?_eq_none {c : Char} (word : startsWord c = true) :
    ofComparison? c = none := by
  unfold ofComparison?
  split <;> first | rfl | exact absurd word (by decide)

theorem isBlank_eq_false {c : Char} (word : startsWord c = true) : isBlank c = false := by
  by_contra blank
  simp only [Bool.not_eq_false, isBlank, Bool.or_eq_true, decide_eq_true_eq] at blank
  obtain (((rfl | rfl) | rfl) | rfl) | rfl := blank
  all_goals exact absurd word (by decide)

theorem isLower_iff {c : Char} : c.isLower = true ↔ 'a'.val ≤ c.val ∧ c.val ≤ 'z'.val := by
  change (decide ('a'.val ≤ c.val) && decide (c.val ≤ 'z'.val)) = true ↔ _
  rw [Bool.and_eq_true, decide_eq_true_iff, decide_eq_true_iff]

theorem not_number_of_isNameStart {c : Char} (start : isNameStart c = true) :
    (c = '-' || isNumberChar c) = false := by
  by_contra number
  simp only [Bool.not_eq_false, isNumberChar, Bool.or_eq_true, decide_eq_true_eq] at number
  obtain rfl | digit | rfl := number
  · exact absurd start (by decide)
  · simp only [isNameStart, Bool.or_eq_true, decide_eq_true_eq] at start
    obtain lower | rfl := start
    · simp only [isLower_iff, Char.isDigit, Bool.and_eq_true, decide_eq_true_eq, ge_iff_le,
        UInt32.le_iff_toNat_le] at lower digit
      exact absurd (lower.1.trans digit.2) (by decide)
    · exact absurd digit (by decide)
  · exact absurd start (by decide)

/-- What goes on as long as a property holds stops before the first character without it. -/
theorem span_append {p : Char → Bool} {cs rest : List Char} (all : ∀ c ∈ cs, p c = true)
    (stops : rest.head?.any p = false) :
    (cs ++ rest).takeWhile p = cs ∧ (cs ++ rest).dropWhile p = rest := by
  rw [List.takeWhile_append_of_pos all, List.dropWhile_append_of_pos all]
  cases rest with
  | nil => simp
  | cons c rest =>
    have stop : p c = false := stops
    simp [stop]

theorem scan_number {c : Char} {cs rest : List Char} (start : c = '-' ∨ isNumberChar c = true)
    (digits : ∀ d ∈ cs, isNumberChar d = true) (stops : rest.head?.any isNumberChar = false) :
    scan c (cs ++ rest) = .ok (number (c :: cs), rest) := by
  have word : startsWord c = true := by simp [startsWord, or_assoc, start]
  have isNumber : (c = '-' || isNumberChar c) = true := by simp [start]
  obtain ⟨taken, dropped⟩ := span_append digits stops
  simp only [scan, ofSign?_eq_none word, ofComparison?_eq_none word, isNumber, if_true, taken,
    dropped]

theorem scan_name {c : Char} {cs rest : List Char} (start : isNameStart c = true)
    (letters : ∀ d ∈ cs, isNameChar d = true) (stops : rest.head?.any isNameChar = false) :
    scan c (cs ++ rest) = .ok (ofName (c :: cs), rest) := by
  have word : startsWord c = true := by simp [startsWord, start]
  have noNumber := not_number_of_isNameStart start
  obtain ⟨taken, dropped⟩ := span_append letters stops
  simp only [scan, ofSign?_eq_none word, ofComparison?_eq_none word, noNumber, start, if_true,
    taken, dropped]
  rfl

theorem ofName_of_isIdentifier {name : List Char} (identifier : IsIdentifier name) :
    ofName name = atom name := by
  rw [ofName, if_neg identifier.notTop, if_neg identifier.notBot]

/-- A well-spelled token is read where its spelling stands, if it ends there. -/
theorem scan_spelling {t : Token} {rest : List Char} (spelled : t.WellSpelled)
    (stops : rest.head?.any t.continues = false) :
    ∃ c cs, t.spelling ++ rest = c :: cs ∧ isBlank c = false ∧ scan c cs = .ok (t, rest) := by
  cases t with
  | atom name =>
    obtain ⟨c, cs, rfl, start, letters⟩ := spelled.start
    refine ⟨c, cs ++ rest, rfl, isBlank_eq_false (by simp [startsWord, start]), ?_⟩
    rw [scan_name start letters stops, ofName_of_isIdentifier spelled]
  | number digits =>
    obtain ⟨c, cs, rfl, start, further⟩ := spelled
    exact ⟨c, cs ++ rest, rfl, isBlank_eq_false (by simp [startsWord, or_assoc, start]),
      scan_number start further stops⟩
  | top =>
    have letters : ∀ c ∈ ['r', 'u', 'e'], isNameChar c = true := List.all_eq_true.mp rfl
    exact ⟨'t', _, rfl, rfl, scan_name rfl letters stops⟩
  | bot =>
    have letters : ∀ c ∈ ['a', 'l', 's', 'e'], isNameChar c = true := List.all_eq_true.mp rfl
    exact ⟨'f', _, rfl, rfl, scan_name rfl letters stops⟩
  | x | u | p | bang | amp | bar | lparen | rparen | lbracket | rbracket | comma | le | ge | eqEq =>
    exact ⟨_, _, rfl, rfl, rfl⟩

theorem wellSpelled_of_ofSign? {c : Char} {t : Token} (sign : ofSign? c = some t) :
    t.WellSpelled := by
  unfold ofSign? at sign
  split at sign <;> cases sign <;> trivial

theorem wellSpelled_of_ofComparison? {c : Char} {t : Token}
    (comparison : ofComparison? c = some t) : t.WellSpelled := by
  unfold ofComparison? at comparison
  split at comparison <;> cases comparison <;> trivial

theorem wellSpelled_ofName {c : Char} {cs : List Char} (start : isNameStart c = true)
    (letters : ∀ d ∈ cs, isNameChar d = true) : (ofName (c :: cs)).WellSpelled := by
  unfold ofName
  split
  · trivial
  · next notTop =>
    split
    · trivial
    · next notBot => exact ⟨⟨c, cs, rfl, start, letters⟩, notTop, notBot⟩

/-- Every token that is read is well spelled. -/
theorem wellSpelled_of_scan {c : Char} {cs rest : List Char} {t : Token}
    (scanned : scan c cs = .ok (t, rest)) : t.WellSpelled := by
  unfold scan at scanned
  split at scanned
  · next sign =>
    cases scanned
    exact wellSpelled_of_ofSign? sign
  · split at scanned
    · next comparison =>
      split at scanned
      · cases scanned
        exact wellSpelled_of_ofComparison? comparison
      · cases scanned
    · split at scanned
      · next number =>
        cases scanned
        refine ⟨c, _, rfl, by simpa using number, ?_⟩
        exact fun d member => List.mem_takeWhile_imp member
      · split at scanned
        · next start =>
          cases scanned
          exact wellSpelled_ofName start fun d member => List.mem_takeWhile_imp member
        · cases scanned

end Token

/-! ## All tokens -/

theorem tokensFrom_blank {offset : Nat} {c : Char} {cs : List Char} (blank : isBlank c = true) :
    tokensFrom offset (c :: cs) = tokensFrom (offset + 1) cs := by
  rw [tokensFrom, if_pos blank]

/-- A token that ends is found first, and then what is found after it. -/
theorem tokensFrom_spelling {offset : Nat} {t : Token} {cs : List Char} (spelled : t.WellSpelled)
    (ends : cs.head?.any t.continues = false) :
    tokensFrom offset (t.spelling ++ cs) =
      (tokensFrom (offset + t.spelling.length) cs).map (⟨offset, t⟩ :: ·) := by
  obtain ⟨c, cs', same, visible, scanned⟩ := Token.scan_spelling spelled ends
  rw [same, tokensFrom, if_neg (by simp [visible])]
  split
  · next failed => cases scanned.symm.trans failed
  · next found =>
    cases scanned.symm.trans found
    cases tokensFrom (offset + t.spelling.length) cs <;> rfl

/-- The text consists of the given tokens, whatever the offset of its first character. -/
def Lexes (cs : List Char) (ts : List Token) : Prop :=
  ∀ offset, ∃ us, tokensFrom offset cs = .ok us ∧ us.map Located.token = ts

theorem lexes_nil : Lexes [] [] := by
  intro offset
  exact ⟨[], by rw [tokensFrom], rfl⟩

theorem lexes_blank {cs : List Char} {ts : List Token} (lexed : Lexes cs ts) :
    Lexes (' ' :: cs) ts := by
  intro offset
  obtain ⟨us, found, same⟩ := lexed (offset + 1)
  refine ⟨us, ?_, same⟩
  rw [tokensFrom_blank rfl, found]

theorem lexes_token {t : Token} {cs : List Char} {ts : List Token} (spelled : t.WellSpelled)
    (stops : cs.head?.any t.continues = false) (lexed : Lexes cs ts) :
    Lexes (t.spelling ++ cs) (t :: ts) := by
  intro offset
  obtain ⟨us, found, rfl⟩ := lexed (offset + t.spelling.length)
  refine ⟨⟨offset, t⟩ :: us, ?_, rfl⟩
  rw [tokensFrom_spelling spelled stops, found]
  rfl

/-- A sign ends with its spelling. -/
theorem lexes_sign {cs : List Char} {ts : List Token} (t : Token) (sign : t.isSign = true)
    (lexed : Lexes cs ts) : Lexes (t.spelling ++ cs) (t :: ts) := by
  cases t with
  | top | bot | atom | number => cases sign
  | x | u | p | bang | amp | bar | lparen | rparen | lbracket | rbracket | comma | le | ge | eqEq =>
    exact lexes_token trivial (by cases cs <;> rfl) lexed

theorem wellSpelled_of_tokensFrom {offset : Nat} {cs : List Char} {us : List Located}
    (found : tokensFrom offset cs = .ok us) : ∀ t ∈ us, t.token.WellSpelled := by
  fun_induction tokensFrom offset cs generalizing us with
  | case1 =>
    cases found
    simp
  | case2 offset c rest blank inductionHypothesis => exact inductionHypothesis found
  | case3 | case4 => cases found
  | case5 offset c rest notBlank t rest' scanned ts found' inductionHypothesis =>
    cases found
    intro u member
    cases member with
    | head => exact Token.wellSpelled_of_scan scanned
    | tail _ further => exact inductionHypothesis found' u further

end MarkovCheck

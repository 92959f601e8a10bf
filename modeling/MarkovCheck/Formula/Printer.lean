import MarkovCheck.Formula.Basic

/-!
# Writing formulas

* `Formula.text`: the formula in the language that the parser reads. Conjunctions and disjunctions
  stand in parentheses, path formulas only inside a probability bound or on their own. It is
  written in front of what follows, by `charsBefore`, so that no part is copied twice.
* `Formula.outline`: the constructors in preorder, one word each
-/

namespace MarkovCheck.Formula

def natChars (n : Nat) : List Char := Nat.toDigits 10 n

def chars : {k : Kind} → Formula Float k → List Char
  | _, .top => Token.top.spelling
  | _, .bot => Token.bot.spelling
  | _, .atom label => label.toList
  | _, .and lhs rhs => '(' :: lhs.chars ++ [' ', '&', ' '] ++ rhs.chars ++ [')']
  | _, .or lhs rhs => '(' :: lhs.chars ++ [' ', '|', ' '] ++ rhs.chars ++ [')']
  | _, .not arg => '!' :: arg.chars
  | _, .prob bounds path => 'P' :: bounds.chars ++ '(' :: path.chars ++ [')']
  | _, .next arg => 'X' :: ' ' :: arg.chars
  | _, .strongUntil lhs rhs none => lhs.chars ++ [' ', 'U', ' '] ++ rhs.chars
  | _, .strongUntil lhs rhs (some k) =>
    lhs.chars ++ [' ', 'U', '<', '='] ++ natChars k ++ ' ' :: rhs.chars

/-- A formula in the formula language, in front of other characters. -/
def charsBefore : {k : Kind} → Formula Float k → List Char → List Char
  | _, .top, cs => Token.top.spelling ++ cs
  | _, .bot, cs => Token.bot.spelling ++ cs
  | _, .atom label, cs => label.toList ++ cs
  | _, .and lhs rhs, cs =>
    '(' :: lhs.charsBefore (' ' :: '&' :: ' ' :: rhs.charsBefore (')' :: cs))
  | _, .or lhs rhs, cs =>
    '(' :: lhs.charsBefore (' ' :: '|' :: ' ' :: rhs.charsBefore (')' :: cs))
  | _, .not arg, cs => '!' :: arg.charsBefore cs
  | _, .prob bounds path, cs => 'P' :: (bounds.chars ++ '(' :: path.charsBefore (')' :: cs))
  | _, .next arg, cs => 'X' :: ' ' :: arg.charsBefore cs
  | _, .strongUntil lhs rhs none, cs =>
    lhs.charsBefore (' ' :: 'U' :: ' ' :: rhs.charsBefore cs)
  | _, .strongUntil lhs rhs (some k), cs =>
    lhs.charsBefore (' ' :: 'U' :: '<' :: '=' :: (natChars k ++ ' ' :: rhs.charsBefore cs))

/-- Written in front of other characters, a formula is written as it is on its own. -/
@[simp] theorem charsBefore_eq {k : Kind} (f : Formula Float k) (cs : List Char) :
    f.charsBefore cs = f.chars ++ cs := by
  fun_induction charsBefore f cs <;> simp_all [chars]

/-- A formula in the formula language, as a string. -/
def text {k : Kind} (f : Formula Float k) : String := String.ofList (f.charsBefore [])

/-- The string consists of the characters of the formula. -/
@[simp] theorem toList_text {k : Kind} (f : Formula Float k) : f.text.toList = f.chars := by
  simp [text]

/-- One word for each node in preorder, in front of other words. -/
def wordsBefore : {k : Kind} → Formula Float k → List String → List String
  | _, .top, ws => "true" :: ws
  | _, .bot, ws => "false" :: ws
  | _, .atom label, ws => ("atom:" ++ label) :: ws
  | _, .and lhs rhs, ws => "and" :: lhs.wordsBefore (rhs.wordsBefore ws)
  | _, .or lhs rhs, ws => "or" :: lhs.wordsBefore (rhs.wordsBefore ws)
  | _, .not arg, ws => "not" :: arg.wordsBefore ws
  | _, .prob bounds path, ws =>
    ("prob:" ++ Decimal.plain.text bounds.lower ++ ":" ++ Decimal.plain.text bounds.upper)
      :: path.wordsBefore ws
  | _, .next arg, ws => "next" :: arg.wordsBefore ws
  | _, .strongUntil lhs rhs none, ws => "until" :: lhs.wordsBefore (rhs.wordsBefore ws)
  | _, .strongUntil lhs rhs (some k), ws =>
    ("until:" ++ toString k) :: lhs.wordsBefore (rhs.wordsBefore ws)

def outline {k : Kind} (f : Formula Float k) : String := " ".intercalate (f.wordsBefore [])

end MarkovCheck.Formula

import MarkovCheck.Text.Printable

/-!
# Quoted texts

A text in double quotes. The quote and the backslash are escaped by a backslash, four control
characters have short escapes, and any other character that cannot be shown is written by its
code point in hexadecimal.
-/

namespace MarkovCheck.Text

def escapeChar (c : Char) : List Char :=
  if c = '\x00' then ['\\', '0']
  else if c = '\t' then ['\\', 't']
  else if c = '\n' then ['\\', 'n']
  else if c = '\r' then ['\\', 'r']
  else if c = '"' then ['\\', '"']
  else if c = '\\' then ['\\', '\\']
  else if isExtender c || isHidden c then
    ['\\', 'u', '\x7b'] ++ Nat.toDigits 16 c.toNat ++ ['\x7d']
  else [c]

def quotedChars (cs : List Char) : List Char := '"' :: cs.flatMap escapeChar ++ ['"']

def quoted (s : String) : String := String.ofList (quotedChars s.toList)

/-- The parts between an opening and a closing text, separated by a comma and a blank. -/
def enclosed (opening closing : String) (parts : List String) : String :=
  opening ++ ", ".intercalate parts ++ closing

end MarkovCheck.Text

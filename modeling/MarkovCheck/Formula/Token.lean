/-!
# Tokens of the formula language

* `Token`: the lexical units, with their `spelling`
* `Located`: a token with the byte offset at which it starts
* `SyntaxProblem`: what can be wrong with a text, and the wording of each problem
-/

namespace MarkovCheck

/-- The lexical units of formulas. Numbers keep their text; they are read where they are used. -/
inductive Token where
  | top
  | bot
  | atom (name : List Char)
  | number (digits : List Char)
  | x
  | u
  | p
  | bang
  | amp
  | bar
  | lparen
  | rparen
  | lbracket
  | rbracket
  | comma
  | le
  | ge
  | eqEq
  deriving DecidableEq

namespace Token

def spelling : Token → List Char
  | top => ['t', 'r', 'u', 'e']
  | bot => ['f', 'a', 'l', 's', 'e']
  | atom name => name
  | number digits => digits
  | x => ['X']
  | u => ['U']
  | p => ['P']
  | bang => ['!']
  | amp => ['&']
  | bar => ['|']
  | lparen => ['(']
  | rparen => [')']
  | lbracket => ['[']
  | rbracket => [']']
  | comma => [',']
  | le => ['<', '=']
  | ge => ['>', '=']
  | eqEq => ['=', '=']

def describe (t : Token) : String :=
  let inQuotes := "'" ++ String.ofList t.spelling ++ "'"
  match t with
  | atom _ => "atom " ++ inQuotes
  | number _ => "number " ++ inQuotes
  | _ => inQuotes

/-- How messages refer to a token, or to its absence. -/
def describe? : Option Token → String
  | some t => t.describe
  | none => "end of input"

end Token

/-- A token and the byte offset of its first character. -/
structure Located where
  offset : Nat
  token : Token
  deriving DecidableEq

/-- What is wrong with a text that is no formula. -/
inductive SyntaxProblem where
  /-- A comparison sign that lacks its equality sign. -/
  | lacksEquals (sign : Char)
  /-- A character that starts no token. -/
  | strayChar (c : Char)
  /-- Another token stands where this one has to. -/
  | wanted (token : Token) (found : Option Token)
  /-- No number stands where one has to. -/
  | wantedNumber (found : Option Token)
  /-- No comparison or bracket follows the probability operator. -/
  | wantedBound (found : Option Token)
  /-- A number token that spells no number. -/
  | malformedNumber (digits : List Char)
  /-- A token that starts no formula. -/
  | strayToken (found : Option Token)
  /-- A token that follows a complete formula. -/
  | trailing (token : Token)
  deriving DecidableEq

namespace SyntaxProblem

def message : SyntaxProblem → String
  | lacksEquals sign => "expected '=' after '" ++ String.singleton sign ++ "'"
  | strayChar c => "unexpected character '" ++ String.singleton c ++ "'"
  | wanted token found =>
    "expected " ++ token.describe ++ ", found " ++ Token.describe? found
  | wantedNumber found => "expected number, found " ++ Token.describe? found
  | wantedBound found => "expected probability bound, found " ++ Token.describe? found
  | malformedNumber digits => "malformed number '" ++ String.ofList digits ++ "'"
  | strayToken found => "unexpected " ++ Token.describe? found
  | trailing token => "unexpected " ++ token.describe ++ " after formula"

end SyntaxProblem

end MarkovCheck

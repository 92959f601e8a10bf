import MarkovCheck.Decimal.Numeral
import MarkovCheck.Formula.Basic
import MarkovCheck.Formula.Lexer

/-!
# Reading formulas

The grammar, from loosest to tightest:

    formula     := X unary | disjunction [ U [ <= number ] disjunction ]
    disjunction := conjunction ( '|' conjunction )*
    conjunction := unary ( & unary )*
    unary       := ! unary | primary
    primary     := true | false | atom | P bound ( formula ) | ( formula )
    bound       := [ number , number ] | >= number | <= number | == number

Each reader takes the remaining tokens and returns what it read with a strictly shorter rest, which
is why the mutual recursion ends. Kinds are checked as soon as the operands of an operator are
read.
-/

namespace MarkovCheck

namespace Parser

/-- What was read, and the fewer than `n` tokens that remain. -/
structure Read (β : Type) (n : Nat) where
  value : β
  rest : List Located
  fewer : rest.length < n

abbrev Reading (β : Type) (n : Nat) := Except (Error Float) (Read β n)

/-- Consumes the wanted token. `stop` is the offset of the end of the text. -/
def expect (stop : Nat) (want : Token) (ts : List Located) :
    Reading Unit ts.length :=
  match ts with
  | [] => .error (.unreadable stop (.wanted want none))
  | t :: rest =>
    if t.token = want then .ok ⟨(), rest, by simp⟩
    else .error (.unreadable t.offset (.wanted want (some t.token)))

/-- Consumes a number token, and keeps its offset for later complaints. -/
def number (stop : Nat) (ts : List Located) : Reading (Nat × List Char) ts.length :=
  match ts with
  | [] => .error (.unreadable stop (.wantedNumber none))
  | ⟨offset, .number digits⟩ :: rest => .ok ⟨(offset, digits), rest, by simp⟩
  | t :: _ => .error (.unreadable t.offset (.wantedNumber (some t.token)))

def probability (stop : Nat) (ts : List Located) : Reading Float ts.length := do
  let ⟨(offset, digits), rest, h⟩ ← number stop ts
  match Decimal.readFloat digits with
  | some p => .ok ⟨p, rest, h⟩
  | none => .error (.unreadable offset (.malformedNumber digits))

/-- Reads a step bound. A number that is no step count is a bad bound, not a bad text. -/
def stepBound (stop : Nat) (ts : List Located) : Reading Nat ts.length := do
  let ⟨(offset, digits), rest, h⟩ ← number stop ts
  match Decimal.readStepCount digits with
  | some k => .ok ⟨k, rest, h⟩
  | none =>
    match Decimal.readFloat digits with
    | some _ => .error (.invalidStepBound digits)
    | none => .error (.unreadable offset (.malformedNumber digits))

def bound (stop : Nat) (ts : List Located) : Reading (Interval Float) ts.length :=
  match ts with
  | [] => .error (.unreadable stop (.wantedBound none))
  | ⟨_, .lbracket⟩ :: ts₁ => do
    let ⟨lower, ts₂, _⟩ ← probability stop ts₁
    let ⟨_, ts₃, _⟩ ← expect stop .comma ts₂
    let ⟨upper, ts₄, _⟩ ← probability stop ts₃
    let ⟨_, ts₅, _⟩ ← expect stop .rbracket ts₄
    let interval ← Interval.make lower upper
    return ⟨interval, ts₅, by simp only [List.length_cons]; omega⟩
  | ⟨_, .ge⟩ :: ts₁ => do
    let ⟨p, ts₂, _⟩ ← probability stop ts₁
    let interval ← Interval.atLeast p
    return ⟨interval, ts₂, by simp only [List.length_cons]; omega⟩
  | ⟨_, .le⟩ :: ts₁ => do
    let ⟨p, ts₂, _⟩ ← probability stop ts₁
    let interval ← Interval.atMost p
    return ⟨interval, ts₂, by simp only [List.length_cons]; omega⟩
  | ⟨_, .eqEq⟩ :: ts₁ => do
    let ⟨p, ts₂, _⟩ ← probability stop ts₁
    let interval ← Interval.exactly p
    return ⟨interval, ts₂, by simp only [List.length_cons]; omega⟩
  | t :: _ => .error (.unreadable t.offset (.wantedBound (some t.token)))

mutual

def formula (stop : Nat) (ts : List Located) : Reading (Formula.Any Float) ts.length :=
  match ts with
  | ⟨_, .x⟩ :: ts₁ => do
    let ⟨arg, ts₂, _⟩ ← unary stop ts₁
    let f ← Formula.Any.next arg
    return ⟨f, ts₂, by simp only [List.length_cons]; omega⟩
  | ts => do
    let ⟨lhs, ts₁, _⟩ ← disjunction stop ts
    let ⟨f, ts₂, _⟩ ← untilPart stop lhs ts₁
    return ⟨f, ts₂, by omega⟩
termination_by (ts.length, 4)

/-- Reads the right side of an until, if there is one, and joins it to the left side. -/
def untilPart (stop : Nat) (lhs : Formula.Any Float) (ts : List Located) :
    Reading (Formula.Any Float) (ts.length + 1) :=
  match ts with
  | ⟨_, .u⟩ :: ⟨_, .le⟩ :: ts₁ => do
    let ⟨k, ts₂, _⟩ ← stepBound stop ts₁
    let ⟨rhs, ts₃, _⟩ ← disjunction stop ts₂
    let f ← Formula.Any.strongUntil lhs rhs (some k)
    return ⟨f, ts₃, by simp only [List.length_cons]; omega⟩
  | ⟨_, .u⟩ :: ts₁ => do
    let ⟨rhs, ts₂, _⟩ ← disjunction stop ts₁
    let f ← Formula.Any.strongUntil lhs rhs none
    return ⟨f, ts₂, by simp only [List.length_cons]; omega⟩
  | ts => .ok ⟨lhs, ts, Nat.lt_succ_self _⟩
termination_by (ts.length, 0)

/-- Reads conjunctions joined by bars, grouping to the left. -/
def disjunction (stop : Nat) (ts : List Located) : Reading (Formula.Any Float) ts.length := do
  let ⟨lhs, ts₁, _⟩ ← conjunction stop ts
  let ⟨f, ts₂, _⟩ ← disjuncts stop lhs ts₁
  return ⟨f, ts₂, by omega⟩
termination_by (ts.length, 3)

/-- Reads further disjuncts and joins them to what was read before. -/
def disjuncts (stop : Nat) (lhs : Formula.Any Float) (ts : List Located) :
    Reading (Formula.Any Float) (ts.length + 1) :=
  match ts with
  | ⟨_, .bar⟩ :: ts₁ => do
    let ⟨rhs, ts₂, _⟩ ← conjunction stop ts₁
    let f ← Formula.Any.or lhs rhs
    let ⟨joined, ts₃, _⟩ ← disjuncts stop f ts₂
    return ⟨joined, ts₃, by simp only [List.length_cons]; omega⟩
  | ts => .ok ⟨lhs, ts, Nat.lt_succ_self _⟩
termination_by (ts.length, 0)

/-- Reads unary formulas joined by ampersands, grouping to the left. -/
def conjunction (stop : Nat) (ts : List Located) : Reading (Formula.Any Float) ts.length := do
  let ⟨lhs, ts₁, _⟩ ← unary stop ts
  let ⟨f, ts₂, _⟩ ← conjuncts stop lhs ts₁
  return ⟨f, ts₂, by omega⟩
termination_by (ts.length, 2)

/-- Reads further conjuncts and joins them to what was read before. -/
def conjuncts (stop : Nat) (lhs : Formula.Any Float) (ts : List Located) :
    Reading (Formula.Any Float) (ts.length + 1) :=
  match ts with
  | ⟨_, .amp⟩ :: ts₁ => do
    let ⟨rhs, ts₂, _⟩ ← unary stop ts₁
    let f ← Formula.Any.and lhs rhs
    let ⟨joined, ts₃, _⟩ ← conjuncts stop f ts₂
    return ⟨joined, ts₃, by simp only [List.length_cons]; omega⟩
  | ts => .ok ⟨lhs, ts, Nat.lt_succ_self _⟩
termination_by (ts.length, 0)

/-- Reads a formula under any number of negations. -/
def unary (stop : Nat) (ts : List Located) : Reading (Formula.Any Float) ts.length :=
  match ts with
  | ⟨_, .bang⟩ :: ts₁ => do
    let ⟨arg, ts₂, _⟩ ← unary stop ts₁
    let f ← Formula.Any.not arg
    return ⟨f, ts₂, by simp only [List.length_cons]; omega⟩
  | ts => primary stop ts
termination_by (ts.length, 1)

/-- Reads a truth value, an atom, a probability operator or a formula in parentheses. -/
def primary (stop : Nat) (ts : List Located) : Reading (Formula.Any Float) ts.length :=
  match ts with
  | [] => .error (.unreadable stop (.strayToken none))
  | ⟨_, .top⟩ :: ts₁ => .ok ⟨⟨.state, .top⟩, ts₁, by simp⟩
  | ⟨_, .bot⟩ :: ts₁ => .ok ⟨⟨.state, .bot⟩, ts₁, by simp⟩
  | ⟨_, .atom name⟩ :: ts₁ => .ok ⟨⟨.state, .atom (String.ofList name)⟩, ts₁, by simp⟩
  | ⟨_, .p⟩ :: ts₁ => do
    let ⟨bounds, ts₂, _⟩ ← bound stop ts₁
    let ⟨_, ts₃, _⟩ ← expect stop .lparen ts₂
    let ⟨path, ts₄, _⟩ ← formula stop ts₃
    let ⟨_, ts₅, _⟩ ← expect stop .rparen ts₄
    let f ← Formula.Any.prob bounds path
    return ⟨f, ts₅, by simp only [List.length_cons]; omega⟩
  | ⟨_, .lparen⟩ :: ts₁ => do
    let ⟨inner, ts₂, _⟩ ← formula stop ts₁
    let ⟨_, ts₃, _⟩ ← expect stop .rparen ts₂
    return ⟨inner, ts₃, by simp only [List.length_cons]; omega⟩
  | t :: _ => .error (.unreadable t.offset (.strayToken (some t.token)))
termination_by (ts.length, 0)

end

def whole (stop : Nat) (ts : List Located) : Except (Error Float) (Formula.Any Float) := do
  let ⟨f, rest, _⟩ ← formula stop ts
  match rest with
  | [] => return f
  | t :: _ => .error (.unreadable t.offset (.trailing t.token))

end Parser

namespace Formula

/-- The tokens of a text, or its first lexical problem as an error. -/
def tokenize (s : String) : Except (Error Float) (List Located) :=
  match tokensFrom 0 s.toList with
  | .ok ts => .ok ts
  | .error (position, problem) => .error (.unreadable position problem)

def parse (s : String) : Except (Error Float) (Any Float) := do
  let ts ← tokenize s
  Parser.whole s.utf8ByteSize ts

def parseState (s : String) : Except (Error Float) (Formula Float .state) := do
  let f ← parse s
  f.toState

def parsePath (s : String) : Except (Error Float) (Formula Float .path) := do
  let f ← parse s
  f.toPath

end Formula

end MarkovCheck

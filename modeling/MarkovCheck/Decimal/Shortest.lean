import MarkovCheck.Decimal.Double

/-!
# The fewest digits that read back

`shortest b` is a decimal `coefficient * 10 ^ exponent` with as few digits as any decimal that the
nearest double of is the one with magnitude bits `b`; of several such decimals it is the nearest.

For each digit count the only candidates are the two neighbours of the exact value on the grid of
that many digits. The first grid with a candidate that reads back wins. Should no grid up to
seventeen digits do, the exact expansion stands in, which always reads back.
-/

namespace MarkovCheck.Decimal

structure Digits where
  coefficient : Nat
  exponent : Int
  deriving DecidableEq

namespace Digits

def num (d : Digits) : Nat := d.coefficient * tenPow d.exponent.toNat

def den (d : Digits) : Nat := tenPow (-d.exponent).toNat

/-- The decimal digits of the coefficient, most significant first. -/
def chars (d : Digits) : List Char := Nat.toDigits 10 d.coefficient

def leading (d : Digits) : Int := d.exponent + d.chars.length - 1

/-- Magnitude bits of the double that the decimal is read as. -/
def bits (d : Digits) : Nat := nearestBits d.num d.den

/-- The same number with no trailing zero in the coefficient; zero is `0 * 10 ^ 0`. -/
def trim (d : Digits) : Digits :=
  if h : d.coefficient = 0 then ⟨0, 0⟩
  else if d.coefficient % 10 = 0 then trim ⟨d.coefficient / 10, d.exponent + 1⟩
  else d
termination_by d.coefficient
decreasing_by
  exact Nat.div_lt_self (Nat.pos_of_ne_zero h) (by decide)

end Digits

/-- How many decimal digits a natural number has. -/
def digitCount (n : Nat) : Nat := (Nat.toDigits 10 n).length

/-- The exponent of the leading digit of `num / den`, which must be positive. -/
def leadingExponent (num den : Nat) : Int :=
  if den ≤ num then (digitCount (num / den) : Int) - 1
  else -(digitCount ((den - 1) / num) : Int)

/-- The candidate with exponent `e` for magnitude bits `b`: of the two multiples of `10 ^ e` around
the exact value those that read back, the nearer one if both do, the upper one of two equally
near ones. -/
def candidate? (b : Nat) (e : Int) : Option Digits :=
  let num := steps b * tenPow (-e).toNat
  let den := stepsPerUnit * tenPow e.toNat
  let below : Digits := ⟨num / den, e⟩
  let above : Digits := ⟨num / den + 1, e⟩
  let fromBelow := decide (below.bits = b)
  let fromAbove := decide (above.bits = b)
  if fromAbove && (!fromBelow || decide (den ≤ 2 * (num % den))) then some above
  else if fromBelow then some below
  else none

/-- The exact decimal expansion of a finite double. -/
def exact (b : Nat) : Digits := ⟨steps b * Nat.pow 5 stepExponent, -(stepExponent : Int)⟩

/-- The first candidate on `fuel` grids, each finer by one digit, the first with exponent `e`. -/
def search (candidate : Int → Option Digits) : Nat → Int → Option Digits
  | 0, _ => none
  | fuel + 1, e =>
    match candidate e with
    | some d => some d
    | none => search candidate fuel (e - 1)

/-- The shortest decimal that reads back as the finite double with magnitude bits `b`. -/
def shortest (b : Nat) : Digits :=
  if b = 0 then ⟨0, 0⟩
  else
    let found := search (candidate? b) 17 (leadingExponent (steps b) stepsPerUnit)
    (found.getD (exact b)).trim

end MarkovCheck.Decimal

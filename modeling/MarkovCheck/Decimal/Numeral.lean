import MarkovCheck.Decimal.Double

/-!
# Reading numerals

* `readFloat`: an optional minus sign, then digits with at most one point among or around them,
  read as the nearest double
* `readStepCount`: digits alone, read as a natural number below `2 ^ 64`
-/

namespace MarkovCheck.Decimal

/-- The natural number that a list of decimal digits spells. -/
def digitsValue (cs : List Char) : Nat :=
  cs.foldl (fun n c => 10 * n + (c.toNat - '0'.toNat)) 0

/-- Reads digits with at most one point; there has to be a digit. -/
def readMagnitude (cs : List Char) : Option (Nat × Nat) :=
  let whole := cs.takeWhile Char.isDigit
  match cs.dropWhile Char.isDigit with
  | [] => if whole.isEmpty then none else some (digitsValue whole, 1)
  | c :: fraction =>
    if c = '.' && fraction.all Char.isDigit && !(whole.isEmpty && fraction.isEmpty) then
      some (digitsValue (whole ++ fraction), tenPow fraction.length)
    else none

/-- Reads an optional minus sign and a magnitude as the nearest double. -/
def readFloat (cs : List Char) : Option Float :=
  match cs with
  | '-' :: rest => (readMagnitude rest).map fun (num, den) => ofRatio true num den
  | _ => (readMagnitude cs).map fun (num, den) => ofRatio false num den

def stepCountBound : Nat := twoPow 64

/-- Reads a step count: digits only, and no more than a 64-bit word holds. -/
def readStepCount (cs : List Char) : Option Nat :=
  if !cs.isEmpty && cs.all Char.isDigit && decide (digitsValue cs < stepCountBound) then
    some (digitsValue cs)
  else none

end MarkovCheck.Decimal

/-!
# Doubles as exact ratios

A finite double of magnitude bits `b` is `significand b * 2 ^ shift b / 2 ^ 1074`: every double is
a whole number of smallest steps, so all rounding questions become questions about natural numbers.

* `significand`, `shift`, `steps`: the exact value behind a bit pattern
* `roundDiv`: a quotient rounded to the nearest whole number, a tie going to the even neighbour
* `nearestBits`: the bit pattern of the double nearest to a ratio
* `ofRatio`: that double, with a sign
-/

namespace MarkovCheck.Decimal

def twoPow (n : Nat) : Nat := Nat.pow 2 n

def tenPow (n : Nat) : Nat := Nat.pow 10 n

/-- The exponent of the smallest positive double: it is `2 ^ -1074`. -/
def stepExponent : Nat := 1074

def fractionBound : Nat := twoPow 52

/-- Magnitude bits of infinity. Larger magnitudes are NaNs. -/
def infinityBits : Nat := 2047 * fractionBound

/-- The power of two that scales the significand of magnitude bits `b`. -/
def shift (b : Nat) : Nat := b / fractionBound - 1

/-- The significand of magnitude bits `b`, hidden bit included. -/
def significand (b : Nat) : Nat := b - shift b * fractionBound

/-- How many smallest steps a finite double of magnitude bits `b` is worth. -/
def steps (b : Nat) : Nat := significand b * twoPow (shift b)

def stepsPerUnit : Nat := twoPow stepExponent

/-- `num / den` rounded to the nearest whole number, a tie going to the even neighbour. -/
def roundDiv (num den : Nat) : Nat :=
  let quotient := num / den
  let twice := 2 * (num % den)
  if twice < den then quotient
  else if den < twice then quotient + 1
  else quotient + quotient % 2

/-- Magnitude bits of the double nearest to `num / den`, a tie going to the even significand.

The significand is the value rounded to a whole number of `2 ^ u` smallest steps, where `u` leaves
it 53 bits, or fewer when the value is subnormal. A significand that rounds up to `2 ^ 53` carries
into the exponent field by itself. -/
def nearestBits (num den : Nat) : Nat :=
  let scaled := num * stepsPerUnit
  let u := (scaled / den).log2 - 52
  min (u * fractionBound + roundDiv scaled (den * twoPow u)) infinityBits

/-- The double with the given sign and magnitude bits. -/
def ofSignBits (negative : Bool) (b : Nat) : Float :=
  Float.ofBits (UInt64.ofNat (if negative then b + twoPow 63 else b))

/-- The double nearest to `num / den`, negated on request. A zero keeps the sign. -/
def ofRatio (negative : Bool) (num den : Nat) : Float :=
  ofSignBits negative (nearestBits num den)

def isNegative (x : Float) : Bool := decide (twoPow 63 ≤ x.toBits.toNat)

def magnitudeBits (x : Float) : Nat := x.toBits.toNat % twoPow 63

end MarkovCheck.Decimal

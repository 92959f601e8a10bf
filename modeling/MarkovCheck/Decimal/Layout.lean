import MarkovCheck.Decimal.Shortest

/-!
# Writing doubles

Three layouts share the shortest digits and differ in where positional writing ends:

* `plain`: always positional, a whole number without a point
* `pointed`: positional from `10 ^ -4` up to below `10 ^ 16`, always with a point
* `exponential`: one digit, the others after a point, then the exponent

`fixed` writes a given number of places of the exact value instead, a tie going to the even digit.
-/

namespace MarkovCheck.Decimal

/-- The decisions of a layout: which leading exponents are written positionally, and whether a
whole number written positionally ends in `.0`. -/
structure Layout where
  positional : Int → Bool
  pointZero : Bool

/-- Always positional; whole numbers carry no point. -/
def plain : Layout := ⟨fun _ => true, false⟩

/-- Positional for magnitudes in `[10 ^ -4, 10 ^ 16)`; whole numbers end in `.0`. -/
def pointed : Layout := ⟨fun e => decide (-4 ≤ e) && decide (e < 16), true⟩

def exponential : Layout := ⟨fun _ => false, false⟩

/-- Writes `digits` with the point after the first `whole` of them. -/
def insertPoint (digits : List Char) (whole : Nat) : List Char :=
  digits.take whole ++ '.' :: digits.drop whole

def positionalChars (pointZero : Bool) (d : Digits) : List Char :=
  let digits := d.chars
  if 0 ≤ d.exponent then
    digits ++ List.replicate d.exponent.toNat '0' ++ if pointZero then ['.', '0'] else []
  else
    let places := (-d.exponent).toNat
    if places < digits.length then insertPoint digits (digits.length - places)
    else '0' :: '.' :: (List.replicate (places - digits.length) '0' ++ digits)

/-- Writing with an exponent: one leading digit, then the others after a point. -/
def exponentChars (d : Digits) : List Char :=
  let mantissa :=
    match d.chars with
    | [] => []
    | [c] => [c]
    | c :: rest => c :: '.' :: rest
  let e := d.leading
  mantissa ++ 'e' :: (if e < 0 then ['-'] else []) ++ Nat.toDigits 10 e.natAbs

/-- A non-negative decimal in a layout. Zero is positional unless nothing is. -/
def Layout.magnitudeChars (layout : Layout) (d : Digits) : List Char :=
  if layout.positional (if d.coefficient = 0 then 0 else d.leading) then
    positionalChars layout.pointZero d
  else exponentChars d

/-- Puts the sign of `x` in front of `body`, with the texts of the values that are no numbers. -/
def signed (x : Float) (body : Nat → List Char) : List Char :=
  let b := magnitudeBits x
  if infinityBits < b then ['N', 'a', 'N']
  else
    (if isNegative x then ['-'] else []) ++ if b = infinityBits then ['i', 'n', 'f'] else body b

/-- A double in a layout, its digits being the fewest that read back. -/
def Layout.chars (layout : Layout) (x : Float) : List Char :=
  signed x fun b => layout.magnitudeChars (shortest b)

def Layout.text (layout : Layout) (x : Float) : String := String.ofList (layout.chars x)

/-- The exact value to the given number of places, a tie going to the even last digit. -/
def fixedChars (places : Nat) (x : Float) : List Char :=
  signed x fun b =>
    let digits := Nat.toDigits 10 (roundDiv (steps b * tenPow places) stepsPerUnit)
    let padded := List.replicate (places + 1 - digits.length) '0' ++ digits
    if places = 0 then padded else insertPoint padded (padded.length - places)

/-- The exact value to the given number of places, as a string. -/
def fixed (places : Nat) (x : Float) : String := String.ofList (fixedChars places x)

end MarkovCheck.Decimal

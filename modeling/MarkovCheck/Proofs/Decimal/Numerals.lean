import Mathlib
import MarkovCheck.Decimal.Layout
import MarkovCheck.Decimal.Numeral
import MarkovCheck.Formula.Lexer
import MarkovCheck.Proofs.Decimal.Rounding

/-!
# Numerals that are written are read back

A double written positionally is an optional minus sign, digits and at most one point, and reading
these characters gives the same double, with the sign of a zero. A step count is written by its
digits alone. The library is imported as a whole for one fact that none of its parts has: the bits
of a double make this double again (`Float.ofBits_toBits`).

* `Spells`: characters that are read as the value of a decimal
* `spells_positional`: positional writing spells its decimal, wherever the point falls
* `readFloat_plain`: a finite double is read back
* `readStepCount_toDigits`: a step count is read back
-/

namespace MarkovCheck.Decimal

/-! ## Digits -/

theorem digitsValue_toDigits (n : Nat) : digitsValue (Nat.toDigits 10 n) = n :=
  Nat.ofDigitChars_ten_toDigits

theorem digitsValue_append_zeros (cs : List Char) (n : Nat) :
    digitsValue (cs ++ List.replicate n '0') = digitsValue cs * tenPow n := by
  have zeros := Nat.ofDigitChars_append (b := 10) (l := cs) (m := List.replicate n '0') 0
  rw [Nat.ofDigitChars_replicate_zero, Nat.mul_comm] at zeros
  exact zeros

theorem digitsValue_zeros_append (n : Nat) (cs : List Char) :
    digitsValue (List.replicate n '0' ++ cs) = digitsValue cs := by
  have zeros := Nat.ofDigitChars_append (b := 10) (l := List.replicate n '0') (m := cs) 0
  rw [Nat.ofDigitChars_replicate_zero, Nat.mul_zero] at zeros
  exact zeros

theorem Digits.isDigit_of_mem {d : Digits} : ∀ c ∈ d.chars, c.isDigit = true := fun _ member =>
  Nat.isDigit_of_mem_toDigits (by decide) (by decide) member

theorem isDigit_of_mem_zeros {n : Nat} : ∀ c ∈ List.replicate n '0', c.isDigit = true := by
  intro c member
  rw [List.eq_of_mem_replicate member]
  rfl

/-! ## Magnitudes -/

theorem readMagnitude_whole {whole : List Char} (digits : ∀ c ∈ whole, c.isDigit = true)
    (nonempty : whole ≠ []) : readMagnitude whole = some (digitsValue whole, 1) := by
  have taken : whole.takeWhile Char.isDigit = whole := List.takeWhile_eq_self_iff.mpr digits
  have dropped : whole.dropWhile Char.isDigit = [] := List.dropWhile_eq_nil_iff.mpr digits
  simp only [readMagnitude, taken, dropped]
  simp [nonempty]

theorem readMagnitude_pointed {whole fraction : List Char}
    (wholeDigits : ∀ c ∈ whole, c.isDigit = true)
    (fractionDigits : ∀ c ∈ fraction, c.isDigit = true) (nonempty : whole ≠ []) :
    readMagnitude (whole ++ '.' :: fraction) =
      some (digitsValue (whole ++ fraction), tenPow fraction.length) := by
  -- The point ends the digits of the whole part.
  have taken : (whole ++ '.' :: fraction).takeWhile Char.isDigit = whole := by
    rw [List.takeWhile_append_of_pos wholeDigits]
    simp
  have dropped : (whole ++ '.' :: fraction).dropWhile Char.isDigit = '.' :: fraction := by
    rw [List.dropWhile_append_of_pos wholeDigits]
    simp
  have allDigits : fraction.all Char.isDigit = true := List.all_eq_true.mpr fractionDigits
  simp only [readMagnitude, taken, dropped, allDigits]
  simp [nonempty]

/-- The characters are digits with at most one point, and are read as the value of the decimal. -/
structure Spells (cs : List Char) (d : Digits) : Prop where
  numeral : ∀ c ∈ cs, isNumberChar c = true
  nonempty : cs ≠ []
  read : (readMagnitude cs).map (fun ratio => nearestBits ratio.1 ratio.2) = some d.bits

theorem isNumberChar_of_isDigit {c : Char} (digit : c.isDigit = true) : isNumberChar c = true := by
  simp [isNumberChar, digit]

/-- A whole number spells the decimals of the same value. -/
theorem spells_whole {d : Digits} {whole : List Char} (digits : ∀ c ∈ whole, c.isDigit = true)
    (nonempty : whole ≠ []) (value : digitsValue whole * d.den = d.num) : Spells whole d where
  numeral := fun c member => isNumberChar_of_isDigit (digits c member)
  nonempty := nonempty
  read := by
    rw [readMagnitude_whole digits nonempty, Option.map_some]
    refine congrArg some (nearestBits_eq_of_ratio Nat.one_pos d.den_pos ?_)
    rw [value, Nat.mul_one]

/-- A number with a point spells the decimals of the same value. -/
theorem spells_pointed {d : Digits} {whole fraction : List Char}
    (wholeDigits : ∀ c ∈ whole, c.isDigit = true)
    (fractionDigits : ∀ c ∈ fraction, c.isDigit = true) (nonempty : whole ≠ [])
    (value : digitsValue (whole ++ fraction) * d.den = d.num * tenPow fraction.length) :
    Spells (whole ++ '.' :: fraction) d where
  numeral := by
    intro c member
    rcases List.mem_append.mp member with inWhole | inRest
    · exact isNumberChar_of_isDigit (wholeDigits c inWhole)
    · cases inRest with
      | head => rfl
      | tail _ inFraction => exact isNumberChar_of_isDigit (fractionDigits c inFraction)
  nonempty := by simp
  read := by
    rw [readMagnitude_pointed wholeDigits fractionDigits nonempty, Option.map_some]
    exact congrArg some (nearestBits_eq_of_ratio (tenPow_pos _) d.den_pos value)

/-- Positional writing without a forced point spells its decimal: zeros are added after the digits,
or the point falls inside them, or zeros are put between the point and the digits. -/
theorem spells_positional (d : Digits) : Spells (positionalChars false d) d := by
  have coefficient : digitsValue d.chars = d.coefficient := digitsValue_toDigits d.coefficient
  have nonempty : d.chars ≠ [] := Nat.toDigits_ne_nil
  simp only [positionalChars]
  split
  · next nonneg =>
    have noPlaces : (-d.exponent).toNat = 0 := by omega
    rw [if_neg Bool.false_ne_true, List.append_nil]
    refine spells_whole ?_ (by simp [nonempty]) ?_
    · intro c member
      rcases List.mem_append.mp member with inDigits | inZeros
      · exact Digits.isDigit_of_mem c inDigits
      · exact isDigit_of_mem_zeros c inZeros
    · rw [digitsValue_append_zeros, coefficient, Digits.den, noPlaces, Digits.num]
      exact Nat.mul_one _
  · next negative =>
    have noZeros : d.exponent.toNat = 0 := by omega
    have value : d.num = d.coefficient := by
      rw [Digits.num, noZeros]
      exact Nat.mul_one _
    split
    · next inside =>
      refine spells_pointed ?_ ?_ ?_ ?_
      · exact fun c member => Digits.isDigit_of_mem c (List.mem_of_mem_take member)
      · exact fun c member => Digits.isDigit_of_mem c (List.mem_of_mem_drop member)
      · intro none
        have short := congrArg List.length none
        simp only [List.length_take, List.length_nil] at short
        omega
      · have places : d.chars.length - (d.chars.length - (-d.exponent).toNat) =
            (-d.exponent).toNat := by omega
        rw [List.take_append_drop, coefficient, value, List.length_drop, places, Digits.den]
    · next outside =>
      change Spells (['0'] ++ '.' :: _) d
      refine spells_pointed ?_ ?_ (by simp) ?_
      · exact isDigit_of_mem_zeros (n := 1)
      · intro c member
        rcases List.mem_append.mp member with inZeros | inDigits
        · exact isDigit_of_mem_zeros c inZeros
        · exact Digits.isDigit_of_mem c inDigits
      · have places : (-d.exponent).toNat - d.chars.length + d.chars.length =
            (-d.exponent).toNat := by omega
        have zero : ['0'] = List.replicate 1 '0' := rfl
        rw [zero, digitsValue_zeros_append, digitsValue_zeros_append, coefficient, value,
          List.length_append, List.length_replicate, places, Digits.den]

/-! ## Doubles -/

theorem ofSignBits_magnitudeBits (x : Float) : ofSignBits (isNegative x) (magnitudeBits x) = x := by
  have top : twoPow 63 = 9223372036854775808 := rfl
  have below : x.toBits.toNat < 18446744073709551616 := x.toBits.toNat_lt
  -- The sign is the top bit of the pattern, the magnitude the others.
  have pattern : (if isNegative x = true then magnitudeBits x + twoPow 63 else magnitudeBits x) =
      x.toBits.toNat := by
    simp only [isNegative, magnitudeBits, top, decide_eq_true_eq]
    split
    · omega
    · omega
  rw [ofSignBits, pattern, UInt64.ofNat_toNat, Float.ofBits_toBits]

theorem plain_chars_eq {x : Float} (finite : magnitudeBits x < infinityBits) :
    plain.chars x = (if isNegative x then ['-'] else []) ++
      positionalChars false (shortest (magnitudeBits x)) := by
  rw [Layout.chars, signed, if_neg (Nat.not_lt.mpr (Nat.le_of_lt finite)),
    if_neg (Nat.ne_of_lt finite)]
  rfl

theorem readFloat_of_numeral {cs : List Char} (numeral : ∀ c ∈ cs, isNumberChar c = true) :
    readFloat cs = (readMagnitude cs).map fun (num, den) => ofRatio false num den := by
  cases cs with
  | nil => rfl
  | cons c cs =>
    have noSign : c ≠ '-' := by
      rintro rfl
      exact absurd (numeral '-' List.mem_cons_self) (by decide)
    simp only [readFloat]
    split
    · next same => exact absurd (List.cons.inj same).1 noSign
    · rfl

/-- A finite double is read back, with its sign. -/
theorem readFloat_plain {x : Float} (finite : magnitudeBits x < infinityBits) :
    readFloat (plain.chars x) = some x := by
  obtain ⟨numeral, _, read⟩ := spells_positional (shortest (magnitudeBits x))
  rw [bits_shortest finite, Option.map_eq_some_iff] at read
  obtain ⟨⟨num, den⟩, magnitude, nearest⟩ := read
  have value : ofRatio (isNegative x) num den = x := by
    rw [ofRatio, nearest]
    exact ofSignBits_magnitudeBits x
  rw [plain_chars_eq finite]
  cases sign : isNegative x with
  | true =>
    rw [sign] at value
    simp only [if_true, List.singleton_append, readFloat, magnitude, Option.map_some, value]
  | false =>
    rw [sign] at value
    simp only [Bool.false_eq_true, if_false, List.nil_append]
    rw [readFloat_of_numeral numeral, magnitude]
    exact congrArg some value

/-! ## Step counts -/

/-- A step count is read back from its digits. -/
theorem readStepCount_toDigits {k : Nat} (small : k < stepCountBound) :
    readStepCount (Nat.toDigits 10 k) = some k := by
  have digits : (Nat.toDigits 10 k).all Char.isDigit = true := List.all_eq_true.mpr fun c member =>
    Nat.isDigit_of_mem_toDigits (by decide) (by decide) member
  have nonempty : (Nat.toDigits 10 k).isEmpty = false := by simp
  simp only [readStepCount, digits, nonempty, digitsValue_toDigits, small]
  rfl

theorem readStepCount_lt {cs : List Char} {k : Nat} (read : readStepCount cs = some k) :
    k < stepCountBound := by
  simp only [readStepCount] at read
  split at read
  · next accepted =>
    cases read
    simp only [Bool.and_eq_true, decide_eq_true_eq] at accepted
    exact accepted.2
  · cases read

end MarkovCheck.Decimal

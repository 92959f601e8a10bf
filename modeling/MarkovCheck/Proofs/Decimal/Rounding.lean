import MarkovCheck.Decimal.Shortest

/-!
# Decimals that read back

The double nearest to a ratio depends on the ratio alone, and the double nearest to the exact value
of a double is that double. So every candidate for the digits of a double is taken only if it reads
back, and the expansion that stands in where no candidate does reads back as well.

* `nearestBits_eq_of_ratio`: equal ratios round alike
* `nearestBits_steps`: a finite double is nearest to itself
* `bits_shortest`: the shortest digits of a finite double read back as that double
-/

namespace MarkovCheck.Decimal

-- The powers with this exponent are too large to be computed on the way.
attribute [local irreducible] stepExponent

theorem twoPow_pos (n : Nat) : 0 < twoPow n := Nat.pow_pos (by decide)

theorem tenPow_pos (n : Nat) : 0 < tenPow n := Nat.pow_pos (by decide)

theorem twoPow_add (m n : Nat) : twoPow (m + n) = twoPow m * twoPow n := Nat.pow_add 2 m n

theorem tenPow_succ (n : Nat) : tenPow (n + 1) = tenPow n * 10 := Nat.pow_succ 10 n

theorem tenPow_eq (n : Nat) : tenPow n = Nat.pow 5 n * twoPow n := Nat.mul_pow 5 2 n

/-! ## Rounding depends on the ratio alone -/

theorem roundDiv_mul_right (num den : Nat) {k : Nat} (positive : 0 < k) :
    roundDiv (num * k) (den * k) = roundDiv num den := by
  have twice : 2 * (num % den * k) = 2 * (num % den) * k := (Nat.mul_assoc _ _ _).symm
  simp only [roundDiv, Nat.mul_div_mul_right num den positive, Nat.mul_mod_mul_right, twice,
    Nat.mul_lt_mul_right positive]

theorem roundDiv_mul_self (n : Nat) {den : Nat} (positive : 0 < den) :
    roundDiv (n * den) den = n := by
  simp only [roundDiv, Nat.mul_div_left n positive, Nat.mul_mod_left, Nat.mul_zero, if_pos positive]

theorem nearestBits_mul_right (num den : Nat) {k : Nat} (positive : 0 < k) :
    nearestBits (num * k) (den * k) = nearestBits num den := by
  have scaled : num * k * stepsPerUnit = num * stepsPerUnit * k := Nat.mul_right_comm _ _ _
  have unit (u : Nat) : den * k * twoPow u = den * twoPow u * k := Nat.mul_right_comm _ _ _
  simp only [nearestBits, scaled, unit, Nat.mul_div_mul_right _ _ positive,
    roundDiv_mul_right _ _ positive]

theorem nearestBits_eq_of_ratio {num den num' den' : Nat} (positive : 0 < den)
    (positive' : 0 < den') (same : num * den' = num' * den) :
    nearestBits num den = nearestBits num' den' := by
  calc nearestBits num den = nearestBits (num * den') (den * den') :=
        (nearestBits_mul_right num den positive').symm
    _ = nearestBits (num' * den) (den' * den) := by rw [same, Nat.mul_comm den den']
    _ = nearestBits num' den' := nearestBits_mul_right num' den' positive

/-! ## A double is nearest to itself -/

theorem shift_mul_add_significand (b : Nat) : shift b * fractionBound + significand b = b := by
  have bound : fractionBound = 4503599627370496 := rfl
  simp only [significand, shift, bound]
  omega

/-- A significand has 53 bits if it is scaled at all. -/
theorem significand_bounds {b : Nat} (scaled : 0 < shift b) :
    twoPow 52 ≤ significand b ∧ significand b < twoPow 53 := by
  have bound : fractionBound = 4503599627370496 := rfl
  have lower : twoPow 52 = 4503599627370496 := rfl
  have upper : twoPow 53 = 9007199254740992 := rfl
  simp only [significand, shift, bound, lower, upper] at scaled ⊢
  omega

theorem significand_lt (b : Nat) : significand b < twoPow 53 := by
  have bound : fractionBound = 4503599627370496 := rfl
  have upper : twoPow 53 = 9007199254740992 := rfl
  simp only [significand, shift, bound, upper]
  omega

/-- The unit that rounding chooses for the exact value is the one the double is made of. -/
theorem log2_steps (b : Nat) : (steps b).log2 - 52 = shift b := by
  by_cases scaled : 0 < shift b
  · obtain ⟨lower, upper⟩ := significand_bounds scaled
    have least : twoPow (52 + shift b) ≤ steps b := by
      rw [twoPow_add]
      exact Nat.mul_le_mul_right _ lower
    have most : steps b < twoPow (52 + shift b + 1) := by
      rw [Nat.add_right_comm, twoPow_add]
      exact Nat.mul_lt_mul_of_pos_right upper (twoPow_pos _)
    have nonzero : steps b ≠ 0 := Nat.ne_of_gt (Nat.lt_of_lt_of_le (twoPow_pos _) least)
    have leading : (steps b).log2 = 52 + shift b :=
      (Nat.log2_eq_iff nonzero).mpr ⟨least, most⟩
    omega
  · -- Without a scale the steps are the significand, of 53 bits at most.
    have none : shift b = 0 := by omega
    have unscaled : steps b = significand b := by
      rw [steps, none]
      exact Nat.mul_one _
    rw [none, unscaled]
    by_cases zero : significand b = 0
    · rw [zero]
      rfl
    · have below : (significand b).log2 < 53 := (Nat.log2_lt zero).mpr (significand_lt b)
      omega

theorem nearestBits_steps {b : Nat} (finite : b < infinityBits) :
    nearestBits (steps b) stepsPerUnit = b := by
  have positive : 0 < stepsPerUnit := twoPow_pos _
  have unit : steps b * stepsPerUnit / stepsPerUnit = steps b := Nat.mul_div_left _ positive
  -- The exact value is a whole number of the chosen units, so rounding changes nothing.
  have whole : steps b * stepsPerUnit = significand b * (stepsPerUnit * twoPow (shift b)) := by
    rw [steps, Nat.mul_assoc, Nat.mul_comm (twoPow _)]
  simp only [nearestBits, unit, log2_steps]
  rw [whole, roundDiv_mul_self _ (Nat.mul_pos positive (twoPow_pos _)),
    shift_mul_add_significand, Nat.min_eq_left (Nat.le_of_lt finite)]

/-! ## The digits of a double -/

namespace Digits

theorem den_pos (d : Digits) : 0 < d.den := tenPow_pos _

theorem bits_eq_of_ratio {d d' : Digits} (same : d.num * d'.den = d'.num * d.den) :
    d.bits = d'.bits :=
  nearestBits_eq_of_ratio d.den_pos d'.den_pos same

/-- Moving a trailing zero of the coefficient into the exponent keeps the ratio. -/
theorem ratio_shift {d : Digits} (trailing : d.coefficient % 10 = 0) :
    (Digits.mk (d.coefficient / 10) (d.exponent + 1)).num * d.den =
      d.num * (Digits.mk (d.coefficient / 10) (d.exponent + 1)).den := by
  have whole : d.coefficient = d.coefficient / 10 * 10 := by omega
  simp only [num, den]
  by_cases negative : d.exponent < 0
  · have places : (-d.exponent).toNat = (-(d.exponent + 1)).toNat + 1 := by omega
    have noZeros : d.exponent.toNat = 0 := by omega
    have noZeros' : (d.exponent + 1).toNat = 0 := by omega
    rw [places, tenPow_succ, noZeros, noZeros']
    calc d.coefficient / 10 * tenPow 0 * (tenPow (-(d.exponent + 1)).toNat * 10)
        = d.coefficient / 10 * 10 * tenPow 0 * tenPow (-(d.exponent + 1)).toNat := by
          ac_rfl
      _ = d.coefficient * tenPow 0 * tenPow (-(d.exponent + 1)).toNat := by rw [← whole]
  · have zeros : (d.exponent + 1).toNat = d.exponent.toNat + 1 := by omega
    have noPlaces : (-d.exponent).toNat = 0 := by omega
    have noPlaces' : (-(d.exponent + 1)).toNat = 0 := by omega
    rw [zeros, tenPow_succ, noPlaces, noPlaces']
    calc d.coefficient / 10 * (tenPow d.exponent.toNat * 10) * tenPow 0
        = d.coefficient / 10 * 10 * tenPow d.exponent.toNat * tenPow 0 := by
          ac_rfl
      _ = d.coefficient * tenPow d.exponent.toNat * tenPow 0 := by rw [← whole]

theorem bits_trim (d : Digits) : d.trim.bits = d.bits := by
  fun_induction trim d with
  | case1 d zero =>
    apply bits_eq_of_ratio
    simp [num, zero]
  | case2 d nonzero trailing inductionHypothesis =>
    exact inductionHypothesis.trans (bits_eq_of_ratio (ratio_shift trailing))
  | case3 => rfl

end Digits

theorem bits_exact {b : Nat} (finite : b < infinityBits) : (exact b).bits = b := by
  -- Numerator and denominator carry the same power of five.
  have ratio : (exact b).num * stepsPerUnit = steps b * (exact b).den := by
    have noZeros : (-(stepExponent : Int)).toNat = 0 := by omega
    have places : (- -(stepExponent : Int)).toNat = stepExponent := by omega
    have one : tenPow 0 = 1 := rfl
    simp only [exact, Digits.num, Digits.den, noZeros, places, one, tenPow_eq stepExponent,
      stepsPerUnit, Nat.mul_one, Nat.mul_assoc]
  exact (nearestBits_eq_of_ratio (exact b).den_pos (twoPow_pos _) ratio).trans
    (nearestBits_steps finite)

theorem bits_candidate {b : Nat} {e : Int} {d : Digits} (chosen : candidate? b e = some d) :
    d.bits = b := by
  simp only [candidate?] at chosen
  split at chosen
  · next above =>
    cases chosen
    simp only [Bool.and_eq_true, decide_eq_true_eq] at above
    exact above.1
  · split at chosen
    · next below =>
      cases chosen
      exact of_decide_eq_true below
    · cases chosen

theorem search_some {candidate : Int → Option Digits} {good : Digits → Prop}
    (each : ∀ e d, candidate e = some d → good d) (fuel : Nat) {e : Int} {d : Digits}
    (found : search candidate fuel e = some d) : good d := by
  induction fuel generalizing e with
  | zero => cases found
  | succ fuel inductionHypothesis =>
    rw [search] at found
    split at found
    · next chosen =>
      cases found
      exact each _ _ chosen
    · exact inductionHypothesis found

/-- The shortest digits of a finite double read back as that double. -/
theorem bits_shortest {b : Nat} (finite : b < infinityBits) : (shortest b).bits = b := by
  simp only [shortest]
  split
  · next zero =>
    subst zero
    -- Zero steps are zero in every unit.
    have none : steps 0 = 0 := Nat.zero_mul _
    have ratio : (Digits.mk 0 0).num * stepsPerUnit = steps 0 * (Digits.mk 0 0).den := by
      rw [none, Digits.num, Nat.zero_mul, Nat.zero_mul, Nat.zero_mul]
    exact (nearestBits_eq_of_ratio (Digits.den_pos _) (twoPow_pos _) ratio).trans
      (nearestBits_steps finite)
  · rw [Digits.bits_trim]
    cases found : search (candidate? b) 17 (leadingExponent (steps b) stepsPerUnit) with
    | none => exact bits_exact finite
    | some d => exact search_some (fun _ _ => bits_candidate) 17 found

end MarkovCheck.Decimal

import DeskCalculator.Numeral
import DeskCalculator.Proofs.Binary64

namespace DeskCalculator

open Float.Model (Format UnpackedFloat totalExponent)
open Float.Model.UnpackedFloat (ExtendedMantissa Accuracy)

/-!
# Where floats end

A quotient of natural numbers has a finite nearest float exactly below one
bound, which is the largest float and half a unit of its last place.  The half
is rounded up with everything above it, because the significand of the largest
float is odd.  Thus a numeral is finite if a larger one is, and no digit that
is taken away from a number makes it overflow.
-/

namespace Binary64

/-! ## Shifting and rounding a significand -/

theorem shiftRight_mantissa (extended : ExtendedMantissa) (shift : Nat) :
    (extended >>> shift).mantissa = extended.mantissa / 2 ^ shift := by
  induction shift with
  | zero => exact (Nat.div_one _).symm
  | succ shift ih =>
      change (extended >>> shift).mantissa / 2 = _
      rw [ih, Nat.div_div_eq_div_mul, Nat.pow_succ]

/-- The round bit is the last bit that was shifted out. -/
theorem shiftRight_roundBit (extended : ExtendedMantissa) (shift : Nat) :
    (extended >>> (shift + 1)).roundBit = (extended.mantissa / 2 ^ shift % 2 != 0) := by
  rw [← shiftRight_mantissa]
  rfl

theorem roundedMantissa_bounds (extended : ExtendedMantissa) :
    extended.mantissa ≤ extended.roundedMantissa ∧
      extended.roundedMantissa ≤ extended.mantissa + 1 := by
  rcases extended with ⟨mantissa, roundBit, stickyBit⟩
  unfold ExtendedMantissa.roundedMantissa
  cases roundBit <;> cases stickyBit <;>
    simp only [ExtendedMantissa.accuracy, Accuracy.roundToNearestEven] <;> omega

theorem roundedMantissa_of_not_roundBit {extended : ExtendedMantissa}
    (low : extended.roundBit = false) : extended.roundedMantissa = extended.mantissa := by
  rcases extended with ⟨mantissa, roundBit, stickyBit⟩
  cases low
  cases stickyBit <;> rfl

/-- An odd significand is rounded up from the half on. -/
theorem roundedMantissa_of_roundBit {extended : ExtendedMantissa}
    (high : extended.roundBit = true) (odd : extended.mantissa % 2 = 1) :
    extended.roundedMantissa = extended.mantissa + 1 := by
  rcases extended with ⟨mantissa, roundBit, stickyBit⟩
  cases high
  cases stickyBit with
  | true => rfl
  | false => exact congrArg (mantissa + ·) odd

theorem ofMantissaAndAccuracy_mantissa (mantissa : Nat) (accuracy : Accuracy) :
    (ExtendedMantissa.ofMantissaAndAccuracy mantissa accuracy).mantissa = mantissa := by
  unfold ExtendedMantissa.ofMantissaAndAccuracy
  split <;> rfl

/-! ## The exponent after rounding -/

/-- The exponent that rounding aims at. -/
def target (significand : Nat) (exponent : Int) : Int :=
  max (significand.log2 + exponent - 52) (-1074)

theorem targetExponent_eq_target (significand : Nat) (exponent : Int) :
    Format.binary64.targetExponent (totalExponent significand exponent) =
      target significand exponent := by
  have mantissaBits : Format.binary64.mantissaBits = 53 := rfl
  have minExponent : Format.binary64.minExponent = -1074 := rfl
  unfold Format.targetExponent totalExponent target
  rw [mantissaBits, minExponent]
  omega

theorem shiftToTarget_eq (significand : Nat) (exponent : Int) (accuracy : Accuracy) :
    UnpackedFloat.shiftToTargetExponent .binary64 significand exponent accuracy =
      (ExtendedMantissa.ofMantissaAndAccuracy significand accuracy >>>
        (target significand exponent - exponent).toNat,
        max exponent (target significand exponent)) := by
  unfold UnpackedFloat.shiftToTargetExponent UnpackedFloat.shiftToExponent
  simp only [targetExponent_eq_target, Prod.mk.injEq, true_and]
  omega

theorem target_bounds (significand : Nat) (exponent : Int) :
    significand.log2 + exponent - 52 ≤ target significand exponent ∧
      -1074 ≤ target significand exponent :=
  ⟨Int.le_max_left _ _, Int.le_max_right _ _⟩

/-- The significand as rounded the first time, which may be one bit too long. -/
def firstRounded (significand : Nat) (exponent : Int) (accuracy : Accuracy) : Nat :=
  (ExtendedMantissa.ofMantissaAndAccuracy significand accuracy >>>
    (target significand exponent - exponent).toNat).roundedMantissa

/-- The exponent of what is rounded. -/
def roundedExponent (significand : Nat) (exponent : Int) (accuracy : Accuracy) : Int :=
  let first := max exponent (target significand exponent)
  max first (target (firstRounded significand exponent accuracy) first)

theorem div_two_pow_pos {number shift : Nat} (positive : 0 < number) (few : shift ≤ number.log2) :
    0 < number / 2 ^ shift :=
  Nat.div_pos ((Nat.le_log2 (Nat.ne_of_gt positive)).mp few) (Nat.two_pow_pos shift)

/-- The significand of what is rounded, which a second shift has shortened if
need be. -/
def roundedSignificand (significand : Nat) (exponent : Int) (accuracy : Accuracy) : Nat :=
  let first := max exponent (target significand exponent)
  firstRounded significand exponent accuracy /
    2 ^ (target (firstRounded significand exponent accuracy) first - first).toNat

/-- Rounding leaves a number with that significand and that exponent. -/
theorem roundWithAccuracy_eq (sign : UnpackedFloat.Sign) (significand : Nat) (exponent : Int)
    (accuracy : Accuracy) :
    UnpackedFloat.roundWithAccuracy .binary64 sign significand exponent accuracy =
      ofParts sign (roundedSignificand significand exponent accuracy)
        (roundedExponent significand exponent accuracy) := by
  unfold UnpackedFloat.roundWithAccuracy
  simp only [shiftToTarget_eq, shiftRight_mantissa, ofMantissaAndAccuracy_mantissa,
    roundedExponent, roundedSignificand, firstRounded]
  split
  · next zero => rw [ofParts, dif_neg (Nat.not_lt.mpr (Nat.le_of_eq zero))]
  · next nonzero => rw [ofParts, dif_pos (Nat.pos_of_ne_zero nonzero)]

/-- A second shift never makes a number zero. -/
theorem roundedSignificand_pos {significand : Nat} {exponent : Int} {accuracy : Accuracy}
    (positive : 0 < firstRounded significand exponent accuracy) :
    0 < roundedSignificand significand exponent accuracy := by
  have least := (target_bounds significand exponent).2
  apply div_two_pow_pos positive
  rw [target]
  omega

theorem log2_le_of_lt {number bits : Nat} (short : number < 2 ^ (bits + 1)) :
    number.log2 ≤ bits := by
  by_cases nonzero : number = 0
  · rw [nonzero]
    exact Nat.zero_le bits
  · exact Nat.le_of_lt_succ ((Nat.log2_lt nonzero).mpr short)

/-- The largest float and half a unit of its last place, counted in units of
`2 ^ -places`. -/
def overflowAt (places : Nat) : Nat :=
  (2 ^ 54 - 1) * 2 ^ (970 + places)

theorem overflowAt_pos (places : Nat) : 0 < overflowAt places :=
  Nat.mul_pos (by decide) (Nat.two_pow_pos _)

theorem overflowAt_add (places more : Nat) :
    overflowAt (places + more) = overflowAt places * 2 ^ more := by
  rw [overflowAt, overflowAt, ← Nat.add_assoc, Nat.pow_add 2 (970 + places), Nat.mul_assoc]

/-- A significand that is counted in halves of a unit keeps its length exactly
if it is not rounded up from the last of them. -/
theorem log2_roundedMantissa_le_iff {extended : ExtendedMantissa} {halves : Nat}
    (shifted : extended.mantissa = halves / 2) (half : extended.roundBit = (halves % 2 != 0))
    (long : halves < 2 ^ 54) :
    extended.roundedMantissa.log2 ≤ 52 ↔ halves < 2 ^ 54 - 1 := by
  constructor
  · intro short
    apply Nat.lt_of_not_le
    intro full
    have last : halves = 2 ^ 54 - 1 := by omega
    have odd : extended.mantissa % 2 = 1 := by omega
    rw [roundedMantissa_of_roundBit (half.trans (by rw [last]; decide)) odd, shifted, last]
      at short
    exact absurd short (by decide)
  · intro below
    apply log2_le_of_lt
    rcases Nat.mod_two_eq_zero_or_one halves with even | odd
    · rw [roundedMantissa_of_not_roundBit (half.trans (by rw [even]; rfl)), shifted]
      omega
    · have bounds := roundedMantissa_bounds extended
      omega

section Bound

variable {significand : Nat} {exponent : Int} (accuracy : Accuracy)

theorem firstRounded_le : firstRounded significand exponent accuracy ≤ 2 ^ 53 := by
  have aims := (target_bounds significand exponent).1
  have bounds := roundedMantissa_bounds (ExtendedMantissa.ofMantissaAndAccuracy significand accuracy
    >>> (target significand exponent - exponent).toNat)
  rw [shiftRight_mantissa, ofMantissaAndAccuracy_mantissa] at bounds
  have short : significand / 2 ^ (target significand exponent - exponent).toNat < 2 ^ 53 := by
    rw [Nat.div_lt_iff_lt_mul (Nat.two_pow_pos _), ← Nat.pow_add]
    exact Nat.lt_of_lt_of_le Nat.lt_log2_self (Nat.pow_le_pow_right (by decide) (by omega))
  exact Nat.le_trans bounds.2 short

theorem roundedExponent_of_short (low : exponent ≤ 0) (short : significand.log2 + exponent < 1023) :
    roundedExponent significand exponent accuracy ≤ 971 := by
  have bits : (firstRounded significand exponent accuracy).log2 ≤ 53 :=
    log2_le_of_lt (Nat.lt_of_le_of_lt (firstRounded_le accuracy) (by decide))
  simp only [roundedExponent, target]
  omega

theorem roundedExponent_of_long (long : 1023 < significand.log2 + exponent) :
    972 ≤ roundedExponent significand exponent accuracy := by
  simp only [roundedExponent, target]
  omega

/-- Among the longest finite numbers, those overflow that are rounded up to one
bit more. -/
theorem roundedExponent_of_longest (low : exponent ≤ 0)
    (length : significand.log2 + exponent = 1023) :
    roundedExponent significand exponent accuracy ≤ 971 ↔
      significand < overflowAt (-exponent).toNat := by
  have aims : target significand exponent = 971 := by
    rw [target]
    omega
  have shift : (target significand exponent - exponent).toNat =
      970 + (-exponent).toNat + 1 := by omega
  have exponents : roundedExponent significand exponent accuracy ≤ 971 ↔
      (firstRounded significand exponent accuracy).log2 ≤ 52 := by
    simp only [roundedExponent, aims]
    rw [target]
    omega
  have long : significand < 2 ^ (54 + (970 + (-exponent).toNat)) :=
    Nat.lt_of_lt_of_le Nat.lt_log2_self (Nat.pow_le_pow_right (by decide) (by omega))
  rw [exponents, firstRounded, shift, overflowAt]
  generalize 970 + (-exponent).toNat = places at long
  rw [Nat.pow_add, ← Nat.div_lt_iff_lt_mul (Nat.two_pow_pos _)] at long
  rw [← Nat.div_lt_iff_lt_mul (Nat.two_pow_pos _)]
  apply log2_roundedMantissa_le_iff _ _ long
  · rw [shiftRight_mantissa, ofMantissaAndAccuracy_mantissa, Nat.pow_succ,
      Nat.div_div_eq_div_mul]
  · rw [shiftRight_roundBit, ofMantissaAndAccuracy_mantissa]

theorem lt_overflowAt_of_short (low : exponent ≤ 0)
    (short : significand.log2 + exponent < 1023) :
    significand < overflowAt (-exponent).toNat := by
  calc significand < 2 ^ (significand.log2 + 1) := Nat.lt_log2_self
    _ ≤ 2 ^ (53 + (970 + (-exponent).toNat)) := Nat.pow_le_pow_right (by decide) (by omega)
    _ = 2 ^ 53 * 2 ^ (970 + (-exponent).toNat) := Nat.pow_add 2 53 _
    _ ≤ overflowAt (-exponent).toNat := Nat.mul_le_mul_right _ (by decide)

theorem overflowAt_le_of_long (low : exponent ≤ 0)
    (long : 1023 < significand.log2 + exponent) :
    overflowAt (-exponent).toNat ≤ significand := by
  have nonzero : significand ≠ 0 := by
    rintro rfl
    rw [Nat.log2_zero] at long
    omega
  calc overflowAt (-exponent).toNat
      ≤ 2 ^ 54 * 2 ^ (970 + (-exponent).toNat) := Nat.mul_le_mul_right _ (Nat.sub_le (2 ^ 54) 1)
    _ = 2 ^ (54 + (970 + (-exponent).toNat)) := (Nat.pow_add 2 54 _).symm
    _ ≤ 2 ^ significand.log2 := Nat.pow_le_pow_right (by decide) (by omega)
    _ ≤ significand := Nat.log2_self_le nonzero

/-- Rounding overflows exactly from one significand on. -/
theorem roundedExponent_le_iff (low : exponent ≤ 0) :
    roundedExponent significand exponent accuracy ≤ 971 ↔
      significand < overflowAt (-exponent).toNat := by
  rcases Int.lt_trichotomy (significand.log2 + exponent) 1023 with short | length | long
  · exact iff_of_true (roundedExponent_of_short accuracy low short)
      (lt_overflowAt_of_short low short)
  · exact roundedExponent_of_longest accuracy low length
  · have exceeds := roundedExponent_of_long accuracy long
    exact iff_of_false (by omega) (Nat.not_lt.mpr (overflowAt_le_of_long low long))

theorem firstRounded_pos (low : exponent ≤ 0) (length : 1023 ≤ significand.log2 + exponent) :
    0 < firstRounded significand exponent accuracy := by
  have positive : 0 < significand := by
    apply Nat.pos_of_ne_zero
    rintro rfl
    rw [Nat.log2_zero] at length
    omega
  refine Nat.lt_of_lt_of_le ?_ (roundedMantissa_bounds _).1
  rw [shiftRight_mantissa, ofMantissaAndAccuracy_mantissa]
  apply div_two_pow_pos positive
  rw [target]
  omega

end Bound

/-! ## Finite quotients -/

theorem isFinite_ofParts (sign : UnpackedFloat.Sign) (significand : Nat) (exponent : Int) :
    (ofParts sign significand exponent).isFinite = true := by
  unfold ofParts
  split <;> rfl

theorem isFinite_unpack_pack_zero (sign : UnpackedFloat.Sign) :
    (UnpackedFloat.unpack .binary64 (UnpackedFloat.pack .binary64 (.zero sign))).isFinite =
      true := by
  cases sign <;> decide

theorem isFinite_unpack_pack_iff (sign : UnpackedFloat.Sign) {significand : Nat} (exponent : Int)
    (positive : 0 < significand) :
    (UnpackedFloat.unpack .binary64
      (UnpackedFloat.pack .binary64 (ofParts sign significand exponent))).isFinite = true ↔
      exponent ≤ 971 := by
  rcases unpack_pack_cases sign exponent positive with
    ⟨large, unpacked⟩ | ⟨fits, rounded, power, unpacked⟩
  · rw [unpacked]
    exact iff_of_false nofun (by omega)
  · rw [unpacked]
    exact iff_of_true (isFinite_ofParts _ _ _) fits

/-- What is rounded is finite exactly if the significand is below the bound. -/
theorem isFinite_roundWithAccuracy_iff (sign : UnpackedFloat.Sign) (significand : Nat)
    {exponent : Int} (accuracy : Accuracy) (low : exponent ≤ 0) :
    (UnpackedFloat.unpack .binary64 (UnpackedFloat.pack .binary64
      (UnpackedFloat.roundWithAccuracy .binary64 sign significand exponent accuracy))).isFinite =
        true ↔
      significand < overflowAt (-exponent).toNat := by
  rw [roundWithAccuracy_eq, ← roundedExponent_le_iff accuracy low]
  by_cases positive : 0 < roundedSignificand significand exponent accuracy
  · exact isFinite_unpack_pack_iff sign _ positive
  · rw [ofParts, dif_neg positive]
    refine iff_of_true (isFinite_unpack_pack_zero sign) ?_
    rw [roundedExponent_le_iff accuracy low]
    apply lt_overflowAt_of_short low
    apply Int.lt_of_not_ge
    exact fun length => positive (roundedSignificand_pos (firstRounded_pos accuracy low length))

/-- A quotient is rounded from its whole part, at some exponent that is not
positive and that leaves it at least as long as a significand. -/
theorem div_eq_roundWithAccuracy {numerator denominator : Nat} (nonzero : 0 < numerator)
    (divides : 0 < denominator) :
    Exists fun exponent : Int => exponent ≤ 0 ∧
      exponent ≤ target (numerator * 2 ^ (-exponent).toNat / denominator) exponent ∧
      UnpackedFloat.div .binary64 (wholeOperand numerator) (wholeOperand denominator) =
        UnpackedFloat.roundWithAccuracy .binary64 .positive
          (numerator * 2 ^ (-exponent).toNat / denominator) exponent
          (UnpackedFloat.accuracyOfFraction
            (numerator * 2 ^ (-exponent).toNat % denominator) denominator) := by
  generalize lowerEq : min ((0 : Int) - 0) (Format.binary64.targetExponent
    (totalExponent numerator 0 - totalExponent denominator 0)) = lower
  have shift : ((0 : Int) - 0 - lower).toNat = (-lower).toNat := by omega
  have mantissaBits : Format.binary64.mantissaBits = 53 := rfl
  have minExponent : Format.binary64.minExponent = -1074 := rfl
  have start := lowerEq
  unfold Format.targetExponent totalExponent at start
  rw [mantissaBits, minExponent] at start
  refine ⟨lower, by omega, ?_, ?_⟩
  · have aims := target_bounds (numerator * 2 ^ (-lower).toNat / denominator) lower
    by_cases short : lower ≤ -1074
    · omega
    · have long : 2 ^ 52 ≤ numerator * 2 ^ (-lower).toNat / denominator := by
        rw [Nat.le_div_iff_mul_le divides]
        calc 2 ^ 52 * denominator ≤ 2 ^ 52 * 2 ^ (denominator.log2 + 1) :=
              Nat.mul_le_mul_left _ (Nat.le_of_lt Nat.lt_log2_self)
          _ = 2 ^ (52 + (denominator.log2 + 1)) := (Nat.pow_add 2 _ _).symm
          _ ≤ 2 ^ (numerator.log2 + (-lower).toNat) :=
              Nat.pow_le_pow_right (by decide) (by omega)
          _ = 2 ^ numerator.log2 * 2 ^ (-lower).toNat := Nat.pow_add 2 _ _
          _ ≤ numerator * 2 ^ (-lower).toNat :=
              Nat.mul_le_mul_right _ (Nat.log2_self_le (Nat.ne_of_gt nonzero))
      have length := (Nat.le_log2 (by omega)).mpr long
      omega
  · rw [wholeOperand, dif_pos nonzero, wholeOperand, dif_pos divides]
    unfold UnpackedFloat.div UnpackedFloat.divCore
    simp only [lowerEq, shift, Nat.shiftLeft_eq]
    rfl

end Binary64

/-- The nearest float of a quotient is finite exactly below the bound. -/
theorem isFinite_nearestQuotient_iff (numerator : Nat) {denominator : Nat}
    (divides : 0 < denominator) :
    (nearestQuotient numerator denominator).isFinite = true ↔
      numerator < Binary64.overflowAt 0 * denominator := by
  change (UnpackedFloat.unpack .binary64 (UnpackedFloat.pack .binary64
    (UnpackedFloat.div .binary64 (wholeOperand numerator) (wholeOperand denominator)))).isFinite =
      true ↔ _
  by_cases nonzero : 0 < numerator
  · rcases Binary64.div_eq_roundWithAccuracy nonzero divides with ⟨exponent, low, _, equal⟩
    rw [equal, Binary64.isFinite_roundWithAccuracy_iff _ _ _ low, Nat.div_lt_iff_lt_mul divides,
      ← Nat.zero_add (-exponent).toNat, Binary64.overflowAt_add, Nat.zero_add,
      Nat.mul_right_comm]
    exact Nat.mul_lt_mul_right (Nat.two_pow_pos _)
  · have zero : numerator = 0 := by omega
    refine iff_of_true ?_ (zero ▸ Nat.mul_pos (Binary64.overflowAt_pos 0) divides)
    rw [wholeOperand, wholeOperand, dif_neg nonzero, dif_pos divides]
    exact Binary64.isFinite_unpack_pack_zero .positive

namespace Numeral

/-- A numeral is finite if a larger one is. -/
theorem isFinite_of_le {numeral larger : Numeral}
    (le : numeral.digits * 10 ^ larger.places ≤ larger.digits * 10 ^ numeral.places)
    (finite : larger.toFloat.isFinite = true) : numeral.toFloat.isFinite = true := by
  have power (places : Nat) : 0 < 10 ^ places := Nat.pow_pos (by decide)
  rw [toFloat, isFinite_nearestQuotient_iff _ (power _)] at finite ⊢
  apply Nat.lt_of_mul_lt_mul_right (a := 10 ^ larger.places)
  calc numeral.digits * 10 ^ larger.places
      ≤ larger.digits * 10 ^ numeral.places := le
    _ < Binary64.overflowAt 0 * 10 ^ larger.places * 10 ^ numeral.places :=
        Nat.mul_lt_mul_of_pos_right finite (power _)
    _ = Binary64.overflowAt 0 * 10 ^ numeral.places * 10 ^ larger.places := Nat.mul_right_comm ..

/-- Each digit that follows makes a number at least ten times as large. -/
theorem ofDigitChars_append_ge (digits more : List Char) :
    Nat.ofDigitChars 10 digits 0 * 10 ^ more.length ≤ Nat.ofDigitChars 10 (digits ++ more) 0 := by
  rw [Nat.ofDigitChars_append, Nat.ofDigitChars_eq_ofDigitChars_zero (l := more), Nat.mul_comm]
  exact Nat.le_add_right _ _

/-- A number may be cut off before its point. -/
theorem isFinite_of_whole {digits more fraction : List Char}
    (finite : (ofDigitChars (digits ++ more) fraction).toFloat.isFinite = true) :
    (ofDigitChars digits []).toFloat.isFinite = true := by
  refine isFinite_of_le ?_ finite
  have longer := ofDigitChars_append_ge digits (more ++ fraction)
  have fewer : 10 ^ fraction.length ≤ 10 ^ (more ++ fraction).length :=
    Nat.pow_le_pow_right (by decide) (by rw [List.length_append]; omega)
  simp only [ofDigitChars, List.append_nil, List.length_nil, Nat.pow_zero, Nat.mul_one,
    List.append_assoc]
  exact Nat.le_trans (Nat.mul_le_mul_left _ fewer) longer

/-- A number may be cut off after its point. -/
theorem isFinite_of_fraction {digits fraction more : List Char}
    (finite : (ofDigitChars digits (fraction ++ more)).toFloat.isFinite = true) :
    (ofDigitChars digits fraction).toFloat.isFinite = true := by
  refine isFinite_of_le ?_ finite
  have longer := ofDigitChars_append_ge (digits ++ fraction) more
  simp only [ofDigitChars, List.length_append, Nat.pow_add, Nat.mul_left_comm _ (10 ^ _),
    Nat.mul_comm _ (10 ^ fraction.length), ← List.append_assoc]
  exact Nat.mul_le_mul_left _ longer

end Numeral

end DeskCalculator

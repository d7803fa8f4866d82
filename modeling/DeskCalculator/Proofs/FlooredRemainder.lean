import DeskCalculator.Proofs.Nearest

namespace DeskCalculator

open Float.Model (UnpackedFloat)
open Binary64 (ofParts Fits)

/-!
# The floored remainder

Two finite floats are whole multiples of the smaller of their last places, so
their remainders are remainders of whole numbers.  The truncated one is shorter
than one of the two significands, and therefore exact.  Where its sign is not that
of the divisor the divisor is added, and this sum is rounded.  It is no larger than
the divisor and no smaller than the least float, so rounding neither leaves the
divisor behind nor loses the sign.

By an infinite divisor a number is its own truncated remainder, and the sum is the
divisor.
-/

/-- What is left of a number after the multiple of the divisor that goes with the
quotient rounded down. -/
def flooredModulo (dividend divisor : ℚ) : ℚ :=
  dividend - divisor * ⌊dividend / divisor⌋

/-- The sign of a float; an undefined one has none. -/
def signBit? (value : Float) : Option Bool :=
  match Exact.ofFloat value with
  | .finite negative _ | .infinite negative => some negative
  | .undefined => none

/-! ## Exact remainders -/

theorem flooredModulo_eq_fract (dividend : ℚ) {divisor : ℚ} (nonzero : divisor ≠ 0) :
    flooredModulo dividend divisor = divisor * Int.fract (dividend / divisor) := by
  rw [Int.fract, mul_sub, mul_div_cancel₀ _ nonzero]
  rfl

theorem abs_flooredModulo_lt (dividend : ℚ) {divisor : ℚ} (nonzero : divisor ≠ 0) :
    |flooredModulo dividend divisor| < |divisor| := by
  rw [flooredModulo_eq_fract dividend nonzero, abs_mul,
    abs_of_nonneg (Int.fract_nonneg (dividend / divisor))]
  exact mul_lt_of_lt_one_right (abs_pos.mpr nonzero) (Int.fract_lt_one _)

/-- A remainder has the sign of the divisor. -/
theorem flooredModulo_lt_zero_iff {dividend divisor : ℚ} (nonzero : divisor ≠ 0)
    (left : flooredModulo dividend divisor ≠ 0) :
    flooredModulo dividend divisor < 0 ↔ divisor < 0 := by
  rw [flooredModulo_eq_fract dividend nonzero] at left ⊢
  have part : 0 < Int.fract (dividend / divisor) :=
    lt_of_le_of_ne (Int.fract_nonneg _) (right_ne_zero_of_mul left).symm
  constructor
  · intro negative
    exact neg_of_mul_neg_left negative part.le
  · intro negative
    exact mul_neg_of_neg_of_pos negative part

/-- The floored remainder lies between zero and the divisor. -/
theorem fmod_between (number : ℤ) {second : ℤ} (nonzero : second ≠ 0) :
    (0 < second ∧ 0 ≤ number.fmod second ∧ number.fmod second < second) ∨
      (second < 0 ∧ number.fmod second ≤ 0 ∧ second < number.fmod second) := by
  rcases lt_or_gt_of_ne nonzero with negative | positive
  · have nonneg := Int.fmod_nonneg_of_pos (-number) (neg_pos.mpr negative)
    have below := Int.fmod_lt_of_pos (-number) (neg_pos.mpr negative)
    rw [Int.neg_fmod_neg] at nonneg below
    exact .inr ⟨negative, by omega, by omega⟩
  · exact .inl ⟨positive, Int.fmod_nonneg_of_pos number positive,
      Int.fmod_lt_of_pos number positive⟩

theorem abs_fmod_lt (number : ℤ) {second : ℤ} (nonzero : second ≠ 0) :
    |number.fmod second| < |second| := by
  rcases fmod_between number nonzero with ⟨positive, nonneg, below⟩ | ⟨negative, nonpos, above⟩
  · rwa [abs_of_nonneg nonneg, abs_of_pos positive]
  · rw [abs_of_nonpos nonpos, abs_of_neg negative]
    exact neg_lt_neg above

theorem abs_tmod_lt (number : ℤ) {second : ℤ} (nonzero : second ≠ 0) :
    |number.tmod second| < |second| := by
  have below := Nat.mod_lt number.natAbs (by omega : 0 < second.natAbs)
  rw [← Int.natAbs_tmod] at below
  rw [← Int.natCast_natAbs, ← Int.natCast_natAbs]
  exact_mod_cast below

theorem abs_tmod_le (number second : ℤ) : |number.tmod second| ≤ |number| := by
  have below := Nat.mod_le number.natAbs second.natAbs
  rw [← Int.natAbs_tmod] at below
  rw [← Int.natCast_natAbs, ← Int.natCast_natAbs]
  exact_mod_cast below

/-- The floored remainder of whole numbers corrects the truncated one where the
signs differ. -/
theorem fmod_eq_corrected (dividend divisor : ℤ) :
    dividend.fmod divisor =
      if dividend.tmod divisor = 0 then 0
      else if decide (dividend.tmod divisor < 0) != decide (divisor < 0) then
        dividend.tmod divisor + divisor
      else dividend.tmod divisor := by
  by_cases divides : divisor ∣ dividend
  · rw [Int.fmod_eq_zero_of_dvd divides, if_pos (Int.tmod_eq_zero_of_dvd divides)]
  · have left : dividend.tmod divisor ≠ 0 := fun zero =>
      divides (Int.dvd_of_tmod_eq_zero zero)
    rw [if_neg left, Int.fmod_eq_tmod, if_neg divides]
    have sign : 0 ≤ dividend ↔ 0 ≤ dividend.tmod divisor := by
      constructor
      · exact Int.tmod_nonneg divisor
      · intro nonneg
        by_contra negative
        have opposite := Int.tmod_nonneg divisor (by omega : 0 ≤ -dividend)
        rw [Int.neg_tmod] at opposite
        omega
    generalize dividend.tmod divisor = rest at *
    simp only [bne_iff_ne, ne_eq, decide_eq_decide]
    split_ifs <;> omega

/-- Multiples of one power of two leave a multiple of it. -/
theorem flooredModulo_scaled (number : ℤ) {second : ℤ} (nonzero : second ≠ 0) (scale : ℤ) :
    flooredModulo (number * 2 ^ scale) (second * 2 ^ scale) =
      (number.fmod second : ℤ) * 2 ^ scale := by
  have divides : (second : ℚ) ≠ 0 := Int.cast_ne_zero.mpr nonzero
  have quotient : (number : ℚ) / second = (number.fdiv second : ℤ) +
      (number.fmod second : ℤ) / second := by
    rw [div_eq_iff divides, add_mul, div_mul_cancel₀ _ divides]
    exact_mod_cast (Int.fdiv_mul_add_fmod number second).symm
  have rest : (0 : ℚ) ≤ (number.fmod second : ℤ) / second ∧
      ((number.fmod second : ℤ) : ℚ) / second < 1 := by
    rcases fmod_between number nonzero with ⟨positive, nonneg, below⟩ | ⟨negative, nonpos, above⟩
    · have positiveDivisor : (0 : ℚ) < second := Int.cast_pos.mpr positive
      exact ⟨div_nonneg (Int.cast_nonneg nonneg) positiveDivisor.le,
        (div_lt_one positiveDivisor).mpr (Int.cast_lt.mpr below)⟩
    · have negativeDivisor : (second : ℚ) < 0 := Int.cast_lt_zero.mpr negative
      exact ⟨div_nonneg_of_nonpos (Int.cast_nonpos.mpr nonpos) negativeDivisor.le,
        (div_lt_one_of_neg negativeDivisor).mpr (Int.cast_lt.mpr above)⟩
  have floor : ⌊(number : ℚ) / second⌋ = number.fdiv second := by
    rw [Int.floor_eq_iff, quotient]
    constructor <;> linarith [rest.1, rest.2]
  rw [flooredModulo, mul_div_mul_right _ _ (two_zpow_pos scale).ne', floor, Int.fmod_def]
  push_cast
  ring

/-! ## The truncated remainder -/

section Remainders

variable {value other : Float} {number second : ℚ}

/-- The exact remainder of two magnitudes that are multiples of one power of two. -/
theorem rational_remainder {dividend divisor : Magnitude} {count unit : ℕ} {scale : ℤ}
    (dividendScaled : dividend.rational = count * 2 ^ scale)
    (divisorScaled : divisor.rational = unit * 2 ^ scale) :
    (dividend.remainder divisor).rational = ((count % unit : ℕ) : ℚ) * 2 ^ scale := by
  rw [dividend.rational_eq_significandAt (min_le_left _ divisor.exponent)] at dividendScaled
  rw [divisor.rational_eq_significandAt (min_le_right dividend.exponent _)] at divisorScaled
  unfold Magnitude.remainder Magnitude.rational
  dsimp only
  generalize min dividend.exponent divisor.exponent = shared at *
  generalize dividend.significandAt shared = first at *
  generalize divisor.significandAt shared = second at *
  rcases le_total scale shared with lower | higher
  · rw [Binary64.eq_mul_of_rational_eq lower dividendScaled.symm,
      Binary64.eq_mul_of_rational_eq lower divisorScaled.symm, Nat.mul_mod_mul_right,
      two_zpow_lower lower, Nat.cast_mul]
  · rw [Binary64.eq_mul_of_rational_eq higher dividendScaled,
      Binary64.eq_mul_of_rational_eq higher divisorScaled, Nat.mul_mod_mul_right,
      two_zpow_lower higher, Nat.cast_mul]

/-- A whole number of units that is no longer than a significand is that of a float. -/
theorem representable_scaled (count scale : ℤ) (short : |count| < 2 ^ 53) (least : -1074 ≤ scale)
    (most : scale ≤ 971) : Representable (count * 2 ^ scale) := by
  by_cases zero : count = 0
  · rw [zero, Int.cast_zero, zero_mul]
    exact ⟨0, denotes_zero⟩
  · have positive : 0 < count.natAbs := Int.natAbs_pos.mpr zero
    rw [Int.abs_eq_natAbs] at short
    have bits : count.natAbs.log2 ≤ 52 := Binary64.log2_le_of_lt (by omega)
    generalize shiftEq : min (52 - count.natAbs.log2) (scale + 1074).toNat = shift
    have length := Binary64.log2_mul_two_pow positive.ne' shift
    have nonzero : count.natAbs * 2 ^ shift ≠ 0 :=
      Nat.mul_ne_zero positive.ne' (Nat.two_pow_pos shift).ne'
    have fits : Fits (count.natAbs * 2 ^ shift) (scale - shift) := by
      refine ⟨Nat.pos_of_ne_zero nonzero, (Nat.log2_lt nonzero).mp (by omega), by omega,
        by omega, ?_⟩
      rcases Nat.lt_or_ge (scale + 1074).toNat (52 - count.natAbs.log2) with few | enough
      · exact .inr (by omega)
      · exact .inl ((Nat.le_log2 nonzero).mp (by omega))
    have denotes := denotes_of_canonical
      (.inr fits : Magnitude.IsCanonical ⟨count.natAbs * 2 ^ shift, scale - shift⟩)
      (decide (count < 0))
    have size : (⟨count.natAbs * 2 ^ shift, scale - shift⟩ : Magnitude).rational =
        |(count : ℚ)| * 2 ^ scale := by
      have lower := @two_zpow_lower (scale - shift) scale (by omega) count.natAbs
      rw [sub_sub_cancel, Int.toNat_natCast] at lower
      rw [Magnitude.rational, Nat.cast_mul, ← lower, Nat.cast_natAbs, Int.cast_abs]
    have signed : Exact.rational (decide (count < 0))
        ⟨count.natAbs * 2 ^ shift, scale - shift⟩ = count * 2 ^ scale := by
      rw [Exact.rational, size]
      rcases lt_or_gt_of_ne zero with negative | above
      · rw [if_pos (decide_eq_true negative), abs_of_neg (Int.cast_lt_zero.mpr negative), neg_mul,
          neg_neg]
      · rw [if_neg (by simp [above.le]), abs_of_pos (Int.cast_pos.mpr above)]
    exact ⟨_, signed ▸ denotes⟩

/-- The truncated remainder is exact where it can be. -/
theorem denotes_truncatedRemainder {count unit scale : ℤ}
    (denotes : Denotes value (count * 2 ^ scale))
    (denotesOther : Denotes other (unit * 2 ^ scale)) (nonzero : unit ≠ 0)
    (representable : Representable ((count.tmod unit : ℤ) * 2 ^ scale)) :
    Denotes (truncatedRemainder value other) ((count.tmod unit : ℤ) * 2 ^ scale) := by
  rcases denotes with ⟨negative, magnitude, read, same⟩
  rcases denotesOther with ⟨negativeOther, magnitudeOther, readOther, sameOther⟩
  have positive := two_zpow_pos scale
  have size : magnitude.rational = count.natAbs * 2 ^ scale := by
    rw [← Exact.abs_rational negative, same, abs_mul, abs_of_pos positive, Nat.cast_natAbs,
      Int.cast_abs]
  have sizeOther : magnitudeOther.rational = unit.natAbs * 2 ^ scale := by
    rw [← Exact.abs_rational negativeOther, sameOther, abs_mul, abs_of_pos positive,
      Nat.cast_natAbs, Int.cast_abs]
  have divides : magnitudeOther.significand ≠ 0 := by
    rw [Ne, ← magnitudeOther.rational_eq_zero_iff, sizeOther, mul_eq_zero_iff_right positive.ne',
      Nat.cast_eq_zero]
    omega
  have rest := rational_remainder size sizeOther
  have signed : Exact.rational negative (magnitude.remainder magnitudeOther) =
      (count.tmod unit : ℤ) * 2 ^ scale := by
    rw [← Int.natAbs_tmod, ← Int.cast_natCast] at rest
    cases negative with
    | true =>
        have nonneg : (0 : ℚ) ≤ (-count : ℤ) * 2 ^ scale := by
          rw [Int.cast_neg, neg_mul, ← same, Exact.rational_true, neg_neg]
          exact magnitude.rational_nonneg
        have sign := Int.tmod_nonneg unit
          (Int.cast_nonneg_iff.mp (nonneg_of_mul_nonneg_left nonneg positive))
        rw [Int.neg_tmod] at sign
        rw [Exact.rational_true, rest, Int.ofNat_natAbs_of_nonpos (by omega), Int.cast_neg,
          neg_mul, neg_neg]
    | false =>
        have nonneg : (0 : ℚ) ≤ count * 2 ^ scale := same ▸ magnitude.rational_nonneg
        have sign := Int.tmod_nonneg unit
          (Int.cast_nonneg_iff.mp (nonneg_of_mul_nonneg_left nonneg positive))
        rw [Exact.rational_false, rest, Int.natAbs_of_nonneg sign]
  unfold truncatedRemainder
  simp only [read, readOther, if_neg divides]
  rw [← signed] at representable ⊢
  exact denotes_toFloat representable

theorem Magnitude.IsCanonical.bounds {magnitude : Magnitude} (canonical : magnitude.IsCanonical) :
    magnitude.significand < 2 ^ 53 ∧ -1074 ≤ magnitude.exponent ∧ magnitude.exponent ≤ 971 := by
  rcases canonical with rfl | fits
  · decide
  · exact ⟨fits.bounded, fits.least, fits.most⟩

theorem scaled_lt_zero_iff (count scale : ℤ) : (count : ℚ) * 2 ^ scale < 0 ↔ count < 0 := by
  have positive := two_zpow_pos scale
  rw [← Int.cast_lt_zero (R := ℚ)]
  exact ⟨fun negative => neg_of_mul_neg_left negative positive.le,
    fun negative => mul_neg_of_neg_of_pos negative positive⟩

/-- Two finite floats are whole multiples of a power of two, and one of them is not longer
than a significand. -/
theorem exists_shared_scale (denotes : Denotes value number)
    (denotesOther : Denotes other second) :
    Exists fun count : ℤ => Exists fun unit : ℤ => Exists fun scale : ℤ =>
      number = count * 2 ^ scale ∧ second = unit * 2 ^ scale ∧ -1074 ≤ scale ∧ scale ≤ 971 ∧
        (|count| < 2 ^ 53 ∨ |unit| < 2 ^ 53) := by
  rcases denotes with ⟨negative, magnitude, read, rfl⟩
  rcases denotesOther with ⟨negativeOther, magnitudeOther, readOther, rfl⟩
  have bounds := (Exact.unpack_of_ofFloat read).2.bounds
  have boundsOther := (Exact.unpack_of_ofFloat readOther).2.bounds
  have short (sign : UnpackedFloat.Sign) {significand : ℕ} {scale exponent : ℤ}
      (bounded : significand < 2 ^ 53) (same : scale = exponent) :
      |sign.apply (significand <<< (exponent - scale).toNat : ℕ)| < 2 ^ 53 := by
    rw [same, sub_self, Int.toNat_zero, Nat.shiftLeft_zero]
    cases sign with
    | negative =>
        rw [UnpackedFloat.Sign.apply, abs_neg, Nat.abs_cast]
        exact_mod_cast bounded
    | positive =>
        rw [UnpackedFloat.Sign.apply, Nat.abs_cast]
        exact_mod_cast bounded
  refine ⟨_, _, min magnitude.exponent magnitudeOther.exponent,
    (Exact.rational_eq_signOf negative magnitude).trans
      (sign_apply_lower _ _ (min_le_left _ _)).symm,
    (Exact.rational_eq_signOf negativeOther magnitudeOther).trans
      (sign_apply_lower _ _ (min_le_right _ _)).symm, by omega, by omega, ?_⟩
  rcases le_total magnitude.exponent magnitudeOther.exponent with below | above
  · exact .inl (short _ bounds.1 (min_eq_left below))
  · exact .inr (short _ boundsOther.1 (min_eq_right above))

/-! ## Nearness and signs -/

theorem Denotes.abs (denotes : Denotes value number) : Denotes value.abs |number| := by
  rcases denotes with ⟨negative, magnitude, read, rfl⟩
  rw [Exact.abs_eq_toFloat read, Exact.abs_rational]
  exact denotes_of_canonical (Exact.unpack_of_ofFloat read).2 false

/-- No float is larger than the largest. -/
theorem Denotes.abs_le_largest (denotes : Denotes value number) :
    |number| ≤ ((2 ^ 53 - 1 : ℕ) : ℚ) * 2 ^ (971 : ℤ) := by
  rcases denotes with ⟨negative, magnitude, read, rfl⟩
  rcases (Exact.unpack_of_ofFloat read).2.bounds with ⟨short, _, most⟩
  rw [Exact.abs_rational]
  exact mul_le_mul (Nat.cast_le.mpr (Nat.le_pred_of_lt short))
    (zpow_le_zpow_right₀ (by norm_num) most) (two_zpow_pos _).le (Nat.cast_nonneg _)

theorem Denotes.signBit?_eq (denotes : Denotes value number) (nonzero : number ≠ 0) :
    signBit? value = some (decide (number < 0)) := by
  rcases denotes with ⟨negative, magnitude, read, rfl⟩
  have size := magnitude.rational_nonneg
  rw [signBit?, read]
  dsimp only
  cases negative with
  | true =>
      rw [Exact.rational_true] at nonzero ⊢
      have positive : 0 < magnitude.rational := lt_of_le_of_ne size (neg_ne_zero.mp nonzero).symm
      rw [decide_eq_true (neg_lt_zero.mpr positive)]
  | false => rw [Exact.rational_false, decide_eq_false (not_lt.mpr size)]

namespace IsNearest

variable {ideal : ℚ}

theorem of_denotes (denotes : Denotes value ideal) : IsNearest ideal value := by
  refine ⟨ideal, denotes, fun other second _ => ?_⟩
  rw [sub_self, abs_zero]
  exact ⟨abs_nonneg _, fun tie different => absurd (sub_eq_zero.mp (abs_eq_zero.mp tie)) different⟩

/-- The nearest float is exact where it can be. -/
theorem denotes (isNearest : IsNearest ideal value) (representable : Representable ideal) :
    Denotes value ideal := by
  rcases isNearest with ⟨number, denotes, nearest⟩
  rcases representable with ⟨other, denotesOther⟩
  have near := (nearest other ideal denotesOther).1
  rw [sub_self, abs_zero, abs_nonpos_iff, sub_eq_zero] at near
  exact near ▸ denotes

/-- Rounding does not pass a float above the number. -/
theorem le_of_le (isNearest : IsNearest ideal value) (denotes : Denotes value number)
    (denotesOther : Denotes other second) (le : ideal ≤ second) : number ≤ second := by
  rcases isNearest with ⟨found, denotesFound, nearest⟩
  rw [denotesFound.unique denotes] at nearest
  have near := (nearest other second denotesOther).1
  by_contra above
  rw [abs_of_nonneg (by linarith), abs_of_nonneg (by linarith)] at near
  linarith

/-- Rounding does not pass a float below the number. -/
theorem le_of_ge (isNearest : IsNearest ideal value) (denotes : Denotes value number)
    (denotesOther : Denotes other second) (le : second ≤ ideal) : second ≤ number := by
  rcases isNearest with ⟨found, denotesFound, nearest⟩
  rw [denotesFound.unique denotes] at nearest
  have near := (nearest other second denotesOther).1
  by_contra below
  rw [abs_of_nonpos (by linarith), abs_of_nonpos (by linarith)] at near
  linarith

theorem abs_le_abs (isNearest : IsNearest ideal value) (denotesOther : Denotes other second)
    (le : |ideal| ≤ |second|) : value.abs ≤ other.abs := by
  have ⟨number, denotes, _⟩ := isNearest
  rw [denotes.abs.le_iff denotesOther.abs, abs_le]
  rcases abs_le.mp le with ⟨above, below⟩
  exact ⟨isNearest.le_of_ge denotes denotesOther.abs.neg above,
    isNearest.le_of_le denotes denotesOther.abs below⟩

/-- A number that is no smaller than the least float keeps its sign. -/
theorem signBit?_eq (isNearest : IsNearest ideal value) (large : (2 : ℚ) ^ (-1074 : ℤ) ≤ |ideal|) :
    signBit? value = some (decide (ideal < 0)) := by
  have positive := two_zpow_pos (-1074)
  have ⟨number, denotes, _⟩ := isNearest
  rcases representable_scaled 1 (-1074) (by norm_num) (by norm_num) (by norm_num) with
    ⟨least, denotesLeast⟩
  rw [Int.cast_one, one_mul] at denotesLeast
  rcases lt_or_ge ideal 0 with negative | nonneg
  · rw [abs_of_neg negative] at large
    have below := isNearest.le_of_le denotes denotesLeast.neg (by linarith)
    rw [denotes.signBit?_eq (by linarith), decide_eq_true negative, decide_eq_true (by linarith)]
  · rw [abs_of_nonneg nonneg] at large
    have above := isNearest.le_of_ge denotes denotesLeast large
    rw [denotes.signBit?_eq (by linarith), decide_eq_false (not_lt.mpr nonneg),
      decide_eq_false (by linarith)]

end IsNearest

/-- A sum is the nearest float to the exact sum, unless that is beyond the largest. -/
theorem Denotes.add_isNearest (denotes : Denotes value number) (denotesOther : Denotes other second)
    (bounded : |number + second| ≤ ((2 ^ 53 - 1 : ℕ) : ℚ) * 2 ^ (971 : ℤ)) :
    IsNearest (number + second) (value + other) := by
  rcases denotes.exists_sum denotesOther with ⟨negative, magnitude, rounded, same⟩
  rw [← same, Exact.abs_rational] at bounded
  rw [rounded, ← same]
  exact Exact.isNearest_toFloat bounded negative

theorem signBit?_of_infinite {negative : Bool} (read : Exact.ofFloat value = .infinite negative) :
    signBit? value = some negative := by
  rw [signBit?, read]

theorem exists_signBit (defined : value.isNaN = false) :
    Exists fun negative : Bool => signBit? value = some negative := by
  rcases denotes_or_infinite defined with ⟨number, negative, magnitude, read, _⟩ | ⟨negative, read⟩
  · exact ⟨negative, by rw [signBit?, read]⟩
  · exact ⟨negative, signBit?_of_infinite read⟩

theorem isNaN_of_signBit {negative : Bool} (sign : signBit? value = some negative) :
    value.isNaN = false := by
  change value.toModel.unpack.isNaN = false
  unfold signBit? Exact.ofFloat at sign
  cases shape : value.toModel.unpack with
  | notANumber => simp [shape] at sign
  | _ => rfl

theorem ofFloat_zeroLike {negative : Bool} (sign : signBit? value = some negative) :
    Exact.ofFloat (zeroLike value) = .finite negative ⟨0, 0⟩ := by
  have zero := Exact.ofFloat_toFloat (.inl rfl : Magnitude.IsCanonical ⟨0, 0⟩)
  rw [signBit?] at sign
  rw [zeroLike]
  cases read : Exact.ofFloat value with
  | undefined => rw [read] at sign; cases sign
  | _ => rw [read] at sign; cases sign; exact zero _

theorem signBit?_zeroLike {negative : Bool} (sign : signBit? value = some negative) :
    signBit? (zeroLike value) = some negative := by
  rw [signBit?, ofFloat_zeroLike sign]

theorem denotes_zeroLike {negative : Bool} (sign : signBit? value = some negative) :
    Denotes (zeroLike value) 0 :=
  ⟨negative, _, ofFloat_zeroLike sign, Exact.rational_zero negative⟩

/-- A zero is no larger than anything. -/
theorem abs_zeroLike_le (defined : value.isNaN = false) : (zeroLike value).abs ≤ value.abs := by
  rcases exists_signBit defined with ⟨_, sign⟩
  have zero := denotes_zeroLike sign
  rcases denotes_or_infinite defined with ⟨number, denotes⟩ | ⟨_, read⟩
  · rw [zero.abs.le_iff denotes.abs, abs_zero]
    exact abs_nonneg number
  · exact abs_le_of_infinite (isNaN_eq_false_of_isFinite zero.isFinite) read

/-! ## The floored remainder -/

/-- Where the floored remainder is zero, the result has the sign of the divisor;
otherwise it is the nearest float, as a sum below the divisor is not rounded beyond
the largest float. -/
theorem flooredRemainder_cases (denotes : Denotes value number)
    (denotesOther : Denotes other second) (nonzero : second ≠ 0) :
    (flooredModulo number second = 0 ∧ flooredRemainder value other = zeroLike other) ∨
      (2 : ℚ) ^ (-1074 : ℤ) ≤ |flooredModulo number second| ∧
        (flooredModulo number second < 0 ↔ second < 0) ∧
        IsNearest (flooredModulo number second) (flooredRemainder value other) := by
  rcases exists_shared_scale denotes denotesOther with
    ⟨count, unit, scale, rfl, rfl, least, most, short⟩
  have positive := two_zpow_pos scale
  have nonzeroUnit : unit ≠ 0 := by
    rintro rfl
    exact nonzero (by rw [Int.cast_zero, zero_mul])
  have bounded : |count.tmod unit| < 2 ^ 53 := by
    rcases short with shortCount | shortUnit
    · exact (abs_tmod_le count unit).trans_lt shortCount
    · exact (abs_tmod_lt count nonzeroUnit).trans shortUnit
  have truncated := denotes_truncatedRemainder denotes denotesOther nonzeroUnit
    (representable_scaled _ scale bounded least most)
  have isZero := truncated.beq_iff denotes_zero
  have isNegative := truncated.lt_zero_iff
  have isNegativeOther := denotesOther.lt_zero_iff
  rw [mul_eq_zero_iff_right positive.ne', Int.cast_eq_zero] at isZero
  rw [scaled_lt_zero_iff] at isNegative isNegativeOther
  have scaled := flooredModulo_scaled count nonzeroUnit scale
  have corrected := fmod_eq_corrected count unit
  unfold flooredRemainder
  dsimp only
  by_cases zero : count.tmod unit = 0
  · rw [if_pos zero] at corrected
    rw [if_pos (isZero.mpr zero), scaled, corrected, Int.cast_zero, zero_mul]
    exact .inl ⟨rfl, rfl⟩
  · rw [if_neg zero] at corrected
    rw [if_neg (mt isZero.mp zero), decide_eq_decide.mpr isNegative,
      decide_eq_decide.mpr isNegativeOther]
    have left : count.fmod unit ≠ 0 := fun divides =>
      zero (Int.tmod_eq_zero_of_dvd (Int.dvd_of_fmod_eq_zero divides))
    have large : (2 : ℚ) ^ (-1074 : ℤ) ≤
        |flooredModulo (count * 2 ^ scale) (unit * 2 ^ scale)| := by
      have atLeastOne : (1 : ℚ) ≤ |((count.fmod unit : ℤ) : ℚ)| := by
        exact_mod_cast Int.one_le_abs left
      rw [scaled, abs_mul, abs_of_pos positive]
      exact (zpow_le_zpow_right₀ (by norm_num) least).trans
        (le_mul_of_one_le_left positive.le atLeastOne)
    have apart := abs_pos.mp ((two_zpow_pos (-1074)).trans_le large)
    refine .inr ⟨large, flooredModulo_lt_zero_iff nonzero apart, ?_⟩
    by_cases differ : (decide (count.tmod unit < 0) != decide (unit < 0)) = true
    · rw [if_pos differ] at corrected ⊢
      have bound := (abs_flooredModulo_lt (count * 2 ^ scale) nonzero).le.trans
        denotesOther.abs_le_largest
      rw [scaled, corrected, Int.cast_add, add_mul] at bound ⊢
      exact truncated.add_isNearest denotesOther bound
    · rw [if_neg differ] at corrected ⊢
      rw [scaled, corrected]
      exact .of_denotes truncated

/-- An infinite summand remains. -/
theorem ofFloat_add_of_infinite {negative : Bool} (denotes : Denotes value number)
    (read : Exact.ofFloat other = .infinite negative) :
    Exact.ofFloat (value + other) = .infinite negative := by
  change Exact.ofFloat (.ofModel (.pack (UnpackedFloat.add .binary64 value.toModel.unpack
    other.toModel.unpack))) = _
  rw [Exact.unpack_of_infinite read]
  have standsFor := denotes.standsFor
  generalize value.toModel.unpack = shape at standsFor
  have packed := Exact.ofFloat_pack_infinity (Exact.signOf negative)
  rw [Exact.isNegative_signOf] at packed
  cases standsFor with
  | zero sign => exact packed
  | finite sign positive fits => exact packed

/-- By an infinite divisor the result is the dividend or the divisor, or a zero. -/
theorem flooredRemainder_of_infinite {negative : Bool} (denotes : Denotes value number)
    (read : Exact.ofFloat other = .infinite negative) :
    signBit? (flooredRemainder value other) = some negative ∧
      (flooredRemainder value other).abs ≤ other.abs := by
  have sign := signBit?_of_infinite read
  have whole : truncatedRemainder value other = value := by
    rcases denotes with ⟨_, magnitude, found, _⟩
    simp only [truncatedRemainder, found, read]
  have isZero := denotes.beq_iff denotes_zero
  have isNegative := denotes.lt_zero_iff
  unfold flooredRemainder
  dsimp only
  rw [whole]
  by_cases zero : number = 0
  · rw [if_pos (isZero.mpr zero)]
    exact ⟨signBit?_zeroLike sign, abs_zeroLike_le (isNaN_of_infinite read)⟩
  · rw [if_neg (mt isZero.mp zero), decide_eq_decide.mpr isNegative, lt_zero_of_infinite read]
    by_cases differ : (decide (number < 0) != negative) = true
    · rw [if_pos differ]
      have sum := ofFloat_add_of_infinite denotes read
      exact ⟨signBit?_of_infinite sum, abs_le_of_infinite (isNaN_of_infinite sum) read⟩
    · rw [if_neg differ, denotes.signBit?_eq zero]
      have same : decide (number < 0) = negative := by simpa using differ
      exact ⟨congrArg some same,
        abs_le_of_infinite (isNaN_eq_false_of_isFinite denotes.isFinite) read⟩

/-- By a finite divisor the result is the nearest float, has the sign of the divisor and
is no larger. -/
theorem flooredRemainder_of_finite (denotes : Denotes value number)
    (denotesOther : Denotes other second) (nonzero : second ≠ 0) :
    signBit? (flooredRemainder value other) = signBit? other ∧
      (flooredRemainder value other).abs ≤ other.abs ∧
      IsNearest (flooredModulo number second) (flooredRemainder value other) ∧
      (flooredModulo number second = 0 -> flooredRemainder value other = zeroLike other) := by
  have sign := denotesOther.signBit?_eq nonzero
  rcases flooredRemainder_cases denotes denotesOther nonzero with
    ⟨vanishes, zero⟩ | ⟨large, signs, isNearest⟩
  · rw [zero, sign, vanishes]
    exact ⟨signBit?_zeroLike sign,
      abs_zeroLike_le (isNaN_eq_false_of_isFinite denotesOther.isFinite),
      .of_denotes (denotes_zeroLike sign), fun _ => rfl⟩
  · rw [isNearest.signBit?_eq large, sign, decide_eq_decide.mpr signs]
    refine ⟨rfl, isNearest.abs_le_abs denotesOther (abs_flooredModulo_lt number nonzero).le,
      isNearest, fun vanishes => ?_⟩
    rw [vanishes, abs_zero] at large
    exact absurd large (not_le.mpr (two_zpow_pos (-1074)))

end Remainders

/-- The modulus of a finite float by any float other than zero is a float with the sign
of the divisor, and no larger.  If the divisor is finite too, it is the float nearest to
the exact floored remainder, and where that is zero it is the zero with the divisor's
sign. -/
theorem Operator.modulo_is_floored (dividend divisor : Float)
    (finite : dividend.isFinite = true) (defined : divisor.isNaN = false)
    (nonzero : (divisor == 0) = false) :
    Exists fun result : Float => Operator.modulo.apply dividend divisor = .ok result ∧
      signBit? result = signBit? divisor ∧ result.abs ≤ divisor.abs ∧
      (divisor.isFinite = true ->
        Exists fun first : ℚ => Exists fun second : ℚ =>
          Denotes dividend first ∧ Denotes divisor second ∧
            IsNearest (flooredModulo first second) result ∧
            (flooredModulo first second = 0 ->
              Exists fun negative : Bool => signBit? divisor = some negative ∧
                Exact.ofFloat result = .finite negative ⟨0, 0⟩)) := by
  rcases Exact.isFinite_iff.mp finite with ⟨negative, magnitude, read⟩
  have denotes : Denotes dividend (Exact.rational negative magnitude) :=
    ⟨negative, magnitude, read, rfl⟩
  rcases exists_signBit defined with ⟨sign, signed⟩
  have passes (same : signBit? (flooredRemainder dividend divisor) = some sign) :
      Operator.modulo.apply dividend divisor = .ok (flooredRemainder dividend divisor) :=
    (if_neg (Bool.eq_false_iff.mp nonzero)).trans
      (ensureDefined_of_number (isNaN_of_signBit same) _ _)
  rw [signed]
  rcases denotes_or_infinite defined with ⟨second, denotesOther⟩ | ⟨signOther, readOther⟩
  · have notZero : second ≠ 0 := fun zero =>
      Bool.eq_false_iff.mp nonzero ((denotesOther.beq_iff denotes_zero).mpr zero)
    rcases flooredRemainder_of_finite denotes denotesOther notZero with
      ⟨sameSign, small, isNearest, zero⟩
    rw [signed] at sameSign
    refine ⟨_, passes sameSign, sameSign, small, fun _ =>
      ⟨_, second, denotes, denotesOther, isNearest, fun vanishes => ⟨sign, rfl, ?_⟩⟩⟩
    rw [zero vanishes]
    exact ofFloat_zeroLike signed
  · rcases flooredRemainder_of_infinite denotes readOther with ⟨sameSign, small⟩
    rw [← signBit?_of_infinite readOther, signed] at sameSign
    refine ⟨_, passes sameSign, sameSign, small, fun finiteOther => ?_⟩
    rcases Exact.isFinite_iff.mp finiteOther with ⟨_, _, again⟩
    rw [readOther] at again
    cases again

/-- A tiny negative dividend leaves almost the whole divisor, which is rounded to it; by
an infinite divisor it leaves the divisor itself. -/
theorem Operator.modulo_is_floored_tiny :
    let tiny : Float := (Exact.finite true ⟨2 ^ 52, -200⟩).toFloat
    let three : Float := (Exact.finite false ⟨3 * 2 ^ 51, -51⟩).toFloat
    let endless : Float := (Exact.infinite false).toFloat
    (Exists fun result : Float => Operator.modulo.apply tiny three = .ok result ∧
      signBit? result = signBit? three ∧ result.abs ≤ three.abs ∧ result = three ∧
        Exists fun first : ℚ => Exists fun second : ℚ => Denotes tiny first ∧
          Denotes three second ∧ IsNearest (flooredModulo first second) result) ∧
      Exists fun result : Float => Operator.modulo.apply tiny endless = .ok result ∧
        signBit? result = signBit? endless ∧ result.abs ≤ endless.abs := by
  have finiteTiny : (Exact.finite true ⟨2 ^ 52, -200⟩).toFloat.isFinite = true := by decide +kernel
  have finiteThree : (Exact.finite false ⟨3 * 2 ^ 51, -51⟩).toFloat.isFinite = true := by
    decide +kernel
  have notZero : ((Exact.finite false ⟨3 * 2 ^ 51, -51⟩).toFloat == 0) = false := by decide +kernel
  have infinite : Exact.ofFloat (Exact.infinite false).toFloat = .infinite false :=
    Exact.ofFloat_pack_infinity .positive
  have whole : Operator.modulo.apply (Exact.finite true ⟨2 ^ 52, -200⟩).toFloat
      (Exact.finite false ⟨3 * 2 ^ 51, -51⟩).toFloat =
        .ok (Exact.finite false ⟨3 * 2 ^ 51, -51⟩).toFloat := by decide +kernel
  intro tiny three endless
  constructor
  · rcases modulo_is_floored tiny three finiteTiny (isNaN_eq_false_of_isFinite finiteThree)
      notZero with ⟨result, applied, sign, small, finite⟩
    rcases finite finiteThree with ⟨first, second, denotes, denotesOther, isNearest, _⟩
    have same : result = three := Except.ok.inj (applied.symm.trans whole)
    exact ⟨result, applied, sign, small, same, first, second, denotes, denotesOther, isNearest⟩
  · rcases modulo_is_floored tiny endless finiteTiny (isNaN_of_infinite infinite)
      (not_beq_zero_of_infinite infinite) with ⟨result, applied, sign, small, _⟩
    exact ⟨result, applied, sign, small⟩

end DeskCalculator

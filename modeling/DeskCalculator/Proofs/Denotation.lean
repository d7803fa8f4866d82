import DeskCalculator.Proofs.Definedness
import DeskCalculator.Proofs.Floats

namespace DeskCalculator

open Float.Model (Format UnpackedFloat totalExponent)
open Binary64 (ofParts Fits)

/-!
# The numbers that floats stand for

A finite float stands for a rational number, and no two floats stand for the
same one except the two zeros.  Comparing floats is comparing these numbers.
Sums, differences and products are rounded, so they are exact wherever the exact
result is the number of a float.
-/

/-- The number that the magnitude is. -/
def Magnitude.rational (magnitude : Magnitude) : ℚ :=
  magnitude.significand * 2 ^ magnitude.exponent

/-- The number with a sign and a magnitude. -/
def Exact.rational (negative : Bool) (magnitude : Magnitude) : ℚ :=
  if negative then -magnitude.rational else magnitude.rational

/-- The float is finite and stands for exactly this number. -/
def Denotes (value : Float) (number : ℚ) : Prop :=
  Exists fun negative : Bool => Exists fun magnitude : Magnitude =>
    Exact.ofFloat value = .finite negative magnitude ∧ Exact.rational negative magnitude = number

/-- The number is that of a float. -/
def Representable (number : ℚ) : Prop :=
  Exists fun value : Float => Denotes value number

/-! ## Magnitudes -/

theorem two_zpow_pos (exponent : ℤ) : (0 : ℚ) < 2 ^ exponent :=
  zpow_pos (by norm_num) exponent

theorem two_zpow_add (first second : ℤ) : (2 : ℚ) ^ (first + second) = 2 ^ first * 2 ^ second :=
  zpow_add₀ (by norm_num) first second

/-- A power of two with an exponent that is not negative. -/
theorem two_zpow_toNat {exponent : ℤ} (nonneg : 0 ≤ exponent) :
    (2 : ℚ) ^ exponent = ((2 ^ exponent.toNat : ℕ) : ℚ) := by
  rw [Nat.cast_pow, Nat.cast_ofNat, ← zpow_natCast, Int.toNat_of_nonneg nonneg]

/-- A number written with a smaller exponent. -/
theorem two_zpow_lower {lower exponent : ℤ} (below : lower ≤ exponent) (significand : ℚ) :
    significand * 2 ^ exponent =
      significand * ((2 ^ (exponent - lower).toNat : ℕ) : ℚ) * 2 ^ lower := by
  rw [mul_assoc, ← two_zpow_toNat (by omega), ← two_zpow_add]
  congr 2
  omega

namespace Magnitude

variable (magnitude : Magnitude)

theorem rational_nonneg : 0 ≤ magnitude.rational :=
  mul_nonneg (Nat.cast_nonneg _) (two_zpow_pos _).le

theorem rational_eq_zero_iff : magnitude.rational = 0 ↔ magnitude.significand = 0 := by
  rw [rational, mul_eq_zero_iff_right (two_zpow_pos _).ne', Nat.cast_eq_zero]

theorem rational_zero (exponent : ℤ) : (⟨0, exponent⟩ : Magnitude).rational = 0 :=
  (rational_eq_zero_iff _).mpr rfl

theorem rational_eq_div : magnitude.rational = magnitude.numerator / magnitude.denominator := by
  rw [rational, numerator, denominator, eq_div_iff (by positivity)]
  push_cast
  rw [mul_assoc, ← zpow_natCast, ← zpow_natCast, ← two_zpow_add]
  congr 2
  omega

theorem rational_eq_significandAt {lower : ℤ} (below : lower ≤ magnitude.exponent) :
    magnitude.rational = magnitude.significandAt lower * 2 ^ lower := by
  rw [rational, significandAt, two_zpow_lower below, Nat.cast_mul]

/-- The magnitude is the whole number `count` exactly if the division says so. -/
theorem rational_eq_natCast_iff (count : ℕ) :
    magnitude.rational = count ↔ magnitude.numerator = count * magnitude.denominator := by
  have positive : (magnitude.denominator : ℚ) ≠ 0 :=
    Nat.cast_ne_zero.mpr (Nat.ne_of_gt magnitude.denominator_pos)
  rw [rational_eq_div, div_eq_iff positive]
  exact_mod_cast Iff.rfl

end Magnitude

namespace Exact

theorem rational_true (magnitude : Magnitude) : rational true magnitude = -magnitude.rational :=
  rfl

theorem rational_false (magnitude : Magnitude) : rational false magnitude = magnitude.rational :=
  rfl

/-- Neither zero is above or below zero. -/
theorem rational_zero (negative : Bool) {exponent : ℤ} : rational negative ⟨0, exponent⟩ = 0 := by
  cases negative with
  | true => rw [rational_true, Magnitude.rational_zero, neg_zero]
  | false => exact Magnitude.rational_zero exponent

/-- The number with its sign inside the significand. -/
theorem rational_eq_signOf (negative : Bool) (magnitude : Magnitude) :
    rational negative magnitude =
      ((signOf negative).apply magnitude.significand : ℤ) * 2 ^ magnitude.exponent := by
  cases negative with
  | true =>
      rw [rational_true, Magnitude.rational, ← neg_mul]
      simp [signOf, UnpackedFloat.Sign.apply]
  | false => simp [rational_false, Magnitude.rational, signOf, UnpackedFloat.Sign.apply]

theorem abs_rational (negative : Bool) (magnitude : Magnitude) :
    |rational negative magnitude| = magnitude.rational := by
  cases negative with
  | true => exact (abs_neg _).trans (abs_of_nonneg magnitude.rational_nonneg)
  | false => exact abs_of_nonneg magnitude.rational_nonneg

end Exact

namespace Binary64

/-- Two ways of writing one number, where the first has the smaller exponent. -/
theorem eq_mul_of_rational_eq {first second : ℕ} {lower exponent : ℤ} (below : lower ≤ exponent)
    (same : (first : ℚ) * 2 ^ lower = second * 2 ^ exponent) :
    first = second * 2 ^ (exponent - lower).toNat := by
  rw [two_zpow_lower below, mul_left_inj' (two_zpow_pos lower).ne'] at same
  exact_mod_cast same

/-- A number that fits is rounded to itself, however it is written. -/
theorem round_of_rational_eq (sign : UnpackedFloat.Sign) {significand written : ℕ}
    {exponent place : ℤ} (fits : Fits significand exponent)
    (same : (written : ℚ) * 2 ^ place = significand * 2 ^ exponent) :
    UnpackedFloat.round .binary64 sign written place = ofParts sign significand exponent := by
  have whole := roundWithAccuracy_exact sign fits
  unfold UnpackedFloat.round UnpackedFloat.decreaseExponent
  rcases le_total place exponent with below | above
  · have shifted := eq_mul_of_rational_eq below same
    have start : place = exponent - ((exponent - place).toNat : ℤ) := by omega
    have aims := target_of_fits fits (exponent - place).toNat
    rw [← shifted, ← start] at aims
    have noShift : (place - exponent).toNat = 0 := by omega
    simp only [aims, noShift, Nat.shiftLeft_zero, Nat.cast_zero, sub_zero]
    have rounded := whole (exponent - place).toNat
    rwa [← shifted, ← start] at rounded
  · have shifted := eq_mul_of_rational_eq above same.symm
    have aims := target_of_fits fits 0
    have length : totalExponent significand exponent = totalExponent written place := by
      have nonzero : written ≠ 0 := by
        rintro rfl
        exact absurd shifted (by have := fits.positive; omega)
      have more := log2_mul_two_pow nonzero (place - exponent).toNat
      rw [← shifted] at more
      unfold totalExponent
      omega
    rw [pow_zero, mul_one, Nat.cast_zero, sub_zero, length] at aims
    have start : place - ((place - exponent).toNat : ℤ) = exponent := by omega
    simp only [aims, Nat.shiftLeft_eq, ← shifted, start]
    have rounded := whole 0
    rwa [pow_zero, mul_one, Nat.cast_zero, sub_zero] at rounded

theorem roundWithAccuracy_zero (sign : UnpackedFloat.Sign) (exponent : ℤ) :
    UnpackedFloat.roundWithAccuracy .binary64 sign 0 exponent .exact = .zero sign := by
  have zeros (shift : ℕ) : (⟨0, false, false⟩ : UnpackedFloat.ExtendedMantissa) >>> shift =
      ⟨0, false, false⟩ := by
    have shifted := shiftRight_exact 0 shift
    rwa [zero_mul] at shifted
  unfold UnpackedFloat.roundWithAccuracy UnpackedFloat.shiftToTargetExponent
    UnpackedFloat.shiftToExponent
  simp only [UnpackedFloat.ExtendedMantissa.ofMantissaAndAccuracy, zeros,
    UnpackedFloat.ExtendedMantissa.roundedMantissa, UnpackedFloat.ExtendedMantissa.accuracy,
    UnpackedFloat.Accuracy.roundToNearestEven, dif_pos]

theorem round_zero (sign : UnpackedFloat.Sign) (exponent : ℤ) :
    UnpackedFloat.round .binary64 sign 0 exponent = .zero sign := by
  unfold UnpackedFloat.round UnpackedFloat.decreaseExponent
  simp only [Nat.zero_shiftLeft]
  exact roundWithAccuracy_zero sign _

end Binary64

/-! ## Finite floats -/

section Shapes

variable {value other : Float} {number second : ℚ}

theorem Denotes.unique (denotes : Denotes value number) (again : Denotes value second) :
    number = second := by
  rcases denotes with ⟨negative, magnitude, read, rfl⟩
  rcases again with ⟨_, _, readAgain, rfl⟩
  rw [read] at readAgain
  cases readAgain
  rfl

theorem Denotes.isFinite (denotes : Denotes value number) : value.isFinite = true := by
  rcases denotes with ⟨negative, magnitude, read, _⟩
  exact Exact.isFinite_iff.mpr ⟨negative, magnitude, read⟩

/-- A magnitude that is in the format, with either sign. -/
theorem denotes_of_canonical {magnitude : Magnitude} (canonical : magnitude.IsCanonical)
    (negative : Bool) :
    Denotes (Exact.finite negative magnitude).toFloat (Exact.rational negative magnitude) :=
  ⟨negative, magnitude, Exact.ofFloat_toFloat canonical negative, rfl⟩

theorem Representable.exists_canonical (representable : Representable number) :
    Exists fun magnitude : Magnitude =>
      magnitude.IsCanonical ∧ magnitude.rational = |number| := by
  rcases representable with ⟨value, negative, magnitude, read, rfl⟩
  exact ⟨magnitude, (Exact.unpack_of_ofFloat read).2, (Exact.abs_rational negative magnitude).symm⟩

/-- Rounding loses nothing where the number is that of a float, however it is
written. -/
theorem denotes_toFloat {negative : Bool} {magnitude : Magnitude}
    (representable : Representable (Exact.rational negative magnitude)) :
    Denotes (Exact.finite negative magnitude).toFloat (Exact.rational negative magnitude) := by
  rcases representable.exists_canonical with ⟨written, canonical, same⟩
  rw [Exact.abs_rational] at same
  have equal : (Exact.finite negative magnitude).toFloat =
      (Exact.finite negative written).toFloat := by
    rcases canonical with rfl | fits
    · have zero : magnitude.significand = 0 :=
        magnitude.rational_eq_zero_iff.mp (same.symm.trans (Exact.rational_zero false))
      rw [Exact.toFloat, Exact.toFloat, zero, Binary64.round_zero, Binary64.round_zero]
    · rw [Exact.toFloat, Exact.toFloat, Binary64.round_exact _ fits,
        Binary64.round_of_rational_eq _ fits same.symm]
  rw [equal, Exact.rational, ← same]
  exact denotes_of_canonical canonical negative

/-- The unpacked float is in the format and stands for the number. -/
inductive StandsFor : UnpackedFloat -> ℚ -> Prop
  | zero (sign : UnpackedFloat.Sign) : StandsFor (.zero sign) 0
  | finite (sign : UnpackedFloat.Sign) {significand : ℕ} {exponent : ℤ}
      (positive : 0 < significand) (fits : Fits significand exponent) :
      StandsFor (.finite sign significand exponent positive)
        ((sign.apply significand : ℤ) * 2 ^ exponent)

theorem Denotes.standsFor (denotes : Denotes value number) :
    StandsFor value.toModel.unpack number := by
  rcases denotes with ⟨negative, magnitude, read, rfl⟩
  rcases Exact.unpack_of_ofFloat read with ⟨shape, rfl | fits⟩
  · rw [shape, Exact.rational_zero]
    exact .zero (Exact.signOf negative)
  · rw [shape, Exact.rational_eq_signOf, Exact.unpacked, ofParts, dif_pos fits.positive]
    exact .finite _ fits.positive fits

theorem denotes_pack_zero (sign : UnpackedFloat.Sign) :
    Denotes (.ofModel (.pack (.zero sign))) 0 := by
  have denotes := denotes_of_canonical (.inl rfl : Magnitude.IsCanonical ⟨0, 0⟩)
    (Exact.isNegative sign)
  rw [Exact.toFloat_eq_pack (.inl rfl), Exact.unpacked, Exact.signOf_isNegative,
    Exact.rational_zero] at denotes
  exact denotes

theorem denotes_pack_finite (sign : UnpackedFloat.Sign) {significand : ℕ} {exponent : ℤ}
    (fits : Fits significand exponent) :
    Denotes (.ofModel (.pack (ofParts sign significand exponent)))
      ((sign.apply significand : ℤ) * 2 ^ exponent) := by
  have denotes := denotes_of_canonical (.inr fits : Magnitude.IsCanonical ⟨significand, exponent⟩)
    (Exact.isNegative sign)
  rw [Exact.toFloat_eq_pack (.inr fits), Exact.unpacked, Exact.rational_eq_signOf,
    Exact.signOf_isNegative] at denotes
  exact denotes

/-! ## Operations -/

theorem sign_apply_neg (sign : UnpackedFloat.Sign) (number : ℤ) :
    (-sign).apply number = -sign.apply number := by
  cases sign with
  | negative => exact (Int.neg_neg number).symm
  | positive => rfl

theorem sign_apply_mul (sign signOther : UnpackedFloat.Sign) (number second : ℤ) :
    (sign * signOther).apply (number * second) = sign.apply number * signOther.apply second := by
  cases sign with
  | negative =>
      cases signOther with
      | negative => exact (Int.neg_mul_neg number second).symm
      | positive => exact (Int.neg_mul number second).symm
  | positive =>
      cases signOther with
      | negative => exact (Int.mul_neg number second).symm
      | positive => rfl

/-- A sign may be put in front of an equation. -/
theorem sign_apply_congr (sign : UnpackedFloat.Sign) {significand significandOther : ℕ}
    {exponent exponentOther : ℤ}
    (same : (significand : ℚ) * 2 ^ exponent = significandOther * 2 ^ exponentOther) :
    ((sign.apply significand : ℤ) : ℚ) * 2 ^ exponent =
      (sign.apply significandOther : ℤ) * 2 ^ exponentOther := by
  cases sign with
  | negative =>
      simp only [UnpackedFloat.Sign.apply, Int.cast_neg, Int.cast_natCast, neg_mul, same]
  | positive => simpa only [UnpackedFloat.Sign.apply, Int.cast_natCast] using same

theorem abs_sign_apply (sign : UnpackedFloat.Sign) (significand : ℕ) (exponent : ℤ) :
    |((sign.apply significand : ℤ) : ℚ) * 2 ^ exponent| = significand * 2 ^ exponent := by
  rw [abs_mul, abs_of_pos (two_zpow_pos exponent)]
  cases sign <;> simp [UnpackedFloat.Sign.apply]

theorem StandsFor.unpack_pack_neg {shape : UnpackedFloat} (standsFor : StandsFor shape number) :
    UnpackedFloat.unpack .binary64 (UnpackedFloat.pack .binary64 shape.neg) = shape.neg := by
  cases standsFor with
  | zero sign => cases sign <;> rfl
  | finite sign positive fits =>
      have packed := Binary64.unpack_pack (-sign) fits
      rwa [ofParts, dif_pos positive] at packed

theorem Denotes.neg (denotes : Denotes value number) : Denotes (-value) (-number) := by
  change Denotes (.ofModel (.pack value.toModel.unpack.neg)) _
  have standsFor := denotes.standsFor
  generalize value.toModel.unpack = shape at standsFor
  cases standsFor with
  | zero sign =>
      rw [neg_zero]
      exact denotes_pack_zero (-sign)
  | finite sign positive fits =>
      have packed := denotes_pack_finite (-sign) fits
      rw [sign_apply_neg, Int.cast_neg, neg_mul, ofParts, dif_pos positive] at packed
      exact packed

/-- Normalizing a signed significand is rounding the number that it is. -/
theorem exists_normalized (mantissa exponent : ℤ) :
    Exists fun negative : Bool => Exists fun magnitude : Magnitude =>
      .ofModel (.pack (UnpackedFloat.normalize .binary64 mantissa exponent .positive)) =
          (Exact.finite negative magnitude).toFloat ∧
        Exact.rational negative magnitude = mantissa * 2 ^ exponent := by
  unfold UnpackedFloat.normalize
  rcases lt_trichotomy mantissa 0 with negative | rfl | positive
  · rw [compare_lt_iff_lt.mpr negative]
    refine ⟨true, ⟨(-mantissa).toNat, exponent⟩, rfl, ?_⟩
    have size : (((-mantissa).toNat : ℤ) : ℚ) = -mantissa := by
      rw [Int.toNat_of_nonneg (by omega)]
      push_cast
      rfl
    rw [Exact.rational_true, Magnitude.rational]
    dsimp only
    rw [← Int.cast_natCast, size]
    ring
  · rw [compare_eq_iff_eq.mpr rfl, Int.cast_zero, zero_mul]
    exact ⟨false, ⟨0, 0⟩, rfl, Exact.rational_zero false⟩
  · rw [compare_gt_iff_gt.mpr positive]
    refine ⟨false, ⟨mantissa.toNat, exponent⟩, rfl, ?_⟩
    rw [Exact.rational_false, Magnitude.rational]
    dsimp only
    rw [← Int.cast_natCast, Int.toNat_of_nonneg (by omega)]

/-- A signed significand written with a smaller exponent. -/
theorem sign_apply_lower (sign : UnpackedFloat.Sign) (significand : ℕ) {lower exponent : ℤ}
    (below : lower ≤ exponent) :
    ((sign.apply (significand <<< (exponent - lower).toNat : ℕ) : ℤ) : ℚ) * 2 ^ lower =
      (sign.apply significand : ℤ) * 2 ^ exponent := by
  rw [two_zpow_lower below, Nat.shiftLeft_eq]
  cases sign <;> simp [UnpackedFloat.Sign.apply]

/-- A sum is the exact sum, rounded. -/
theorem Denotes.exists_sum (denotes : Denotes value number) (denotesOther : Denotes other second) :
    Exists fun negative : Bool => Exists fun magnitude : Magnitude =>
      value + other = (Exact.finite negative magnitude).toFloat ∧
        Exact.rational negative magnitude = number + second := by
  have zeroes (sign : UnpackedFloat.Sign) :
      Exists fun negative : Bool => Exists fun magnitude : Magnitude =>
        .ofModel (.pack (.zero sign)) = (Exact.finite negative magnitude).toFloat ∧
          Exact.rational negative magnitude = 0 := by
    cases sign with
    | negative => exact ⟨true, ⟨0, 0⟩, rfl, Exact.rational_zero true⟩
    | positive => exact ⟨false, ⟨0, 0⟩, rfl, Exact.rational_zero false⟩
  change Exists fun negative : Bool => Exists fun magnitude : Magnitude =>
    .ofModel (.pack (UnpackedFloat.add .binary64 value.toModel.unpack other.toModel.unpack)) =
      (Exact.finite negative magnitude).toFloat ∧ _
  have standsFor := denotes.standsFor
  have standsForOther := denotesOther.standsFor
  have back := Exact.pack_unpack_model value
  have backOther := Exact.pack_unpack_model other
  rcases denotes with ⟨negative, magnitude, read, same⟩
  rcases denotesOther with ⟨negativeOther, magnitudeOther, readOther, sameOther⟩
  generalize value.toModel.unpack = shape at standsFor back
  generalize other.toModel.unpack = shapeOther at standsForOther backOther
  cases standsFor with
  | zero sign =>
      cases standsForOther with
      | zero signOther =>
          rw [add_zero]
          cases sign <;> cases signOther <;> exact zeroes _
      | finite signOther positiveOther fitsOther =>
          rw [zero_add]
          exact ⟨negativeOther, magnitudeOther,
            backOther.trans (Exact.toFloat_of_ofFloat readOther).symm, sameOther⟩
  | @finite sign significand exponent positive fits =>
      cases standsForOther with
      | zero signOther =>
          rw [add_zero]
          exact ⟨negative, magnitude, back.trans (Exact.toFloat_of_ofFloat read).symm, same⟩
      | @finite signOther significandOther exponentOther positiveOther fitsOther =>
          rw [← sign_apply_lower sign _ (min_le_left _ exponentOther),
            ← sign_apply_lower signOther _ (min_le_right exponent _), ← add_mul,
            ← Int.cast_add]
          exact exists_normalized _ _

/-- A sum is exact where it can be. -/
theorem Denotes.add (denotes : Denotes value number) (denotesOther : Denotes other second)
    (representable : Representable (number + second)) :
    Denotes (value + other) (number + second) := by
  rcases denotes.exists_sum denotesOther with ⟨negative, magnitude, rounded, same⟩
  rw [← same] at representable ⊢
  rw [rounded]
  exact denotes_toFloat representable

theorem sub_eq_add_neg_shape (shape shapeOther : UnpackedFloat) :
    UnpackedFloat.sub .binary64 shape shapeOther =
      UnpackedFloat.add .binary64 shape shapeOther.neg := by
  cases shape <;> cases shapeOther <;>
    first
      | rfl
      | simp only [UnpackedFloat.sub, UnpackedFloat.add, UnpackedFloat.neg, sign_apply_neg,
          Int.sub_eq_add_neg]

/-- A difference is exact where it can be. -/
theorem Denotes.sub (denotes : Denotes value number) (denotesOther : Denotes other second)
    (representable : Representable (number - second)) :
    Denotes (value - other) (number - second) := by
  have unpackNeg : (-other).toModel.unpack = other.toModel.unpack.neg :=
    denotesOther.standsFor.unpack_pack_neg
  have same : value - other = value + -other := by
    change Float.ofModel (.pack (UnpackedFloat.sub .binary64 value.toModel.unpack
      other.toModel.unpack)) = .ofModel (.pack (UnpackedFloat.add .binary64 value.toModel.unpack
      (-other).toModel.unpack))
    rw [unpackNeg, sub_eq_add_neg_shape]
  rw [sub_eq_add_neg] at representable ⊢
  rw [same]
  exact denotes.add denotesOther.neg representable

/-- A product of two significands is at least as long as a significand, unless
its exponent is below all others. -/
theorem mul_exponent_le {significand significandOther product : ℕ}
    {exponent exponentOther power : ℤ} (fits : Fits significand exponent)
    (fitsOther : Fits significandOther exponentOther) (fitsProduct : Fits product power)
    (same : (product : ℚ) * 2 ^ power =
      ((significand * significandOther : ℕ) : ℚ) * 2 ^ (exponent + exponentOther)) :
    exponent + exponentOther ≤ power := by
  by_contra above
  have shifted := Binary64.eq_mul_of_rational_eq (by omega) same
  have long : 2 ^ 1 ≤ 2 ^ (exponent + exponentOther - power).toNat :=
    Nat.pow_le_pow_right (by decide) (by omega)
  have positive := fits.positive
  have positiveOther := fitsOther.positive
  have bounded := fitsProduct.bounded
  have least := fitsProduct.least
  have full : 2 ^ 52 ≤ significand * significandOther := by
    rcases fits.full with full | small
    · exact Nat.le_trans full (Nat.le_mul_of_pos_right _ positiveOther)
    · rcases fitsOther.full with full | smallOther
      · exact Nat.le_trans full (Nat.le_mul_of_pos_left _ positive)
      · omega
  have tooLong := Nat.mul_le_mul full long
  omega

/-- A product is exact where it can be. -/
theorem Denotes.mul (denotes : Denotes value number) (denotesOther : Denotes other second)
    (representable : Representable (number * second)) :
    Denotes (value * other) (number * second) := by
  change Denotes (.ofModel (.pack (UnpackedFloat.mul .binary64 value.toModel.unpack
    other.toModel.unpack))) _
  have standsFor := denotes.standsFor
  have standsForOther := denotesOther.standsFor
  generalize value.toModel.unpack = shape at standsFor
  generalize other.toModel.unpack = shapeOther at standsForOther
  cases standsFor with
  | zero sign =>
      rw [zero_mul]
      cases standsForOther <;> exact denotes_pack_zero _
  | @finite sign significand exponent positive fits =>
      cases standsForOther with
      | zero signOther =>
          rw [mul_zero]
          exact denotes_pack_zero _
      | @finite signOther significandOther exponentOther positiveOther fitsOther =>
          have product : ((sign.apply significand : ℤ) : ℚ) * 2 ^ exponent *
              ((signOther.apply significandOther : ℤ) * 2 ^ exponentOther) =
                (((sign * signOther).apply ((significand * significandOther : ℕ) : ℤ) : ℤ) : ℚ) *
                  2 ^ (exponent + exponentOther) := by
            rw [Nat.cast_mul, sign_apply_mul, two_zpow_add, Int.cast_mul]
            ring
          rw [product] at representable ⊢
          have nonzero : 0 < significand * significandOther := Nat.mul_pos positive positiveOther
          rcases representable.exists_canonical with ⟨written, canonical, same⟩
          rw [abs_sign_apply] at same
          rcases canonical with rfl | fitsProduct
          · rw [Magnitude.rational_zero, eq_comm,
              mul_eq_zero_iff_right (two_zpow_pos _).ne', Nat.cast_eq_zero] at same
            omega
          · have below := mul_exponent_le fits fitsOther fitsProduct same
            have shifted := Binary64.eq_mul_of_rational_eq below same.symm
            have rounded := Binary64.roundWithAccuracy_exact (sign * signOther) fitsProduct
              (written.exponent - (exponent + exponentOther)).toNat
            rw [← shifted, Int.toNat_of_nonneg (by omega), sub_sub_cancel] at rounded
            rw [← sign_apply_congr (sign * signOther) same, UnpackedFloat.mul, rounded]
            exact denotes_pack_finite _ fitsProduct

/-! ## Comparisons, also of infinite floats -/

/-- Significands and exponents in the format are determined by their number. -/
theorem fits_unique {significand significandOther : ℕ} {exponent exponentOther : ℤ}
    (fits : Fits significand exponent) (fitsOther : Fits significandOther exponentOther)
    (same : (significand : ℚ) * 2 ^ exponent = significandOther * 2 ^ exponentOther) :
    significand = significandOther ∧ exponent = exponentOther := by
  have rounded := Binary64.round_of_rational_eq .positive fitsOther same
  rw [Binary64.round_exact .positive fits, ofParts, dif_pos fits.positive, ofParts,
    dif_pos fitsOther.positive] at rounded
  cases rounded
  exact ⟨rfl, rfl⟩

theorem Magnitude.IsCanonical.unique {magnitude other : Magnitude}
    (canonical : magnitude.IsCanonical) (canonicalOther : other.IsCanonical)
    (same : magnitude.rational = other.rational) : magnitude = other := by
  rcases canonical with rfl | fits
  · rcases canonicalOther with rfl | fitsOther
    · rfl
    · rw [Magnitude.rational_zero, eq_comm, Magnitude.rational_eq_zero_iff] at same
      exact absurd same fitsOther.positive.ne'
  · rcases canonicalOther with rfl | fitsOther
    · rw [Magnitude.rational_zero, Magnitude.rational_eq_zero_iff] at same
      exact absurd same fits.positive.ne'
    · rcases fits_unique fits fitsOther same with ⟨significands, exponents⟩
      cases magnitude
      cases other
      cases significands
      cases exponents
      rfl

/-- A larger exponent makes a larger number, since the significand behind it has its
full length. -/
theorem lt_of_exponent_lt {significand significandOther : ℕ} {exponent exponentOther : ℤ}
    (fits : Fits significand exponent) (fitsOther : Fits significandOther exponentOther)
    (lower : exponent < exponentOther) :
    (significand : ℚ) * 2 ^ exponent < significandOther * 2 ^ exponentOther := by
  have bounded : (significand : ℚ) < 2 ^ 53 := by exact_mod_cast fits.bounded
  have least := fits.least
  have full : (2 : ℚ) ^ 52 ≤ significandOther := by
    rcases fitsOther.full with full | small
    · exact_mod_cast full
    · omega
  calc (significand : ℚ) * 2 ^ exponent < 2 ^ 53 * 2 ^ exponent :=
        mul_lt_mul_of_pos_right bounded (two_zpow_pos exponent)
    _ = 2 ^ 52 * 2 ^ (exponent + 1) := by rw [two_zpow_add]; norm_num; ring
    _ ≤ 2 ^ 52 * 2 ^ exponentOther :=
        mul_le_mul_of_nonneg_left (zpow_le_zpow_right₀ (by norm_num) (by omega)) (by norm_num)
    _ ≤ significandOther * 2 ^ exponentOther :=
        mul_le_mul_of_nonneg_right full (two_zpow_pos exponentOther).le

/-- Comparing numbers of one sign is comparing their exponents and then their
significands. -/
theorem compare_then {significand significandOther : ℕ} {exponent exponentOther : ℤ}
    (fits : Fits significand exponent) (fitsOther : Fits significandOther exponentOther) :
    (compare exponent exponentOther).then (compare significand significandOther) =
      compare ((significand : ℚ) * 2 ^ exponent) (significandOther * 2 ^ exponentOther) := by
  rcases lt_trichotomy exponent exponentOther with lower | rfl | higher
  · rw [compare_lt_iff_lt.mpr lower,
      compare_lt_iff_lt.mpr (lt_of_exponent_lt fits fitsOther lower)]
    rfl
  · have positive := two_zpow_pos exponent
    rw [compare_eq_iff_eq.mpr rfl, Ordering.then]
    rcases lt_trichotomy significand significandOther with less | rfl | more
    · rw [compare_lt_iff_lt.mpr less, compare_lt_iff_lt.mpr]
      exact mul_lt_mul_of_pos_right (Nat.cast_lt.mpr less) positive
    · rw [compare_eq_iff_eq.mpr rfl, compare_eq_iff_eq.mpr rfl]
    · rw [compare_gt_iff_gt.mpr more, compare_gt_iff_gt.mpr]
      exact mul_lt_mul_of_pos_right (Nat.cast_lt.mpr more) positive
  · rw [compare_gt_iff_gt.mpr higher,
      compare_gt_iff_gt.mpr (lt_of_exponent_lt fitsOther fits higher)]
    rfl

theorem swap_compare (first second : ℚ) :
    (compare first second).swap = compare (-first) (-second) := by
  rcases lt_trichotomy first second with less | rfl | more
  · rw [compare_lt_iff_lt.mpr less, compare_gt_iff_gt.mpr (neg_lt_neg less)]
    rfl
  · rw [compare_eq_iff_eq.mpr rfl, compare_eq_iff_eq.mpr rfl]
    rfl
  · rw [compare_gt_iff_gt.mpr more, compare_lt_iff_lt.mpr (neg_lt_neg more)]
    rfl

/-- Comparing finite floats is comparing their numbers. -/
theorem Denotes.compare_eq (denotes : Denotes value number) (denotesOther : Denotes other second) :
    value.toModel.unpack.compare other.toModel.unpack = some (compare number second) := by
  have standsFor := denotes.standsFor
  have standsForOther := denotesOther.standsFor
  generalize value.toModel.unpack = shape at standsFor
  generalize other.toModel.unpack = shapeOther at standsForOther
  have size {significand : ℕ} (exponent : ℤ) (positive : 0 < significand) :
      (0 : ℚ) < significand * 2 ^ exponent :=
    mul_pos (Nat.cast_pos.mpr positive) (two_zpow_pos exponent)
  cases standsFor with
  | zero sign =>
      cases standsForOther with
      | zero signOther => exact congrArg some (compare_eq_iff_eq.mpr rfl).symm
      | @finite signOther significandOther exponentOther positiveOther fitsOther =>
          have above := size exponentOther positiveOther
          cases signOther <;>
            simp only [UnpackedFloat.compare, UnpackedFloat.Sign.apply, Int.cast_neg,
              Int.cast_natCast, neg_mul]
          · exact congrArg some (compare_gt_iff_gt.mpr (neg_lt_zero.mpr above)).symm
          · exact congrArg some (compare_lt_iff_lt.mpr above).symm
  | @finite sign significand exponent positive fits =>
      have above := size exponent positive
      cases standsForOther with
      | zero signOther =>
          cases sign <;>
            simp only [UnpackedFloat.compare, UnpackedFloat.Sign.apply, Int.cast_neg,
              Int.cast_natCast, neg_mul]
          · exact congrArg some (compare_lt_iff_lt.mpr (neg_lt_zero.mpr above)).symm
          · exact congrArg some (compare_gt_iff_gt.mpr above).symm
      | @finite signOther significandOther exponentOther positiveOther fitsOther =>
          have aboveOther := size exponentOther positiveOther
          have sameSign := compare_then fits fitsOther
          cases sign <;> cases signOther <;>
            simp only [UnpackedFloat.compare, UnpackedFloat.Sign.apply, Int.cast_neg,
              Int.cast_natCast, neg_mul]
          · rw [sameSign, swap_compare]
          · exact congrArg some (compare_lt_iff_lt.mpr (by linarith)).symm
          · exact congrArg some (compare_gt_iff_gt.mpr (by linarith)).symm
          · rw [sameSign]

/-- Two finite floats are equal as floats exactly if they stand for the same
number. -/
theorem Denotes.beq_iff (denotes : Denotes value number) (denotesOther : Denotes other second) :
    (value == other) = true ↔ number = second := by
  change (value.toModel.unpack.compare other.toModel.unpack == some .eq) = true ↔ _
  rw [denotes.compare_eq denotesOther, beq_iff_eq, Option.some.injEq, compare_eq_iff_eq]

theorem Denotes.lt_iff (denotes : Denotes value number) (denotesOther : Denotes other second) :
    value < other ↔ number < second := by
  change decide ((value.toModel.unpack.compare other.toModel.unpack == some .lt) = true) = true ↔ _
  rw [denotes.compare_eq denotesOther, decide_eq_true_iff, beq_iff_eq, Option.some.injEq,
    compare_lt_iff_lt]

theorem Denotes.le_iff (denotes : Denotes value number) (denotesOther : Denotes other second) :
    value ≤ other ↔ number ≤ second := by
  change decide ((value.toModel.unpack.compare other.toModel.unpack).any (·.isLE) = true) = true ↔ _
  rw [denotes.compare_eq denotesOther, decide_eq_true_iff, Option.any_some,
    Ordering.isLE_iff_ne_gt, ← compare_le_iff_le]

theorem denotes_zero : Denotes 0 0 :=
  ⟨false, ⟨0, 0⟩, rfl, Exact.rational_zero false⟩

/-- A finite float is below zero exactly if its number is. -/
theorem Denotes.lt_zero_iff (denotes : Denotes value number) : value < 0 ↔ number < 0 :=
  denotes.lt_iff denotes_zero

/-- A float is a number or infinite, unless it is undefined. -/
theorem denotes_or_infinite (defined : value.isNaN = false) :
    (Exists fun number : ℚ => Denotes value number) ∨
      Exists fun negative : Bool => Exact.ofFloat value = .infinite negative := by
  cases read : Exact.ofFloat value with
  | undefined => exact absurd read (Exact.ofFloat_ne_undefined defined)
  | infinite negative => exact .inr ⟨negative, rfl⟩
  | finite negative magnitude => exact .inl ⟨_, negative, magnitude, read, rfl⟩

theorem Exact.unpack_of_infinite {negative : Bool}
    (read : Exact.ofFloat value = .infinite negative) :
    value.toModel.unpack = .infinity (Exact.signOf negative) := by
  unfold Exact.ofFloat at read
  cases shape : value.toModel.unpack with
  | infinity sign =>
      rw [shape] at read
      cases read
      rw [Exact.signOf_isNegative]
  | _ => simp [shape] at read

theorem Exact.ofFloat_pack_infinity (sign : UnpackedFloat.Sign) :
    Exact.ofFloat (.ofModel (.pack (.infinity sign))) = .infinite (Exact.isNegative sign) := by
  cases sign <;> rfl

theorem isNaN_of_infinite {negative : Bool} (read : Exact.ofFloat value = .infinite negative) :
    value.isNaN = false := by
  change value.toModel.unpack.isNaN = false
  rw [Exact.unpack_of_infinite read]
  rfl

/-- An infinite float equals no finite one. -/
theorem not_beq_of_infinite {negative : Bool} (read : Exact.ofFloat value = .infinite negative)
    (denotes : Denotes other number) : (value == other) = false := by
  change (value.toModel.unpack.compare other.toModel.unpack == some .eq) = false
  rw [Exact.unpack_of_infinite read]
  have standsFor := denotes.standsFor
  generalize other.toModel.unpack = shape at standsFor
  cases standsFor <;> cases negative <;> rfl

/-- Only a finite float can be zero. -/
theorem not_beq_zero_of_infinite {negative : Bool}
    (read : Exact.ofFloat value = .infinite negative) : (value == 0) = false :=
  not_beq_of_infinite read denotes_zero

/-- An infinite float is below zero if it is negative. -/
theorem lt_zero_of_infinite {negative : Bool} (read : Exact.ofFloat value = .infinite negative) :
    decide (value < 0) = negative := by
  have below := DeskCalculator.lt_zero_iff value
  rw [Exact.unpack_of_infinite read] at below
  cases negative with
  | true => exact decide_eq_true (below.mpr rfl)
  | false => exact decide_eq_false (mt below.mp nofun)

/-- No magnitude is larger than an infinite one. -/
theorem abs_le_of_infinite {negative : Bool} (defined : value.isNaN = false)
    (read : Exact.ofFloat other = .infinite negative) : value.abs ≤ other.abs := by
  change decide ((value.abs.toModel.unpack.compare other.abs.toModel.unpack).any (·.isLE) = true) =
    true
  have infinite : other.abs.toModel.unpack = .infinity .positive := by
    change UnpackedFloat.unpack .binary64 (UnpackedFloat.pack .binary64
      other.toModel.unpack.abs) = _
    rw [Exact.unpack_of_infinite read]
    cases negative <;> rfl
  have number : value.abs.toModel.unpack.isNaN = false := isNaN_abs defined
  rw [infinite]
  generalize value.abs.toModel.unpack = size at number
  cases size with
  | notANumber => cases number
  | infinity sign => cases sign <;> rfl
  | zero sign => rfl
  | finite sign significand exponent positive => cases sign <;> rfl

end Shapes

end DeskCalculator

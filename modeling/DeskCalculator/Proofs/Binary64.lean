import Mathlib
import DeskCalculator.Number.Exact

namespace DeskCalculator
namespace Binary64

open Float.Model (Format UnpackedFloat totalExponent)
open Float.Model.UnpackedFloat (packComponents unpackSign unpackExponent unpackMantissa)

/-!
# The float format bit by bit

A finite float that is not zero is a sign, a significand and an exponent within
fixed bounds, and no two of them are the same number.  Packing such a triple
into bits and unpacking it again gives it back, and so does the other way
round.  An exact quotient that is such a number is not changed by rounding.
-/

/-- The unpacked number with the given parts; zero keeps the sign. -/
def ofParts (sign : UnpackedFloat.Sign) (significand : Nat) (exponent : Int) : UnpackedFloat :=
  if positive : 0 < significand then .finite sign significand exponent positive else .zero sign

/-- The significands and exponents of finite floats other than zero.  A
significand is as long as it can be, unless the exponent is the least. -/
structure Fits (significand : Nat) (exponent : Int) : Prop where
  positive : 0 < significand
  bounded : significand < 2 ^ 53
  least : -1074 ≤ exponent
  most : exponent ≤ 971
  full : 2 ^ 52 ≤ significand ∨ exponent = -1074

/-! ## The three fields -/

theorem toNat_implicit (mantissa : BitVec 52) :
    (1#1 ++ mantissa).toNat = 2 ^ 52 + mantissa.toNat := by
  rw [BitVec.toNat_append, ← Nat.shiftLeft_add_eq_or_of_lt mantissa.isLt, Nat.shiftLeft_eq]
  simp

theorem unpackSign_components {spec : Format} (sign : UnpackedFloat.Sign)
    (exponent : BitVec spec.exponentBits) (mantissa : BitVec spec.mantissaBitsWithoutImplicit) :
    unpackSign (packComponents spec sign exponent mantissa) = sign.toBitVec := by
  ext place single
  simp [unpackSign, packComponents, BitVec.getLsbD_eq_getElem, BitVec.getLsbD_append,
    BitVec.getElem_append, Nat.lt_one_iff.mp single]

theorem sign_ofBitVec_toBitVec (sign : UnpackedFloat.Sign) :
    UnpackedFloat.Sign.ofBitVec sign.toBitVec = sign := by
  cases sign <;> rfl

theorem sign_toBitVec_ofBitVec (field : BitVec 1) :
    (UnpackedFloat.Sign.ofBitVec field).toBitVec = field := by
  revert field
  decide

/-- A bit pattern is made of its three fields. -/
theorem components_of_bits {spec : Format} (bits : BitVec spec.numBits) :
    packComponents spec (.ofBitVec (unpackSign bits)) (unpackExponent bits) (unpackMantissa bits) =
      bits := by
  ext place inside
  have exponentBits := spec.he
  have mantissaBits := spec.hm
  simp only [packComponents, sign_toBitVec_ofBitVec, unpackSign, unpackExponent, unpackMantissa]
  simp only [BitVec.getElem_append, BitVec.getElem_cast, BitVec.extractLsb,
    BitVec.getElem_extractLsb', Nat.zero_add]
  rw [← BitVec.getLsbD_eq_getElem inside]
  split
  · rfl
  · split
    · congr 1
      omega
    · congr 1
      omega

/-! ## Packing and unpacking -/

theorem log2_of_full {significand : Nat} (full : 2 ^ 52 ≤ significand)
    (bounded : significand < 2 ^ 53) : significand.log2 = 52 := by
  have nonzero : significand ≠ 0 := by omega
  have lower := (Nat.le_log2 nonzero).mpr full
  have upper := (Nat.log2_lt nonzero).mpr bounded
  omega

theorem biased (exponent : Int) :
    exponent + (Format.binary64.exponentBias : Nat) + (52 : Nat) = exponent + 1075 := by
  have bias : Format.binary64.exponentBias = 1023 := rfl
  rw [bias]
  omega

theorem pack_of_full (sign : UnpackedFloat.Sign) {significand : Nat} {exponent : Int}
    (fits : Fits significand exponent) (full : 2 ^ 52 ≤ significand) :
    UnpackedFloat.pack .binary64 (ofParts sign significand exponent) =
      packComponents .binary64 sign (BitVec.ofNat 11 (exponent + 1075).toNat)
        (BitVec.ofNat 52 significand) := by
  have least := fits.least
  have most := fits.most
  rw [ofParts, dif_pos fits.positive, UnpackedFloat.pack]
  simp only [biased, log2_of_full full fits.bounded]
  have bits : 52 + 1 = Format.binary64.mantissaBits := rfl
  rw [if_neg (by omega), if_pos bits]

theorem pack_of_short (sign : UnpackedFloat.Sign) {significand : Nat}
    (positive : 0 < significand) (short : significand < 2 ^ 52) :
    UnpackedFloat.pack .binary64 (ofParts sign significand (-1074)) =
      packComponents .binary64 sign 0#11 (BitVec.ofNat 52 significand) := by
  have length := (Nat.log2_lt (Nat.ne_of_gt positive)).mpr short
  have bits : Format.binary64.mantissaBits = 53 := rfl
  rw [ofParts, dif_pos positive, UnpackedFloat.pack]
  simp only [biased, bits]
  rw [if_neg (by decide), if_neg (by omega)]

theorem unpack_of_full (sign : UnpackedFloat.Sign) (exponent : BitVec 11) (mantissa : BitVec 52)
    (low : exponent ≠ 0#11) (high : exponent ≠ -1#11) :
    UnpackedFloat.unpack .binary64 (packComponents .binary64 sign exponent mantissa) =
      ofParts sign (2 ^ 52 + mantissa.toNat) (exponent.toNat - 1075) := by
  have bias : Format.binary64.exponentBias = 1023 := rfl
  have positive : 0 < 2 ^ 52 + mantissa.toNat := by omega
  unfold UnpackedFloat.unpack
  simp only [UnpackedFloat.unpackMantissa_packComponents,
    UnpackedFloat.unpackExponent_packComponents, unpackSign_components, sign_ofBitVec_toBitVec]
  rw [if_neg high, if_neg low, ofParts, dif_pos positive]
  simp only [toNat_implicit, bias, UnpackedFloat.finite.injEq, true_and]
  omega

theorem unpack_of_short (sign : UnpackedFloat.Sign) (mantissa : BitVec 52) :
    UnpackedFloat.unpack .binary64 (packComponents .binary64 sign 0#11 mantissa) =
      ofParts sign mantissa.toNat (-1074) := by
  have bias : Format.binary64.exponentBias = 1023 := rfl
  unfold UnpackedFloat.unpack
  simp only [UnpackedFloat.unpackMantissa_packComponents,
    UnpackedFloat.unpackExponent_packComponents, unpackSign_components, sign_ofBitVec_toBitVec]
  rw [if_neg (by decide), if_pos trivial]
  by_cases zero : mantissa = 0#52
  · subst zero
    rfl
  · have positive : 0 < mantissa.toNat :=
      Nat.pos_of_ne_zero fun isZero => zero (BitVec.eq_of_toNat_eq isZero)
    rw [dif_neg zero, ofParts, dif_pos positive]
    simp [bias]

/-- A number that fits survives packing. -/
theorem unpack_pack (sign : UnpackedFloat.Sign) {significand : Nat} {exponent : Int}
    (fits : Fits significand exponent) :
    UnpackedFloat.unpack .binary64
      (UnpackedFloat.pack .binary64 (ofParts sign significand exponent)) =
      ofParts sign significand exponent := by
  have positive := fits.positive
  have bounded := fits.bounded
  have least := fits.least
  have most := fits.most
  by_cases full : 2 ^ 52 ≤ significand
  · have biasedField :
        (BitVec.ofNat 11 (exponent + 1075).toNat).toNat = (exponent + 1075).toNat := by
      rw [BitVec.toNat_ofNat]
      omega
    have field : 2 ^ 52 + (BitVec.ofNat 52 significand).toNat = significand := by
      rw [BitVec.toNat_ofNat]
      omega
    have low : BitVec.ofNat 11 (exponent + 1075).toNat ≠ 0#11 := by
      intro same
      rw [same] at biasedField
      simp at biasedField
      omega
    have high : BitVec.ofNat 11 (exponent + 1075).toNat ≠ -1#11 := by
      intro same
      rw [same] at biasedField
      simp at biasedField
      omega
    rw [pack_of_full sign fits full, unpack_of_full sign _ _ low high, field, biasedField]
    congr 1
    omega
  · have short : significand < 2 ^ 52 := by omega
    have field : (BitVec.ofNat 52 significand).toNat = significand := by
      rw [BitVec.toNat_ofNat]
      omega
    rcases fits.full with impossible | rfl
    · exact absurd impossible full
    · rw [pack_of_short sign positive short, unpack_of_short, field]

theorem fits_of_fields {exponent : BitVec 11} (mantissa : BitVec 52) (low : exponent ≠ 0#11)
    (high : exponent ≠ -1#11) : Fits (2 ^ 52 + mantissa.toNat) (exponent.toNat - 1075) := by
  have shorter := mantissa.isLt
  have range := exponent.isLt
  have nonzero : exponent.toNat ≠ 0 := fun isZero => low (BitVec.eq_of_toNat_eq isZero)
  have nonfull : exponent.toNat ≠ 2047 := fun isFull => high (BitVec.eq_of_toNat_eq isFull)
  exact ⟨by omega, by omega, by omega, by omega, .inl (by omega)⟩

theorem fits_of_mantissa {mantissa : BitVec 52} (nonzero : mantissa ≠ 0#52) :
    Fits mantissa.toNat (-1074) := by
  have shorter := mantissa.isLt
  have positive : mantissa.toNat ≠ 0 := fun isZero => nonzero (BitVec.eq_of_toNat_eq isZero)
  exact ⟨by omega, by omega, by omega, by omega, .inr rfl⟩

/-- What a bit pattern with finite exponent stands for. -/
theorem unpack_of_finite (sign : UnpackedFloat.Sign) (exponent : BitVec 11) (mantissa : BitVec 52)
    (high : exponent ≠ -1#11) :
    Exists fun significand : Nat => Exists fun power : Int =>
      UnpackedFloat.unpack .binary64 (packComponents .binary64 sign exponent mantissa) =
        ofParts sign significand power ∧
      (significand = 0 ∨ Fits significand power) ∧
      UnpackedFloat.pack .binary64 (ofParts sign significand power) =
        packComponents .binary64 sign exponent mantissa := by
  by_cases low : exponent = 0#11
  · subst low
    refine ⟨mantissa.toNat, -1074, unpack_of_short sign mantissa, ?_⟩
    by_cases zero : mantissa = 0#52
    · subst zero
      exact ⟨.inl rfl, rfl⟩
    · have fits := fits_of_mantissa zero
      refine ⟨.inr fits, ?_⟩
      rw [pack_of_short sign fits.positive mantissa.isLt, BitVec.ofNat_toNat, BitVec.setWidth_eq]
  · have fits := fits_of_fields mantissa low high
    refine ⟨2 ^ 52 + mantissa.toNat, exponent.toNat - 1075,
      unpack_of_full sign exponent mantissa low high, .inr fits, ?_⟩
    have exponentField :
        BitVec.ofNat 11 ((exponent.toNat : Int) - 1075 + 1075).toNat = exponent := by
      rw [Int.sub_add_cancel, Int.toNat_natCast, BitVec.ofNat_toNat, BitVec.setWidth_eq]
    have mantissaField : BitVec.ofNat 52 (2 ^ 52 + mantissa.toNat) = mantissa := by
      apply BitVec.eq_of_toNat_eq
      rw [BitVec.toNat_ofNat]
      have shorter := mantissa.isLt
      omega
    rw [pack_of_full sign fits (by omega), exponentField, mantissaField]

/-- A number that is packed with too large an exponent becomes an infinity, and
any other stays finite. -/
theorem unpack_pack_cases (sign : UnpackedFloat.Sign) {significand : Nat} (exponent : Int)
    (positive : 0 < significand) :
    (971 < exponent ∧ UnpackedFloat.unpack .binary64
      (UnpackedFloat.pack .binary64 (ofParts sign significand exponent)) = .infinity sign) ∨
    (exponent ≤ 971 ∧ Exists fun packed : Nat => Exists fun power : Int =>
      UnpackedFloat.unpack .binary64
        (UnpackedFloat.pack .binary64 (ofParts sign significand exponent)) =
          ofParts sign packed power) := by
  have ofFields (field : BitVec 11) (mantissa : BitVec 52) (high : field ≠ -1#11) :
      Exists fun packed : Nat => Exists fun power : Int =>
        UnpackedFloat.unpack .binary64 (packComponents .binary64 sign field mantissa) =
          ofParts sign packed power := by
    rcases unpack_of_finite sign field mantissa high with ⟨packed, power, unpacked, _⟩
    exact ⟨packed, power, unpacked⟩
  have ofInfinity :
      UnpackedFloat.unpack .binary64 (UnpackedFloat.packedInfinity .binary64 sign) =
        .infinity sign := by
    cases sign <;> rfl
  rw [ofParts, dif_pos positive, UnpackedFloat.pack]
  simp only [biased]
  split
  · next full => exact .inl ⟨by omega, ofInfinity⟩
  · next room =>
      refine .inr ⟨by omega, ?_⟩
      split
      · refine ofFields _ _ fun full => room ?_
        have size := congrArg BitVec.toNat full
        rw [BitVec.toNat_ofNat] at size
        change 2 ^ 11 ≤ _
        change _ % 2 ^ 11 = 2047 at size
        omega
      · exact ofFields 0#11 _ (by decide)

/-- The sign field of a bit pattern. -/
def signOfBits (bits : BitVec 64) : UnpackedFloat.Sign :=
  .ofBitVec (@unpackSign .binary64 bits)

/-- A bit pattern is no number, an infinity or a finite number, and valid ones
survive unpacking. -/
theorem unpack_cases (bits : BitVec 64) :
    (UnpackedFloat.unpack .binary64 bits = .notANumber ∧
      (Format.binary64.Valid bits -> UnpackedFloat.packedNaN .binary64 = bits)) ∨
    (UnpackedFloat.unpack .binary64 bits = .infinity (signOfBits bits) ∧
      UnpackedFloat.packedInfinity .binary64 (signOfBits bits) = bits) ∨
    Exists fun significand : Nat => Exists fun power : Int =>
      UnpackedFloat.unpack .binary64 bits = ofParts (signOfBits bits) significand power ∧
        (significand = 0 ∨ Fits significand power) ∧
        UnpackedFloat.pack .binary64 (ofParts (signOfBits bits) significand power) = bits := by
  have whole := @components_of_bits .binary64 bits
  by_cases high : @unpackExponent .binary64 bits = -1#11
  · by_cases infinite : @unpackMantissa .binary64 bits = 0#52
    · right
      left
      constructor
      · unfold UnpackedFloat.unpack
        rw [if_pos high, if_pos infinite]
        rfl
      · rw [high, infinite] at whole
        exact whole
    · left
      constructor
      · unfold UnpackedFloat.unpack
        rw [if_pos high, if_neg infinite]
      · intro valid
        exact (valid.eq_packedNaN high infinite).symm
  · right
    right
    rcases unpack_of_finite (signOfBits bits) (@unpackExponent .binary64 bits)
      (@unpackMantissa .binary64 bits) high with
      ⟨significand, power, unpacked, range, packed⟩
    rw [signOfBits, whole] at unpacked packed
    exact ⟨significand, power, unpacked, range, packed⟩

/-- A valid bit pattern survives unpacking. -/
theorem pack_unpack {bits : BitVec 64} (valid : Format.binary64.Valid bits) :
    UnpackedFloat.pack .binary64 (UnpackedFloat.unpack .binary64 bits) = bits := by
  rcases unpack_cases bits with ⟨unpacked, packed⟩ | ⟨unpacked, packed⟩ |
    ⟨significand, power, unpacked, _, packed⟩
  · rw [unpacked]
    exact packed valid
  · rw [unpacked]
    exact packed
  · rw [unpacked, packed]

/-- What is unpacked as finite has the sign of the bit pattern and is zero or
fits. -/
theorem parts_of_unpack {bits : BitVec 64} {sign : UnpackedFloat.Sign} {significand : Nat}
    {exponent : Int}
    (shape : UnpackedFloat.unpack .binary64 bits = ofParts sign significand exponent) :
    sign = signOfBits bits ∧ (significand = 0 ∨ Fits significand exponent) := by
  rcases unpack_cases bits with ⟨unpacked, _⟩ | ⟨unpacked, _⟩ |
    ⟨other, power, unpacked, range, _⟩
  · rw [unpacked, ofParts] at shape
    split at shape <;> cases shape
  · rw [unpacked, ofParts] at shape
    split at shape <;> cases shape
  · rw [unpacked] at shape
    rcases range with rfl | fits
    · rw [ofParts, dif_neg (Nat.lt_irrefl 0), ofParts] at shape
      split at shape
      · cases shape
      · next zero =>
          cases shape
          exact ⟨rfl, .inl (by omega)⟩
    · rw [ofParts, dif_pos fits.positive, ofParts] at shape
      split at shape
      · cases shape
        exact ⟨rfl, .inr fits⟩
      · cases shape

/-- Packing keeps the sign, even where it overflows. -/
theorem signOfBits_pack (sign : UnpackedFloat.Sign) (significand : Nat) (exponent : Int) :
    signOfBits (UnpackedFloat.pack .binary64 (ofParts sign significand exponent)) = sign := by
  have field (power : BitVec 11) (mantissa : BitVec 52) :
      signOfBits (packComponents .binary64 sign power mantissa) = sign := by
    rw [signOfBits, unpackSign_components, sign_ofBitVec_toBitVec]
  by_cases positive : 0 < significand
  · rw [ofParts, dif_pos positive, UnpackedFloat.pack]
    dsimp only
    split
    · exact field _ _
    · split
      · exact field _ _
      · exact field _ _
  · rw [ofParts, dif_neg positive]
    exact field _ _

/-! ## Rounding what needs no rounding -/

theorem log2_mul_two_pow {number : Nat} (nonzero : number ≠ 0) (shift : Nat) :
    (number * 2 ^ shift).log2 = number.log2 + shift := by
  induction shift with
  | zero => simp
  | succ shift ih =>
      have power : number * 2 ^ (shift + 1) = 2 * (number * 2 ^ shift) := by
        rw [Nat.pow_succ, ← Nat.mul_assoc, Nat.mul_comm]
      have still : number * 2 ^ shift ≠ 0 := 
        Nat.mul_ne_zero nonzero (Nat.ne_of_gt (Nat.two_pow_pos shift))
      rw [power, Nat.log2_two_mul still, ih, Nat.add_assoc]

theorem log2_le_of_fits {significand : Nat} {exponent : Int} (fits : Fits significand exponent) :
    significand.log2 ≤ 52 ∧ (significand.log2 = 52 ∨ exponent = -1074) := by
  have upper := (Nat.log2_lt (Nat.ne_of_gt fits.positive)).mpr fits.bounded
  refine ⟨by omega, ?_⟩
  rcases fits.full with full | least
  · exact .inl (log2_of_full full fits.bounded)
  · exact .inr least

/-- The exponent of a number that fits is the one that rounding aims at. -/
theorem target_of_fits {significand : Nat} {exponent : Int} (fits : Fits significand exponent)
    (shift : Nat) :
    Format.binary64.targetExponent (totalExponent (significand * 2 ^ shift) (exponent - shift)) =
      exponent := by
  have length := log2_mul_two_pow (Nat.ne_of_gt fits.positive) shift
  have bits := log2_le_of_fits fits
  have least := fits.least
  have mantissaBits : Format.binary64.mantissaBits = 53 := rfl
  have minExponent : Format.binary64.minExponent = -1074 := rfl
  unfold Format.targetExponent totalExponent
  rw [length, mantissaBits, minExponent]
  omega

theorem shiftRight_exact (significand shift : Nat) :
    (⟨significand * 2 ^ shift, false, false⟩ : UnpackedFloat.ExtendedMantissa) >>> shift =
      ⟨significand, false, false⟩ := by
  induction shift generalizing significand with
  | zero => simp [HShiftRight.hShiftRight, Nat.repeat]
  | succ shift ih =>
      have power : significand * 2 ^ (shift + 1) = (2 * significand) * 2 ^ shift := by
        rw [Nat.pow_succ, Nat.mul_comm (2 ^ shift), ← Nat.mul_assoc, Nat.mul_comm significand]
      have earlier := ih (2 * significand)
      simp only [HShiftRight.hShiftRight] at earlier ⊢
      rw [Nat.repeat, power, earlier]
      simp [UnpackedFloat.ExtendedMantissa.shiftRightOne]

theorem shiftToTarget_exact {significand : Nat} {exponent : Int}
    (fits : Fits significand exponent) (shift : Nat) :
    UnpackedFloat.shiftToTargetExponent .binary64 (significand * 2 ^ shift) (exponent - shift)
      .exact = (⟨significand, false, false⟩, exponent) := by
  have amount : (exponent - (exponent - shift)).toNat = shift := by omega
  unfold UnpackedFloat.shiftToTargetExponent UnpackedFloat.shiftToExponent
  simp only [target_of_fits fits shift, amount,
    UnpackedFloat.ExtendedMantissa.ofMantissaAndAccuracy, shiftRight_exact]
  congr 1
  omega

/-- Rounding leaves a number that fits as it is, with whichever exponent it is
written. -/
theorem roundWithAccuracy_exact (sign : UnpackedFloat.Sign) {significand : Nat} {exponent : Int}
    (fits : Fits significand exponent) (shift : Nat) :
    UnpackedFloat.roundWithAccuracy .binary64 sign (significand * 2 ^ shift) (exponent - shift)
      .exact = ofParts sign significand exponent := by
  have again := shiftToTarget_exact fits 0
  rw [Nat.pow_zero, Nat.mul_one, Int.natCast_zero, Int.sub_zero] at again
  have positive := fits.positive
  unfold UnpackedFloat.roundWithAccuracy
  simp only [shiftToTarget_exact fits shift, UnpackedFloat.ExtendedMantissa.roundedMantissa,
    UnpackedFloat.ExtendedMantissa.accuracy, UnpackedFloat.Accuracy.roundToNearestEven, again]
  rw [dif_neg (Nat.ne_of_gt positive), ofParts, dif_pos positive]

theorem round_exact (sign : UnpackedFloat.Sign) {significand : Nat} {exponent : Int}
    (fits : Fits significand exponent) :
    UnpackedFloat.round .binary64 sign significand exponent =
      ofParts sign significand exponent := by
  have target := target_of_fits fits 0
  have rounded := roundWithAccuracy_exact sign fits 0
  rw [Nat.pow_zero, Nat.mul_one, Int.natCast_zero, Int.sub_zero] at target rounded
  unfold UnpackedFloat.round UnpackedFloat.decreaseExponent
  simp only [target, Int.sub_self, Int.toNat_zero, Nat.shiftLeft_zero, Int.natCast_zero,
    Int.sub_zero]
  exact rounded

/-- A quotient of two natural numbers is the number `significand * 2 ^ exponent`. -/
def IsQuotient (numerator denominator significand : Nat) (exponent : Int) : Prop :=
  numerator * 2 ^ (-exponent).toNat = significand * 2 ^ exponent.toNat * denominator

/-- The same equation with both sides written at a smaller exponent. -/
theorem IsQuotient.at_lower {numerator denominator significand : Nat} {exponent : Int}
    (quotient : IsQuotient numerator denominator significand exponent) {lower : Int}
    (below : lower ≤ exponent) (nonpos : lower ≤ 0) :
    numerator * 2 ^ (-lower).toNat =
      significand * 2 ^ (exponent - lower).toNat * denominator := by
  have common : numerator * 2 ^ (-exponent).toNat * 2 ^ (min exponent 0 - lower).toNat =
      significand * 2 ^ exponent.toNat * denominator * 2 ^ (min exponent 0 - lower).toNat :=
    congrArg (· * 2 ^ (min exponent 0 - lower).toNat) quotient
  have left : (-exponent).toNat + (min exponent 0 - lower).toNat = (-lower).toNat := by omega
  have right : exponent.toNat + (min exponent 0 - lower).toNat = (exponent - lower).toNat := by
    omega
  rw [Nat.mul_assoc, ← Nat.pow_add, left] at common
  rw [common, Nat.mul_right_comm, Nat.mul_assoc significand, ← Nat.pow_add, right]

/-- The quotient is about as long as the difference of its parts. -/
theorem IsQuotient.length_le {numerator denominator significand : Nat} {exponent : Int}
    (quotient : IsQuotient numerator denominator significand exponent)
    (fits : Fits significand exponent) (divides : 0 < denominator) :
    (numerator.log2 : Int) - denominator.log2 ≤ significand.log2 + exponent + 1 := by
  have nonzero : numerator ≠ 0 := by
    rintro rfl
    unfold IsQuotient at quotient
    rw [Nat.zero_mul] at quotient
    have product := Nat.mul_pos (Nat.mul_pos fits.positive (Nat.two_pow_pos exponent.toNat)) divides
    omega
  have left := log2_mul_two_pow nonzero (-exponent).toNat
  rw [quotient] at left
  have nonzeroProduct : significand * 2 ^ exponent.toNat * denominator ≠ 0 := by
    have product := Nat.mul_pos (Nat.mul_pos fits.positive (Nat.two_pow_pos exponent.toNat)) divides
    omega
  have bound : (significand * 2 ^ exponent.toNat * denominator).log2 <
      (significand.log2 + 1) + exponent.toNat + (denominator.log2 + 1) := by
    rw [Nat.log2_lt nonzeroProduct, Nat.pow_add, Nat.pow_add]
    have shorter := Nat.mul_lt_mul_of_pos_right (@Nat.lt_log2_self significand)
      (Nat.two_pow_pos exponent.toNat)
    exact Nat.mul_lt_mul'' shorter Nat.lt_log2_self
  omega

/-- Dividing loses nothing where the quotient fits: the exponent that it starts
from leaves room for the whole quotient. -/
theorem div_exact {numerator denominator significand : Nat} {exponent : Int}
    (quotient : IsQuotient numerator denominator significand exponent)
    (fits : Fits significand exponent) (divides : 0 < denominator) :
    UnpackedFloat.div .binary64 (wholeOperand numerator) (wholeOperand denominator) =
      ofParts .positive significand exponent := by
  have nonzero : 0 < numerator := by
    apply Nat.pos_of_ne_zero
    intro isZero
    have product := Nat.mul_pos (Nat.mul_pos fits.positive (Nat.two_pow_pos exponent.toNat)) divides
    rw [IsQuotient, isZero, Nat.zero_mul] at quotient
    omega
  have length := quotient.length_le fits divides
  have short := (log2_le_of_fits fits).1
  have least := fits.least
  have mantissaBits : Format.binary64.mantissaBits = 53 := rfl
  have minExponent : Format.binary64.minExponent = -1074 := rfl
  generalize lowerEq : min ((0 : Int) - 0) (Format.binary64.targetExponent
    (totalExponent numerator 0 - totalExponent denominator 0)) = lower
  have below : lower ≤ exponent ∧ lower ≤ 0 := by
    rw [← lowerEq]
    unfold Format.targetExponent totalExponent
    rw [mantissaBits, minExponent]
    omega
  have scaled := quotient.at_lower below.1 below.2
  have shift : ((0 : Int) - 0 - lower).toNat = (-lower).toNat := by omega
  have start : lower = exponent - ((exponent - lower).toNat : Nat) := by omega
  rw [wholeOperand, dif_pos nonzero, wholeOperand, dif_pos divides]
  unfold UnpackedFloat.div UnpackedFloat.divCore
  simp only [lowerEq, shift, Nat.shiftLeft_eq, scaled, Nat.mul_div_cancel _ divides,
    Nat.mul_mod_left, UnpackedFloat.accuracyOfFraction, if_true]
  have rounded := roundWithAccuracy_exact .positive fits (exponent - lower).toNat
  rw [← start] at rounded
  exact rounded

/-- Rounding keeps the sign, even where it rounds to zero. -/
theorem roundWithAccuracy_sign (sign : UnpackedFloat.Sign) (significand : Nat) (exponent : Int)
    (accuracy : UnpackedFloat.Accuracy) :
    Exists fun rounded : Nat => Exists fun power : Int =>
      UnpackedFloat.roundWithAccuracy .binary64 sign significand exponent accuracy =
        ofParts sign rounded power := by
  unfold UnpackedFloat.roundWithAccuracy
  dsimp only
  split
  · exact ⟨0, 0, rfl⟩
  · next nonzero => exact ⟨_, _, (dif_pos (Nat.pos_of_ne_zero nonzero)).symm⟩

/-- A quotient of natural numbers has no sign. -/
theorem div_unsigned (numerator : Nat) {denominator : Nat} (divides : 0 < denominator) :
    Exists fun significand : Nat => Exists fun exponent : Int =>
      UnpackedFloat.div .binary64 (wholeOperand numerator) (wholeOperand denominator) =
        ofParts .positive significand exponent := by
  rw [wholeOperand, wholeOperand, dif_pos divides]
  by_cases nonzero : 0 < numerator
  · rw [dif_pos nonzero]
    exact roundWithAccuracy_sign .positive _ _ _
  · rw [dif_neg nonzero]
    exact ⟨0, 0, rfl⟩

end Binary64
end DeskCalculator

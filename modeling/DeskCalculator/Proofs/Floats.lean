import DeskCalculator.Numeral.Shortest
import DeskCalculator.Proofs.Binary64

namespace DeskCalculator

open Float.Model (UnpackedFloat)
open Binary64 (ofParts Fits)

/-!
# Reading and writing floats exactly

A finite float is its sign and its magnitude: reading it exactly and rounding
what was read gives the same float.  The two signs of one magnitude are the
negatives of each other.  Every magnitude of a float has a numeral that reads
back as it, so the shortest one does.
-/

/-- The magnitude is zero or that of a float. -/
def Magnitude.IsCanonical (magnitude : Magnitude) : Prop :=
  magnitude = ⟨0, 0⟩ ∨ Fits magnitude.significand magnitude.exponent

namespace Exact

theorem isNegative_signOf (negative : Bool) : isNegative (signOf negative) = negative := by
  cases negative <;> rfl

theorem signOf_isNegative (sign : UnpackedFloat.Sign) : signOf (isNegative sign) = sign := by
  cases sign <;> rfl

/-- The unpacked float with a sign and a magnitude. -/
def unpacked (negative : Bool) (magnitude : Magnitude) : UnpackedFloat :=
  ofParts (signOf negative) magnitude.significand magnitude.exponent

theorem pack_unpack_model (value : Float) :
    Float.ofModel (.pack value.toModel.unpack) = value := by
  have bits := Binary64.pack_unpack value.toModel.valid
  rcases value with ⟨⟨word, valid⟩⟩
  simp only [Float.Model.pack, Float.Model.unpack] at bits ⊢
  simp only [bits]

/-- What is read from a finite float is what it was unpacked to. -/
theorem unpack_of_ofFloat {value : Float} {negative : Bool} {magnitude : Magnitude}
    (read : ofFloat value = .finite negative magnitude) :
    value.toModel.unpack = unpacked negative magnitude ∧ magnitude.IsCanonical := by
  unfold ofFloat at read
  cases shape : value.toModel.unpack with
  | notANumber => simp [shape] at read
  | infinity sign => simp [shape] at read
  | zero sign =>
      simp only [shape, Exact.finite.injEq] at read
      rcases read with ⟨rfl, rfl⟩
      refine ⟨?_, .inl rfl⟩
      rw [unpacked, signOf_isNegative]
      rfl
  | finite sign significand exponent positive =>
      simp only [shape, Exact.finite.injEq] at read
      rcases read with ⟨rfl, rfl⟩
      have parts : value.toModel.unpack = ofParts sign significand exponent := by
        rw [shape, ofParts, dif_pos positive]
      rcases (Binary64.parts_of_unpack parts).2 with zero | fits
      · exact absurd zero (Nat.ne_of_gt positive)
      · refine ⟨?_, .inr fits⟩
        rw [← shape, parts, unpacked, signOf_isNegative]

theorem toFloat_eq_pack {magnitude : Magnitude} (canonical : magnitude.IsCanonical)
    (negative : Bool) :
    (Exact.finite negative magnitude).toFloat =
      .ofModel (.pack (unpacked negative magnitude)) := by
  rcases canonical with rfl | fits
  · cases negative <;> rfl
  · rw [toFloat, Binary64.round_exact _ fits, unpacked]

/-- Rounding what was read gives the float back. -/
theorem toFloat_of_ofFloat {value : Float} {negative : Bool} {magnitude : Magnitude}
    (read : ofFloat value = .finite negative magnitude) :
    (Exact.finite negative magnitude).toFloat = value := by
  rcases unpack_of_ofFloat read with ⟨shape, canonical⟩
  rw [toFloat_eq_pack canonical, ← shape, pack_unpack_model]

theorem unpack_toFloat {magnitude : Magnitude} (canonical : magnitude.IsCanonical)
    (negative : Bool) :
    (Exact.finite negative magnitude).toFloat.toModel.unpack = unpacked negative magnitude := by
  rw [toFloat_eq_pack canonical]
  rcases canonical with rfl | fits
  · cases negative <;> rfl
  · exact Binary64.unpack_pack (signOf negative) fits

/-- Reading what was rounded gives the magnitude back. -/
theorem ofFloat_toFloat {magnitude : Magnitude} (canonical : magnitude.IsCanonical)
    (negative : Bool) :
    ofFloat (Exact.finite negative magnitude).toFloat = .finite negative magnitude := by
  have shape := unpack_toFloat canonical negative
  unfold ofFloat
  rcases canonical with rfl | fits
  · cases negative <;> rfl
  · simp only [shape, unpacked, ofParts, dif_pos fits.positive, isNegative_signOf]

theorem isFinite_iff {value : Float} :
    value.isFinite = true ↔ Exists fun negative : Bool => Exists fun magnitude : Magnitude =>
      ofFloat value = .finite negative magnitude := by
  change value.toModel.unpack.isFinite = true ↔ _
  unfold ofFloat
  cases value.toModel.unpack <;> simp [UnpackedFloat.isFinite]

theorem abs_eq_toFloat {value : Float} {negative : Bool} {magnitude : Magnitude}
    (read : ofFloat value = .finite negative magnitude) :
    value.abs = (Exact.finite false magnitude).toFloat := by
  rcases unpack_of_ofFloat read with ⟨shape, canonical⟩
  rw [toFloat_eq_pack canonical]
  change Float.ofModel (.pack value.toModel.unpack.abs) = _
  rw [shape]
  rcases canonical with rfl | fits
  · cases negative <;> rfl
  · simp only [unpacked, ofParts, dif_pos fits.positive, UnpackedFloat.abs]
    rfl

/-- A negative float is the negative of its absolute value. -/
theorem neg_abs {value : Float} {magnitude : Magnitude}
    (read : ofFloat value = .finite true magnitude) : -value.abs = value := by
  rcases unpack_of_ofFloat read with ⟨shape, canonical⟩
  rw [abs_eq_toFloat read]
  change Float.ofModel (.pack (Exact.finite false magnitude).toFloat.toModel.unpack.neg) = _
  rw [unpack_toFloat canonical, ← pack_unpack_model value, shape]
  rcases canonical with rfl | fits
  · rfl
  · simp only [unpacked, ofParts, dif_pos fits.positive, UnpackedFloat.neg]
    rfl

theorem abs_of_unsigned {value : Float} {magnitude : Magnitude}
    (read : ofFloat value = .finite false magnitude) : value.abs = value := by
  rw [abs_eq_toFloat read, toFloat_of_ofFloat read]

end Exact

/-! ## Numerals that read back -/

namespace Numeral

open Binary64 (IsQuotient)

/-- A numeral that equals a magnitude has it as its nearest float. -/
theorem toFloat_of_isQuotient {numeral : Numeral} {magnitude : Magnitude}
    (fits : Fits magnitude.significand magnitude.exponent)
    (equal : IsQuotient numeral.digits (10 ^ numeral.places) magnitude.significand
      magnitude.exponent) :
    numeral.toFloat = (Exact.finite false magnitude).toFloat := by
  rw [Exact.toFloat_eq_pack (.inr fits), toFloat, nearestQuotient,
    Binary64.div_exact equal fits (Nat.pow_pos (by decide))]
  rfl

/-- The exact expansion equals its magnitude. -/
theorem isQuotient_exactly (magnitude : Magnitude) :
    IsQuotient (exactly magnitude).digits (10 ^ (exactly magnitude).places)
      magnitude.significand magnitude.exponent := by
  have trimmed := trimDigits_value (magnitude.numerator * 5 ^ (-magnitude.exponent).toNat)
    (-magnitude.exponent).toNat
  have ten : (10 : Nat) ^ (-magnitude.exponent).toNat =
      2 ^ (-magnitude.exponent).toNat * 5 ^ (-magnitude.exponent).toNat := by
    rw [← Nat.mul_pow]
  change (exactly magnitude).digits * _ = _ * 10 ^ (exactly magnitude).places at trimmed
  rw [ten, ← Nat.mul_assoc, Nat.mul_right_comm magnitude.numerator] at trimmed
  exact Nat.eq_of_mul_eq_mul_right (Nat.pow_pos (by decide)) trimmed

/-- The shortest numeral of a magnitude reads back as it. -/
theorem toFloat_shortest {magnitude : Magnitude} (canonical : magnitude.IsCanonical) :
    (shortest magnitude).toFloat = (Exact.finite false magnitude).toFloat := by
  rcases canonical with rfl | fits
  · rfl
  · rcases toFloat_shortest_or_eq_exactly magnitude (Nat.ne_of_gt fits.positive) with
      readsBack | allDigits
    · exact readsBack
    · rw [allDigits]
      exact toFloat_of_isQuotient fits (isQuotient_exactly magnitude)

/-- A numeral has no sign, and neither has its nearest float. -/
theorem ofFloat_toFloat {numeral : Numeral} (finite : numeral.toFloat.isFinite = true) :
    Exists fun magnitude : Magnitude =>
      Exact.ofFloat numeral.toFloat = .finite false magnitude := by
  rcases Exact.isFinite_iff.mp finite with ⟨negative, magnitude, read⟩
  refine ⟨magnitude, ?_⟩
  rw [read]
  have shape := (Exact.unpack_of_ofFloat read).1
  have sign := (Binary64.parts_of_unpack shape).1
  rcases Binary64.div_unsigned numeral.digits (Nat.pow_pos (by decide) : 0 < 10 ^ numeral.places)
    with ⟨significand, exponent, quotient⟩
  have bits : numeral.toFloat.toModel.toBits.toBitVec =
      UnpackedFloat.pack .binary64 (ofParts .positive significand exponent) := by
    rw [toFloat, nearestQuotient, quotient]
    rfl
  rw [bits, Binary64.signOfBits_pack] at sign
  cases negative with
  | false => rfl
  | true => cases sign

end Numeral

end DeskCalculator

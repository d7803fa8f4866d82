import DeskCalculator.Proofs.FlooredRemainder

namespace DeskCalculator

open Float.Model (UnpackedFloat)

/-!
# Undefined results

Sums, products and quotients of numbers are undefined only where infinities or zeros
meet, and the floored remainder by another number than zero only for an infinite
dividend.  Each is decided on the shapes of its operands, and said again of the floats.
-/

/-! ## Shapes -/

namespace Binary64

theorem isNaN_normalize (mantissa exponent : Int) (sign : UnpackedFloat.Sign) :
    (UnpackedFloat.normalize .binary64 mantissa exponent sign).isNaN = false := by
  unfold UnpackedFloat.normalize
  split
  · exact isNaN_roundWithAccuracy _ _ _ _
  · rfl
  · exact isNaN_roundWithAccuracy _ _ _ _

@[simp]
theorem isNaN_notANumber : UnpackedFloat.notANumber.isNaN = true :=
  rfl

@[simp]
theorem isNaN_infinity (sign : UnpackedFloat.Sign) : (UnpackedFloat.infinity sign).isNaN = false :=
  rfl

@[simp]
theorem isNaN_zero (sign : UnpackedFloat.Sign) : (UnpackedFloat.zero sign).isNaN = false :=
  rfl

@[simp]
theorem isNaN_finite (sign : UnpackedFloat.Sign) {significand : Nat} (exponent : Int)
    (positive : 0 < significand) :
    (UnpackedFloat.finite sign significand exponent positive).isNaN = false :=
  rfl

variable {shape other : UnpackedFloat}

theorem isNaN_add_iff (number : shape.isNaN = false) (numberOther : other.isNaN = false) :
    (UnpackedFloat.add .binary64 shape other).isNaN = true ↔ Exists fun negative : Bool =>
      shape = .infinity (Exact.signOf negative) ∧
        other = .infinity (Exact.signOf (!negative)) := by
  cases shape with
  | notANumber => cases number
  | infinity sign =>
      cases other with
      | notANumber => cases numberOther
      | infinity signOther =>
          cases sign <;> cases signOther <;> simp [UnpackedFloat.add, Exact.signOf]
      | _ => simp [UnpackedFloat.add]
  | zero sign =>
      cases other with
      | notANumber => cases numberOther
      | zero signOther => cases sign <;> cases signOther <;> simp [UnpackedFloat.add]
      | _ => simp [UnpackedFloat.add]
  | finite sign significand exponent positive =>
      cases other with
      | notANumber => cases numberOther
      | _ => simp [UnpackedFloat.add, isNaN_normalize]

theorem neg_eq_infinity_iff {negative : Bool} :
    shape.neg = .infinity (Exact.signOf (!negative)) ↔
      shape = .infinity (Exact.signOf negative) := by
  cases shape with
  | infinity sign =>
      cases sign <;> cases negative <;> simp [UnpackedFloat.neg, Exact.signOf, Neg.neg]
  | _ => simp [UnpackedFloat.neg]

theorem isNaN_sub_iff (number : shape.isNaN = false) (numberOther : other.isNaN = false) :
    (UnpackedFloat.sub .binary64 shape other).isNaN = true ↔ Exists fun negative : Bool =>
      shape = .infinity (Exact.signOf negative) ∧ other = .infinity (Exact.signOf negative) := by
  rw [sub_eq_add_neg_shape, isNaN_add_iff number ((isNaN_neg other).trans numberOther)]
  simp only [neg_eq_infinity_iff]

theorem isNaN_mul_iff (number : shape.isNaN = false) (numberOther : other.isNaN = false) :
    (UnpackedFloat.mul .binary64 shape other).isNaN = true ↔
      (Exists fun sign => shape = .zero sign) ∧ (Exists fun sign => other = .infinity sign) ∨
        (Exists fun sign => shape = .infinity sign) ∧ Exists fun sign => other = .zero sign := by
  cases shape with
  | notANumber => cases number
  | _ =>
      cases other with
      | notANumber => cases numberOther
      | _ => simp [UnpackedFloat.mul, isNaN_roundWithAccuracy]

theorem isNaN_div_iff (number : shape.isNaN = false) (numberOther : other.isNaN = false) :
    (UnpackedFloat.div .binary64 shape other).isNaN = true ↔
      (Exists fun sign => shape = .zero sign) ∧ (Exists fun sign => other = .zero sign) ∨
        (Exists fun sign => shape = .infinity sign) ∧
          Exists fun sign => other = .infinity sign := by
  cases shape with
  | notANumber => cases number
  | _ =>
      cases other with
      | notANumber => cases numberOther
      | _ => simp [UnpackedFloat.div, isNaN_roundWithAccuracy]

end Binary64

/-! ## Floats -/

section Operands

variable {left right value : Float}

theorem denotes_zero_iff :
    Denotes value 0 ↔
      Exists fun sign : UnpackedFloat.Sign => value.toModel.unpack = .zero sign := by
  constructor
  · rintro ⟨negative, magnitude, read, zero⟩
    have vanishes : magnitude.rational = 0 := by rw [← Exact.abs_rational negative, zero, abs_zero]
    rcases Exact.unpack_of_ofFloat read with ⟨shape, rfl | fits⟩
    · exact ⟨_, shape⟩
    · exact absurd ((Magnitude.rational_eq_zero_iff _).mp vanishes) fits.positive.ne'
  · rintro ⟨sign, shape⟩
    refine ⟨Exact.isNegative sign, ⟨0, 0⟩, ?_, Exact.rational_zero _⟩
    rw [Exact.ofFloat, shape]

theorem isInf_iff :
    value.isInf = true ↔
      Exists fun sign : UnpackedFloat.Sign => value.toModel.unpack = .infinity sign := by
  change value.toModel.unpack.isInf = true ↔ _
  cases value.toModel.unpack with
  | infinity sign => exact ⟨fun _ => ⟨sign, rfl⟩, fun _ => rfl⟩
  | _ => exact ⟨nofun, nofun⟩

theorem ofFloat_eq_infinite_iff {negative : Bool} :
    Exact.ofFloat value = .infinite negative ↔
      value.toModel.unpack = .infinity (Exact.signOf negative) := by
  constructor
  · exact Exact.unpack_of_infinite
  · intro shape
    rw [Exact.ofFloat, shape]
    dsimp only
    rw [Exact.isNegative_signOf]

theorem isInf_of_infinite {negative : Bool} (read : Exact.ofFloat value = .infinite negative) :
    value.isInf = true :=
  isInf_iff.mpr ⟨_, Exact.unpack_of_infinite read⟩

theorem isInf_eq_false_of_denotes {number : ℚ} (denotes : Denotes value number) :
    value.isInf = false := by
  apply Bool.eq_false_iff.mpr
  intro infinite
  rcases isInf_iff.mp infinite with ⟨sign, shape⟩
  have finite := denotes.isFinite
  change value.toModel.unpack.isFinite = true at finite
  rw [shape] at finite
  cases finite

/-- A number equals a finite float if it stands for the same number. -/
theorem beq_iff_denotes {other : Float} {number : ℚ} (defined : value.isNaN = false)
    (denotes : Denotes other number) : (value == other) = true ↔ Denotes value number := by
  rcases denotes_or_infinite defined with ⟨found, denotesValue⟩ | ⟨negative, read⟩
  · rw [denotesValue.beq_iff denotes]
    constructor
    · rintro rfl
      exact denotesValue
    · exact denotesValue.unique
  · constructor
    · intro same
      rw [not_beq_of_infinite read denotes] at same
      cases same
    · intro denotesValue
      have finite := isInf_eq_false_of_denotes denotesValue
      rw [isInf_of_infinite read] at finite
      cases finite

/-- A sum of numbers is undefined exactly for infinities of opposite sign. -/
theorem isNaN_add_iff (number : left.isNaN = false) (numberOther : right.isNaN = false) :
    (left + right).isNaN = true ↔ Exists fun negative : Bool =>
      Exact.ofFloat left = .infinite negative ∧ Exact.ofFloat right = .infinite (!negative) := by
  simp only [ofFloat_eq_infinite_iff]
  exact (Bool.eq_iff_iff.mp (Binary64.isNaN_pack _)).trans
    (Binary64.isNaN_add_iff number numberOther)

/-- A difference of numbers is undefined exactly for infinities of one sign. -/
theorem isNaN_sub_iff (number : left.isNaN = false) (numberOther : right.isNaN = false) :
    (left - right).isNaN = true ↔ Exists fun negative : Bool =>
      Exact.ofFloat left = .infinite negative ∧ Exact.ofFloat right = .infinite negative := by
  simp only [ofFloat_eq_infinite_iff]
  exact (Bool.eq_iff_iff.mp (Binary64.isNaN_pack _)).trans
    (Binary64.isNaN_sub_iff number numberOther)

/-- A product of numbers is undefined exactly for a zero and an infinity. -/
theorem isNaN_mul_iff (number : left.isNaN = false) (numberOther : right.isNaN = false) :
    (left * right).isNaN = true ↔
      Denotes left 0 ∧ right.isInf = true ∨ left.isInf = true ∧ Denotes right 0 := by
  simp only [denotes_zero_iff, isInf_iff]
  exact (Bool.eq_iff_iff.mp (Binary64.isNaN_pack _)).trans
    (Binary64.isNaN_mul_iff number numberOther)

/-- A quotient of numbers is undefined exactly for two zeros and for two infinities. -/
theorem isNaN_div_iff (number : left.isNaN = false) (numberOther : right.isNaN = false) :
    (left / right).isNaN = true ↔
      Denotes left 0 ∧ Denotes right 0 ∨ left.isInf = true ∧ right.isInf = true := by
  simp only [denotes_zero_iff, isInf_iff]
  exact (Bool.eq_iff_iff.mp (Binary64.isNaN_pack _)).trans
    (Binary64.isNaN_div_iff number numberOther)

/-- The undefined float stays undefined in sums. -/
theorem isNaN_undefined_add : (Exact.undefined.toFloat + value).isNaN = true :=
  Binary64.isNaN_pack _

/-- A remainder by another number than zero is undefined exactly for an infinite dividend. -/
theorem isNaN_flooredRemainder_iff (number : left.isNaN = false)
    (numberOther : right.isNaN = false) (nonzero : ¬ Denotes right 0) :
    (flooredRemainder left right).isNaN = true ↔ left.isInf = true := by
  rcases denotes_or_infinite number with ⟨dividend, denotes⟩ | ⟨negative, read⟩
  · have defined : (flooredRemainder left right).isNaN = false := by
      rcases denotes_or_infinite numberOther with ⟨divisor, denotesOther⟩ | ⟨_, readOther⟩
      · have apart : divisor ≠ 0 := by
          rintro rfl
          exact nonzero denotesOther
        have sign := (flooredRemainder_of_finite denotes denotesOther apart).1
        rw [denotesOther.signBit?_eq apart] at sign
        exact isNaN_of_signBit sign
      · exact isNaN_of_signBit (flooredRemainder_of_infinite denotes readOther).1
    rw [defined, isInf_eq_false_of_denotes denotes]
  · have undefinedRemainder : truncatedRemainder left right = Exact.undefined.toFloat := by
      simp only [truncatedRemainder, read]
    have apart : (Exact.undefined.toFloat == 0) = false := by decide +kernel
    rw [isInf_of_infinite read, flooredRemainder, undefinedRemainder]
    simp only [apart, Bool.false_eq_true, if_false, iff_true]
    split
    · exact isNaN_undefined_add
    · decide +kernel

/-- Numbers are above zero or at most zero. -/
theorem not_le_zero_iff (number : value.isNaN = false) : ¬ value ≤ 0 ↔ 0 < value := by
  constructor
  · exact pos_of_not_le_zero number
  · intro positive
    rw [zero_lt_iff] at positive
    rw [le_zero_iff]
    cases shape : value.toModel.unpack with
    | notANumber => exact nofun
    | zero sign => rw [shape] at positive; cases positive
    | infinity sign => cases sign with
      | positive => exact nofun
      | negative => rw [shape] at positive; cases positive
    | finite sign significand exponent above => cases sign with
      | positive => exact nofun
      | negative => rw [shape] at positive; cases positive

/-- Only numbers are above zero. -/
theorem isNaN_of_pos (positive : 0 < value) : value.isNaN = false := by
  rw [zero_lt_iff] at positive
  change value.toModel.unpack.isNaN = false
  cases shape : value.toModel.unpack with
  | notANumber => rw [shape] at positive; cases positive
  | _ => rfl

end Operands

end DeskCalculator

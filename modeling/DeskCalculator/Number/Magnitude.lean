namespace DeskCalculator

/-!
# Exact magnitudes

A finite float is a sign and a magnitude `significand * 2 ^ exponent`.  The
questions that must be answered without any rounding are asked of the
magnitude: whether it is a whole number, what it leaves when divided by
another, and which quotient of natural numbers it is.  Nothing here depends on
a float format.
-/

-- powers and sums of natural numbers are those of the core library, also
-- where more algebra is in view
attribute [scoped instance (2000)] instPowNat Zero.ofOfNat0

/-- The non-negative number `significand * 2 ^ exponent`. -/
structure Magnitude where
  significand : Nat
  exponent : Int
deriving Repr, DecidableEq

namespace Magnitude

/-- Numerator of the magnitude as a quotient of natural numbers. -/
def numerator (magnitude : Magnitude) : Nat :=
  magnitude.significand * 2 ^ magnitude.exponent.toNat

/-- Denominator of the magnitude as a quotient of natural numbers; a power of
two, and one as soon as the exponent is not negative. -/
def denominator (magnitude : Magnitude) : Nat :=
  2 ^ (-magnitude.exponent).toNat

/-- Whether the magnitude is a whole number. -/
def isWhole (magnitude : Magnitude) : Bool :=
  magnitude.numerator % magnitude.denominator == 0

/-- The significand of the same number written with the exponent `lower`.  The
number is unchanged whenever `lower` does not exceed the exponent. -/
def significandAt (magnitude : Magnitude) (lower : Int) : Nat :=
  magnitude.significand * 2 ^ (magnitude.exponent - lower).toNat

/-- What is left of `dividend` after taking away `divisor` as often as it
fits.  Both are first written with their smaller exponent, so that the
remainder of the significands is the exact remainder of the numbers. -/
def remainder (dividend divisor : Magnitude) : Magnitude :=
  let shared := min dividend.exponent divisor.exponent
  ⟨dividend.significandAt shared % divisor.significandAt shared, shared⟩

/-- A magnitude whose exponent is not negative is a whole number. -/
theorem isWhole_of_exponent_nonneg (magnitude : Magnitude)
    (nonneg : 0 ≤ magnitude.exponent) : magnitude.isWhole = true := by
  have isOne : magnitude.denominator = 1 := by
    rw [denominator, Int.toNat_of_nonpos (Int.neg_nonpos_of_nonneg nonneg), Nat.pow_zero]
  simp [isWhole, isOne, Nat.mod_one]

theorem denominator_pos (magnitude : Magnitude) : 0 < magnitude.denominator :=
  Nat.pow_pos (by decide)

end Magnitude

end DeskCalculator

import DeskCalculator.Number.Magnitude

namespace DeskCalculator

/-!
# What a float stands for

`Exact.ofFloat` reads a float without rounding: it is no number at all, an
infinity with a sign, or a sign and an exact magnitude.  The other direction
rounds: `Exact.toFloat` and `nearestQuotient` give the float nearest to an
exact number, a half going to the even significand.  There is one float that
is no number, so reading and writing it loses nothing.
-/

/-- The exact meaning of a float.  Zero is finite and has a sign. -/
inductive Exact where
  | undefined
  | infinite (negative : Bool)
  | finite (negative : Bool) (magnitude : Magnitude)
deriving Repr, DecidableEq

namespace Exact

open Float.Model (UnpackedFloat)

/-- Whether a sign of the float format is the negative one. -/
def isNegative : UnpackedFloat.Sign -> Bool
  | .negative => true
  | .positive => false

/-- The sign of the float format for a negative or non-negative number. -/
def signOf (negative : Bool) : UnpackedFloat.Sign :=
  if negative then .negative else .positive

/-- Reads a float exactly. -/
def ofFloat (value : Float) : Exact :=
  match value.toModel.unpack with
  | .notANumber => .undefined
  | .infinity sign => .infinite (isNegative sign)
  | .zero sign => .finite (isNegative sign) ⟨0, 0⟩
  | .finite sign significand exponent _ => .finite (isNegative sign) ⟨significand, exponent⟩

/-- The float nearest to what is described, a half going to the even
significand; too large a magnitude becomes an infinity. -/
def toFloat : Exact -> Float
  | .undefined => .ofModel (.pack .notANumber)
  | .infinite negative => .ofModel (.pack (.infinity (signOf negative)))
  | .finite negative magnitude =>
      .ofModel (.pack (.round .binary64 (signOf negative) magnitude.significand magnitude.exponent))

end Exact

/-- A natural number as an exact operand of float division. -/
def wholeOperand (count : Nat) : Float.Model.UnpackedFloat :=
  if positive : 0 < count then .finite .positive count 0 positive else .zero .positive

/-- The float nearest to the quotient of two natural numbers of any size, a
half going to the even significand. -/
def nearestQuotient (numerator denominator : Nat) : Float :=
  .ofModel (.pack (.div .binary64 (wholeOperand numerator) (wholeOperand denominator)))

/-- Whether a float is a whole number; infinities and undefined values are not. -/
def isWhole (value : Float) : Bool :=
  match Exact.ofFloat value with
  | .finite _ magnitude => magnitude.isWhole
  | _ => false

/-- The remainder that goes with the quotient cut off toward zero.  It is
exact, and it carries the sign of the dividend.  A finite dividend is its own
remainder by an infinite divisor; by zero, or of an infinity, there is none. -/
def truncatedRemainder (dividend divisor : Float) : Float :=
  match Exact.ofFloat dividend, Exact.ofFloat divisor with
  | .finite negative magnitude, .finite _ unit =>
      if unit.significand = 0 then
        Exact.undefined.toFloat
      else
        (Exact.finite negative (magnitude.remainder unit)).toFloat
  | .finite _ _, .infinite _ => dividend
  | _, _ => Exact.undefined.toFloat

end DeskCalculator

import DeskCalculator.Numeral

namespace DeskCalculator

/-!
# Rounding to a fixed number of places

A quotient of natural numbers is rounded to the nearest whole number, a half
going to the even neighbour; a magnitude is rounded to decimals by rounding
its multiple.  The rounding starts from the exact magnitude, so no digit has
been rounded before.
-/

/-- The whole number nearest to a quotient, a half going to the even one. -/
def roundHalfEven (numerator denominator : Nat) : Nat :=
  let below := numerator / denominator
  match compare (2 * (numerator % denominator)) denominator with
  | .lt => below
  | .eq => below + below % 2
  | .gt => below + 1

/-- The magnitude rounded to `places` decimals. -/
def Numeral.rounded (places : Nat) (magnitude : Magnitude) : Numeral :=
  ⟨roundHalfEven (magnitude.numerator * 10 ^ places) magnitude.denominator, places⟩

end DeskCalculator

import DeskCalculator.Number.Exact

namespace DeskCalculator

/-!
# Decimal numerals

A numeral is a natural number together with a count of decimal places; it has
no sign and no exponent.  Literals are read as numerals and finite results are
written as numerals, so one type carries the text of a number in both
directions.  The value of a numeral as a float is the nearest float, whatever
the number of its digits.
-/

/-- The number `digits / 10 ^ places`, written with exactly `places` decimals. -/
structure Numeral where
  digits : Nat
  places : Nat
deriving Repr, DecidableEq

namespace Numeral

/-- The numeral whose digits before and after the point are given. -/
def ofDigitChars (whole fraction : List Char) : Numeral :=
  ⟨Nat.ofDigitChars 10 (whole ++ fraction) 0, fraction.length⟩

/-- The nearest float, a half going to the even significand. -/
def toFloat (numeral : Numeral) : Float :=
  nearestQuotient numeral.digits (10 ^ numeral.places)

/-- All digits in order, with zeros in front where the digits do not reach
the place before the point. -/
def digitChars (numeral : Numeral) : List Char :=
  (Nat.toDigits 10 numeral.digits).leftpad (numeral.places + 1) '0'

/-- The digits before the point; there is at least one. -/
def wholeChars (numeral : Numeral) : List Char :=
  numeral.digitChars.take (numeral.digitChars.length - numeral.places)

/-- The digits after the point. -/
def fractionChars (numeral : Numeral) : List Char :=
  numeral.digitChars.drop (numeral.digitChars.length - numeral.places)

/-- The written numeral.  There is a point only where decimals follow it. -/
def chars (numeral : Numeral) : List Char :=
  if numeral.places = 0 then numeral.wholeChars
  else numeral.wholeChars ++ '.' :: numeral.fractionChars

/-- The written numeral as a text. -/
def text (numeral : Numeral) : String :=
  String.ofList numeral.chars

/-- Drops zeros at the end of the decimals, as far as there are any. -/
def trimDigits (digits : Nat) : Nat -> Numeral
  | 0 => ⟨digits, 0⟩
  | places + 1 =>
      if digits % 10 = 0 then trimDigits (digits / 10) places else ⟨digits, places + 1⟩

/-- The same number without zeros at the end of its decimals. -/
def trim (numeral : Numeral) : Numeral :=
  trimDigits numeral.digits numeral.places

theorem wholeChars_append_fractionChars (numeral : Numeral) :
    numeral.wholeChars ++ numeral.fractionChars = numeral.digitChars :=
  List.take_append_drop _ _

theorem length_fractionChars (numeral : Numeral) :
    numeral.fractionChars.length = numeral.places := by
  have enough : numeral.places + 1 ≤ numeral.digitChars.length := by
    simp only [digitChars, List.leftpad, List.length_append, List.length_replicate]
    omega
  rw [fractionChars, List.length_drop]
  omega

theorem ofDigitChars_digitChars (numeral : Numeral) :
    Nat.ofDigitChars 10 numeral.digitChars 0 = numeral.digits := by
  rw [digitChars, List.leftpad, Nat.ofDigitChars_append, Nat.ofDigitChars_replicate_zero,
    Nat.mul_zero, Nat.ofDigitChars_ten_toDigits]

/-- Reading the written digits gives the numeral back. -/
theorem ofDigitChars_wholeChars_fractionChars (numeral : Numeral) :
    ofDigitChars numeral.wholeChars numeral.fractionChars = numeral := by
  rw [ofDigitChars, wholeChars_append_fractionChars, ofDigitChars_digitChars,
    length_fractionChars]

/-- Dropping zeros at the end leaves the number as it is. -/
theorem trimDigits_value (digits places : Nat) :
    (trimDigits digits places).digits * 10 ^ places =
      digits * 10 ^ (trimDigits digits places).places := by
  induction places generalizing digits with
  | zero => rfl
  | succ places ih =>
      by_cases zeroLast : digits % 10 = 0
      · have shorter : digits / 10 * 10 = digits :=
          Nat.div_mul_cancel (Nat.dvd_of_mod_eq_zero zeroLast)
        calc (trimDigits digits (places + 1)).digits * 10 ^ (places + 1)
            = (trimDigits (digits / 10) places).digits * 10 ^ places * 10 := by
              rw [trimDigits, if_pos zeroLast, Nat.pow_succ, Nat.mul_assoc]
          _ = digits / 10 * 10 ^ (trimDigits (digits / 10) places).places * 10 := by rw [ih]
          _ = digits / 10 * 10 * 10 ^ (trimDigits (digits / 10) places).places := by
              rw [Nat.mul_right_comm]
          _ = digits * 10 ^ (trimDigits digits (places + 1)).places := by
              rw [shorter, trimDigits, if_pos zeroLast]
      · rw [trimDigits, if_neg zeroLast]

/-- What is left after dropping zeros does not end in a zero decimal. -/
theorem trimDigits_last (digits places : Nat) (decimals : (trimDigits digits places).places ≠ 0) :
    (trimDigits digits places).digits % 10 ≠ 0 := by
  induction places generalizing digits with
  | zero => exact absurd rfl decimals
  | succ places ih =>
      by_cases zeroLast : digits % 10 = 0
      · rw [trimDigits, if_pos zeroLast] at decimals ⊢
        exact ih (digits / 10) decimals
      · rw [trimDigits, if_neg zeroLast]
        exact zeroLast

end Numeral

end DeskCalculator

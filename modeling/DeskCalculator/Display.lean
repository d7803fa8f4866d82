import DeskCalculator.Numeral.Rounding
import DeskCalculator.Numeral.Shortest

namespace DeskCalculator

/-!
# Writing numbers

A number is written in one of two ways.  In expressions and messages it is the
shortest numeral that reads back, with its sign, never with an exponent.  As a
result it is rounded to ten decimals without zeros at the end, and there is no
negative zero; whole results keep all their digits.
-/

/-- Puts a minus sign in front of the text of a negative number. -/
def withSign (negative : Bool) (text : String) : String :=
  if negative then "-" ++ text else text

/-- The text of a float that is no number; it has no sign. -/
def undefinedText : String := "NaN"

/-- The text of an infinity. -/
def infiniteText (negative : Bool) : String :=
  withSign negative "inf"

/-- The shortest text that reads back, as it stands in expressions and
messages.  Negative zero keeps its sign. -/
def plainText (value : Float) : String :=
  match Exact.ofFloat value with
  | .undefined => undefinedText
  | .infinite negative => infiniteText negative
  | .finite negative magnitude => withSign negative (Numeral.shortest magnitude).text

/-- Decimal places kept of a result that is not a whole number. -/
def displayPlaces : Nat := 10

/-- The numeral shown for the magnitude of a finite result. -/
def displayNumeral (magnitude : Magnitude) : Numeral :=
  if magnitude.isWhole then Numeral.shortest magnitude
  else (Numeral.rounded displayPlaces magnitude).trim

/-- The text of a result.  A result that is zero, or that rounds to zero, has
no sign. -/
def displayText (value : Float) : String :=
  match Exact.ofFloat value with
  | .undefined => undefinedText
  | .infinite negative => infiniteText negative
  | .finite negative magnitude =>
      let numeral := displayNumeral magnitude
      withSign (negative && numeral.digits != 0) numeral.text

end DeskCalculator

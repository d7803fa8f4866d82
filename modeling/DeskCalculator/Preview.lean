import DeskCalculator.Calculator
import DeskCalculator.Display
import DeskCalculator.Text.WhiteSpace

namespace DeskCalculator

/-!
# Live previews

While an expression is typed, a display shows what it amounts to so far.  A
text that ends in an operator, an opening parenthesis or a comma is not wrong
but unfinished, and it is not evaluated.
-/

/-- What a display shows for the text typed so far. -/
inductive Preview where
  | empty
  | pending
  | value (text : String)
  | failed (error : CalculationError)
deriving DecidableEq

namespace Preview

/-- Whether a character at the end leaves the expression unfinished.  The
glyphs are among these as well as their spellings. -/
def isUnfinished (character : Char) : Bool :=
  ['+', '-', '×', '÷', '*', '/', '%', '^', '(', ','].contains character

/-- What a calculator shows for a text.  Blanks at its ends do not count. -/
def ofText [Elementary] (calculator : Calculator) (text : String) : Preview :=
  let trimmed := trimText text
  match trimmed.toList.getLast? with
  | none => empty
  | some character =>
      if isUnfinished character then
        pending
      else
        match calculator.evaluate trimmed with
        | .ok result => value (displayText result)
        | .error error => failed error

/-- The text on the display. -/
def text : Preview -> String
  | empty | pending => "0"
  | value text => text
  | failed _ => "Error"

/-- The beginnings of some characters, one character longer each time; the
empty one is left out and the whole is the last. -/
def beginnings : List Char -> List (List Char)
  | [] => []
  | character :: rest => [character] :: (beginnings rest).map (character :: ·)

/-- What is shown while a text is typed, with the text so far. -/
def typing (calculator : Calculator) (text : String) : List (String × Preview) :=
  ((beginnings text.toList).map String.ofList).map fun typed => (typed, ofText calculator typed)

end Preview

end DeskCalculator

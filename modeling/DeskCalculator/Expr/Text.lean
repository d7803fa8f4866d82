import DeskCalculator.Display
import DeskCalculator.Expr

namespace DeskCalculator
namespace Expr

/-!
# Expressions as text

The text of a tree shows its grouping: every signed operand and every pair of
operands stands in parentheses of its own.  Literals are written so that they
read back, and a negative literal keeps its sign without parentheses.
-/

mutual

/-- The text of a tree, with all grouping explicit. -/
def text : Expr -> String
  | .literal value => plainText value
  | .signed sign operand => "(" ++ sign.symbol ++ operand.text ++ ")"
  | .binary operator left right =>
      "(" ++ left.text ++ " " ++ operator.symbol ++ " " ++ right.text ++ ")"
  | .call name arguments => name ++ "(" ++ argumentsText arguments ++ ")"

/-- The texts of several trees with commas between them. -/
def argumentsText : List Expr -> String
  | [] => ""
  | [argument] => argument.text
  | argument :: arguments => argument.text ++ ", " ++ argumentsText arguments

end

end Expr
end DeskCalculator

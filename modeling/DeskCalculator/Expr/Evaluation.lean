import DeskCalculator.Expr
import DeskCalculator.Function

namespace DeskCalculator
namespace Expr

/-!
# Evaluation

Operands and arguments are evaluated from left to right, and the first failure
is the outcome.  A function is looked up only after all its arguments have
values.  A node below the limit is not evaluated at all; the root is at level
one.
-/

mutual

/-- The value of a tree whose root is at `level`. -/
def evaluateAt [Elementary] (limit level : Nat) (tree : Expr) : Except EvaluationError Float :=
  if limit < level then
    .error (.tooDeep limit)
  else
    match tree with
    | .literal value => .ok value
    | .signed sign operand => do
        sign.evaluate (← evaluateAt limit (level + 1) operand)
    | .binary operator left right => do
        let leftValue ← evaluateAt limit (level + 1) left
        let rightValue ← evaluateAt limit (level + 1) right
        operator.apply leftValue rightValue
    | .call name arguments => do
        Function.callByName name (← evaluateAllAt limit (level + 1) arguments)

/-- The values of several trees whose roots are at `level`. -/
def evaluateAllAt [Elementary] (limit level : Nat) :
    List Expr -> Except EvaluationError (List Float)
  | [] => return []
  | argument :: arguments => do
      let value ← evaluateAt limit level argument
      return value :: (← evaluateAllAt limit level arguments)

end

/-- The value of a tree. -/
def evaluate [Elementary] (limit : Nat) (tree : Expr) : Except EvaluationError Float :=
  evaluateAt limit 1 tree

end Expr
end DeskCalculator

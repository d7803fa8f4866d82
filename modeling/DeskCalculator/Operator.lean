namespace DeskCalculator

/-!
# Operators and signs

Six operators stand between two operands and two signs stand in front of one.
An operator binds by its strength: a stronger one takes its operands first.
Operators of equal strength group to the left, except that powers group to the
right.  A sign binds more strongly than every operator.
-/

/-- An operator between two operands. -/
inductive Operator where
  | add
  | subtract
  | multiply
  | divide
  | modulo
  | power
deriving Repr, DecidableEq

namespace Operator

/-- Every operator, in the order in which they are listed. -/
def all : List Operator :=
  [add, subtract, multiply, divide, modulo, power]

/-- How the operator is written. -/
def symbol : Operator -> String
  | add => "+"
  | subtract => "-"
  | multiply => "*"
  | divide => "/"
  | modulo => "%"
  | power => "**"

/-- How strongly the operator binds its operands. -/
def strength : Operator -> Nat
  | add | subtract => 1
  | multiply | divide | modulo => 2
  | power => 3

/-- Whether `a op b` is complete when the operator `next` follows it, so that
the whole of it becomes the left operand of `next`. -/
def yieldsTo (operator next : Operator) : Bool :=
  next.strength < operator.strength || (next.strength == operator.strength && next != power)

/-- The listing of the operators leaves none out. -/
theorem mem_all (operator : Operator) : operator ∈ all := by
  cases operator <;> decide

end Operator

/-- A sign in front of an operand. -/
inductive Sign where
  | plus
  | minus
deriving Repr, DecidableEq

namespace Sign

/-- Every sign, in the order in which they are listed. -/
def all : List Sign :=
  [plus, minus]

/-- How the sign is written. -/
def symbol : Sign -> String
  | plus => "+"
  | minus => "-"

/-- The sign that is written like an operator, if there is one. -/
def ofOperator? : Operator -> Option Sign
  | .add => some plus
  | .subtract => some minus
  | _ => none

end Sign

end DeskCalculator

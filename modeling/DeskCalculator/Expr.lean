import DeskCalculator.Operator

namespace DeskCalculator

/-!
# Expressions

An expression is a literal, a signed operand, two operands with an operator
between them, or a call of a named function.  Parentheses leave no trace: the
tree is the grouping.  The height of a tree is the number of nodes on its
longest path from the root to a leaf.
-/

/-- The tree of an arithmetic expression. -/
inductive Expr where
  | literal (value : Float)
  | signed (sign : Sign) (operand : Expr)
  | binary (operator : Operator) (left right : Expr)
  | call (name : String) (arguments : List Expr)

namespace Expr

mutual

/-- Number of nodes on the longest path from the root to a leaf. -/
def height : Expr -> Nat
  | .literal _ => 1
  | .signed _ operand => operand.height + 1
  | .binary _ left right => max left.height right.height + 1
  | .call _ arguments => tallest arguments + 1

/-- Height of the tallest of several trees, zero if there is none. -/
def tallest : List Expr -> Nat
  | [] => 0
  | argument :: arguments => max argument.height (tallest arguments)

end

mutual

/-- Whether two trees have the same shape and equal literals.  Literals are
compared as numbers: an undefined one differs from itself, and the two zeros
are equal. -/
def sameAs : Expr -> Expr -> Bool
  | .literal value, .literal other => value == other
  | .signed sign operand, .signed sign' operand' => sign == sign' && sameAs operand operand'
  | .binary operator left right, .binary operator' left' right' =>
      operator == operator' && sameAs left left' && sameAs right right'
  | .call name arguments, .call name' arguments' => name == name' && allSame arguments arguments'
  | _, _ => false

/-- Whether two lists have the same length and the same trees in order. -/
def allSame : List Expr -> List Expr -> Bool
  | [], [] => true
  | argument :: arguments, argument' :: arguments' =>
      sameAs argument argument' && allSame arguments arguments'
  | _, _ => false

end

instance : BEq Expr := ⟨sameAs⟩

/-- Every tree has at least its root. -/
theorem height_pos (tree : Expr) : 0 < tree.height := by
  cases tree <;> simp [height]

/-- No argument is taller than the tallest. -/
theorem height_le_tallest {argument : Expr} {arguments : List Expr}
    (member : argument ∈ arguments) : argument.height ≤ tallest arguments := by
  induction arguments with
  | nil => cases member
  | cons first rest ih =>
      rcases List.mem_cons.mp member with rfl | later
      · exact Nat.le_max_left _ _
      · exact Nat.le_trans (ih later) (Nat.le_max_right _ _)

end Expr

end DeskCalculator

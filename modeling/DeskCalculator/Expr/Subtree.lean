import DeskCalculator.Error
import DeskCalculator.Expr

namespace DeskCalculator

/-!
# Bounded nesting

One limit bounds two things while an expression is being read: how many
constructs are open around a place, and how tall the trees are that get built.
`Nesting` counts the first and refuses to go deeper than the limit.  `Subtree`
carries the second along, so that building a node never walks the trees below
it; that the height carried is the height of the tree is part of the type.  A
single literal is not checked, since it opens nothing.
-/

/-- How many constructs are open around a place, and how many may be. -/
structure Nesting where
  limit : Nat
  level : Nat
deriving Repr, DecidableEq

namespace Nesting

/-- The outermost place, inside no construct. -/
def outermost (limit : Nat) : Nesting :=
  ⟨limit, 0⟩

/-- The place inside one more construct, which opens at `position`. -/
def descend (nesting : Nesting) (position : Nat) : Except SyntaxError Nesting :=
  if nesting.level < nesting.limit then
    .ok ⟨nesting.limit, nesting.level + 1⟩
  else
    .error (.tooDeep nesting.limit position)

end Nesting

/-- A tree together with its height. -/
structure Subtree where
  expr : Expr
  height : Nat
  height_eq : height = expr.height

namespace Subtree

/-- A literal, of height one. -/
def literal (value : Float) : Subtree :=
  ⟨.literal value, 1, rfl⟩

/-- The trees of several subtrees, in order. -/
def exprs (subtrees : List Subtree) : List Expr :=
  subtrees.map Subtree.expr

/-- Height of the tallest of several subtrees, zero if there is none. -/
def tallest : List Subtree -> Nat
  | [] => 0
  | subtree :: subtrees => max subtree.height (tallest subtrees)

theorem tallest_eq (subtrees : List Subtree) :
    tallest subtrees = Expr.tallest (exprs subtrees) := by
  induction subtrees with
  | nil => rfl
  | cons subtree subtrees ih => rw [tallest, ih, subtree.height_eq]; rfl

/-- Lets a tree pass unless it is taller than the limit. -/
def checked (limit position : Nat) (tree : Subtree) : Except SyntaxError Subtree :=
  if tree.height ≤ limit then .ok tree else .error (.tooDeep limit position)

/-- A sign in front of an operand; the sign stands at `position`. -/
def signed (limit : Nat) (sign : Sign) (operand : Subtree) (position : Nat) :
    Except SyntaxError Subtree :=
  checked limit position
    ⟨.signed sign operand.expr, operand.height + 1, by rw [operand.height_eq]; rfl⟩

/-- An operator between two operands; the operator stands at `position`. -/
def binary (limit : Nat) (operator : Operator) (left right : Subtree) (position : Nat) :
    Except SyntaxError Subtree :=
  checked limit position
    ⟨.binary operator left.expr right.expr, max left.height right.height + 1, by
      rw [left.height_eq, right.height_eq]; rfl⟩

/-- A call of a named function; the name stands at `position`. -/
def call (limit : Nat) (name : String) (arguments : List Subtree) (position : Nat) :
    Except SyntaxError Subtree :=
  checked limit position
    ⟨.call name (exprs arguments), tallest arguments + 1, by rw [tallest_eq]; rfl⟩

/-- A tree passes the check exactly if it is not taller than the limit. -/
theorem checked_eq_ok_iff {limit position : Nat} {tree result : Subtree} :
    checked limit position tree = .ok result ↔ tree = result ∧ tree.height ≤ limit := by
  by_cases fits : tree.height ≤ limit
  · simp [checked, fits]
  · simp only [checked, fits, if_false, reduceCtorEq, and_false]

end Subtree

end DeskCalculator

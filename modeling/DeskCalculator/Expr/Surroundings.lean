import DeskCalculator.Expr.Subtree

namespace DeskCalculator

/-!
# What surrounds a place in an expression

Reading an expression from left to right leaves constructs unfinished.  Those
that lack their last operand are pending, and those that lack their closing
parenthesis are enclosures.  Both are kept innermost first.  Signs, right
sides of powers, groups and argument lists each open one level of nesting;
the level of a place is counted from what surrounds it.
-/

/-- A construct that lacks its last operand.  It began, or its operator
stands, at `position`. -/
inductive Pending where
  | signed (sign : Sign) (position : Nat)
  | binary (operator : Operator) (left : Subtree) (position : Nat)

namespace Pending

/-- Where the construct began, or its operator stands. -/
def position : Pending -> Nat
  | signed _ position | binary _ _ position => position

/-- Whether the construct is a level of nesting of its own. -/
def nests : Pending -> Bool
  | signed _ _ => true
  | binary operator _ _ => operator == .power

/-- Whether the construct is filled before the operator `next` takes its left
operand. -/
def yieldsTo (next : Operator) : Pending -> Bool
  | signed _ _ => true
  | binary operator _ _ => operator.yieldsTo next

/-- The construct with its last operand. -/
def fill (limit : Nat) (operand : Subtree) : Pending -> Except SyntaxError Subtree
  | signed sign position => Subtree.signed limit sign operand position
  | binary operator left position => Subtree.binary limit operator left operand position

/-- Fills several constructs, innermost first; each becomes the operand of
the one around it. -/
def fillAll (limit : Nat) (operand : Subtree) (pending : List Pending) :
    Except SyntaxError Subtree :=
  pending.foldlM (fill limit) operand

end Pending

/-- The name of a function at the place where it is called. -/
structure Callee where
  name : String
  position : Nat

/-- A construct that lacks its closing parenthesis; the opening one stands at
`opened`.  The arguments of a call are those before the last comma, the last
one first. -/
inductive Enclosure where
  | group (opened : Nat)
  | call (callee : Callee) (opened : Nat) (reversedArguments : List Subtree)

/-- Where the opening parenthesis stands. -/
def Enclosure.opened : Enclosure -> Nat
  | group opened => opened
  | call _ opened _ => opened

/-- What surrounds a place, innermost first: the constructs pending inside the
innermost enclosure, then each enclosure with those pending around it. -/
structure Surroundings where
  pending : List Pending
  enclosures : List (Enclosure × List Pending)

namespace Surroundings

/-- Nothing at all. -/
def outermost : Surroundings :=
  ⟨[], []⟩

/-- Number of levels of nesting around the place. -/
def level (around : Surroundings) : Nat :=
  around.pending.countP Pending.nests +
    (around.enclosures.map fun enclosed => enclosed.2.countP Pending.nests + 1).sum

/-- The nesting of the place under a limit. -/
def nesting (limit : Nat) (around : Surroundings) : Nesting :=
  ⟨limit, around.level⟩

/-- The surroundings inside one more pending construct. -/
def hold (around : Surroundings) (pending : Pending) : Surroundings :=
  { around with pending := pending :: around.pending }

/-- The surroundings inside one more enclosure. -/
def enclose (around : Surroundings) (enclosure : Enclosure) : Surroundings :=
  ⟨[], (enclosure, around.pending) :: around.enclosures⟩

/-- Holding a construct adds a level exactly if the construct is one. -/
theorem level_hold (around : Surroundings) (pending : Pending) :
    (around.hold pending).level = around.level + if pending.nests then 1 else 0 := by
  simp only [level, hold, List.countP_cons]
  omega

/-- An enclosure is always a level of its own. -/
theorem level_enclose (around : Surroundings) (enclosure : Enclosure) :
    (around.enclose enclosure).level = around.level + 1 := by
  simp only [level, enclose, List.countP_nil, List.map_cons, List.sum_cons]
  omega

end Surroundings

end DeskCalculator

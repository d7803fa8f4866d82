namespace DeskCalculator

/-!
# Argument counts

A function takes a fixed number of arguments or any number between two bounds.
-/

/-- How many arguments a function takes. -/
inductive Arity where
  | exactly (count : Nat)
  | between (least most : Nat)
deriving Repr, DecidableEq

namespace Arity

/-- Whether a call with `count` arguments is allowed.  Both bounds are. -/
def admits : Arity -> Nat -> Bool
  | exactly expected, count => count == expected
  | between least most, count => least ≤ count && count ≤ most

/-- How messages and listings refer to the arity. -/
def text : Arity -> String
  | exactly count => toString count
  | between least most => toString least ++ " to " ++ toString most

end Arity

end DeskCalculator

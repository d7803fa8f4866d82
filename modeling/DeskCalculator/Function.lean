import DeskCalculator.Arithmetic

namespace DeskCalculator

/-!
# Named functions

The functions that an expression may call are those of one table; a name that
is not in the table is refused, whatever its arguments are.  Each function
checks the count of its arguments itself, so that it is total also where it is
applied without a call.
-/

/-- A function with the name under which it is called. -/
structure Function where
  name : String
  arity : Arity
  apply : List Float -> Except EvaluationError Float

/-- The square root of a number that is not negative. -/
def squareRoot (value : Float) : Except EvaluationError Float :=
  if value < 0 then .error (.domain "square root of a negative number") else .ok value.sqrt

/-- The natural logarithm of a positive number. -/
def naturalLogarithm [Elementary] (value : Float) : Except EvaluationError Float :=
  if value ≤ 0 then .error (.domain "logarithm of a non-positive number")
  else .ok (Elementary.logarithm value)

/-- The logarithm to a given base, as the quotient of two natural ones.  To
the base one there is none. -/
def logarithm [Elementary] (value base : Float) : Except EvaluationError Float := do
  let ofValue ← naturalLogarithm value
  let ofBase ← naturalLogarithm base
  if ofBase == 0 then
    throw .divisionByZero
  ensureDefined (ofValue / ofBase) [value, base] "undefined logarithm"

namespace Function

/-- A function of one argument, which fails for any other count. -/
def ofUnary (name : String) (compute : Float -> Except EvaluationError Float) : Function where
  name := name
  arity := .exactly 1
  apply
    | [value] => compute value
    | values => .error (.argumentCount name (.exactly 1) values.length)

/-- A function of one argument that is undefined only where its value is no
number. -/
def ofReal (name : String) (compute : Float -> Float) : Function :=
  ofUnary name fun value => ensureDefined (compute value) [value] (name ++ " is undefined here")

/-- The logarithm of its first argument, natural or to the base given as the
second. -/
def log [Elementary] : Function where
  name := "log"
  arity := .between 1 2
  apply
    | [value] => naturalLogarithm value
    | [value, base] => logarithm value base
    | values => .error (.argumentCount "log" (.between 1 2) values.length)

/-- All functions that may be called, in the order in which they are listed. -/
def table [Elementary] : List Function :=
  [ofUnary "sqrt" squareRoot, ofReal "sin" Elementary.sine, ofReal "cos" Elementary.cosine,
    ofReal "tan" Elementary.tangent, log, ofReal "abs" Float.abs]

/-- The function called by a name.  Upper and lower case differ. -/
def find? [Elementary] (name : String) : Option Function :=
  table.find? fun function => function.name == name

/-- Calls a function by its name. -/
def callByName [Elementary] (name : String) (values : List Float) :
    Except EvaluationError Float :=
  match find? name with
  | none => .error (.unsupportedFunction name)
  | some function =>
      if function.arity.admits values.length then
        function.apply values
      else
        .error (.argumentCount function.name function.arity values.length)

end Function

end DeskCalculator

import DeskCalculator.Elementary
import DeskCalculator.Error
import DeskCalculator.Number.Exact

namespace DeskCalculator

/-!
# Arithmetic over the reals

Operators and signs act on floats, and a result stands for a real number or
for an infinity that came of a magnitude too large.  Where the real result
does not exist the operation fails with a cause: no operation makes an
undefined value out of defined ones.  The modulus is floored, so that it has
the sign of the divisor.

What may be applied is listed in one table for the operators and in another
for the signs, and nothing is applied that its table does not have.
-/

/-- A result, unless it is undefined although no operand is. -/
def ensureDefined (value : Float) (operands : List Float) (details : String) :
    Except EvaluationError Float :=
  if value.isNaN && !operands.any Float.isNaN then .error (.domain details) else .ok value

/-- Zero with the sign of another number. -/
def zeroLike (value : Float) : Float :=
  match Exact.ofFloat value with
  | .finite negative _ | .infinite negative => (Exact.finite negative ⟨0, 0⟩).toFloat
  | .undefined => (Exact.finite false ⟨0, 0⟩).toFloat

/-- The remainder that goes with the quotient rounded down.  It differs from
the truncated one where the signs differ; a zero remainder takes the sign of
the divisor. -/
def flooredRemainder (dividend divisor : Float) : Float :=
  let remainder := truncatedRemainder dividend divisor
  if remainder == 0 then zeroLike divisor
  else if decide (remainder < 0) != decide (divisor < 0) then remainder + divisor
  else remainder

/-- The sum of two numbers. -/
def checkedSum (left right : Float) : Except EvaluationError Float :=
  ensureDefined (left + right) [left, right] "undefined sum"

/-- The difference of two numbers. -/
def checkedDifference (left right : Float) : Except EvaluationError Float :=
  ensureDefined (left - right) [left, right] "undefined difference"

/-- The product of two numbers. -/
def checkedProduct (left right : Float) : Except EvaluationError Float :=
  ensureDefined (left * right) [left, right] "undefined product"

/-- The quotient of two numbers.  The divisor must not be a zero of either
sign. -/
def checkedQuotient (left right : Float) : Except EvaluationError Float :=
  if right == 0 then .error .divisionByZero
  else ensureDefined (left / right) [left, right] "undefined quotient"

/-- The floored remainder of two numbers, for the same divisors. -/
def checkedRemainder (left right : Float) : Except EvaluationError Float :=
  if right == 0 then .error .divisionByZero
  else ensureDefined (flooredRemainder left right) [left, right] "undefined remainder"

/-- A real power.  Zero has no negative power and a negative number no
fractional one; a finite power must not be too large for a float. -/
def realPower [Elementary] (base exponent : Float) : Except EvaluationError Float :=
  if base == 0 && exponent < 0 then
    .error .divisionByZero
  else if base < 0 && exponent.isFinite && !isWhole exponent then
    .error (.domain "negative number raised to a fractional power")
  else
    let result := Elementary.power base exponent
    if result.isInf && base.isFinite && exponent.isFinite then
      .error (.domain "power result too large")
    else
      ensureDefined result [base, exponent] "undefined power"

/-! ## Tables -/

/-- What a table has for an operator or a sign, which is refused by its symbol
if there is nothing. -/
def lookUp {Key Computation : Type} [BEq Key] (table : List (Key × Computation))
    (symbol : Key -> String) (key : Key) : Except EvaluationError Computation :=
  match table.lookup key with
  | none => .error (.unsupportedOperator (symbol key))
  | some computation => .ok computation

/-- What is listed is found. -/
theorem lookUp_of_mem {Key Computation : Type} [BEq Key] [LawfulBEq Key]
    {table : List (Key × Computation)} (symbol : Key -> String) {key : Key}
    (listed : key ∈ table.map Prod.fst) : Exists fun computation : Computation =>
      (key, computation) ∈ table ∧ lookUp table symbol key = .ok computation := by
  obtain ⟨entry, member, rfl⟩ := List.mem_map.mp listed
  have isFound := List.lookup_isSome_iff.mpr ⟨entry, member, beq_self_eq_true entry.1⟩
  obtain ⟨computation, found⟩ := Option.isSome_iff_exists.mp isFound
  obtain ⟨earlier, later, split, _⟩ := List.lookup_eq_some_iff.mp found
  refine ⟨computation, ?_, ?_⟩
  · rw [split]
    exact List.mem_append_right _ (List.mem_cons_self ..)
  · rw [lookUp, found]

namespace Operator

/-- All operators that may be applied, in the order in which they are listed. -/
def table [Elementary] : List (Operator × (Float -> Float -> Except EvaluationError Float)) :=
  [(add, checkedSum), (subtract, checkedDifference), (multiply, checkedProduct),
    (divide, checkedQuotient), (modulo, checkedRemainder), (power, realPower)]

/-- Applies an operator to its operands. -/
def apply [Elementary] (operator : Operator) (left right : Float) :
    Except EvaluationError Float := do
  let computation ← lookUp table symbol operator
  computation left right

/-- Every operator is in the table, so none is refused. -/
theorem exists_apply_eq [Elementary] (operator : Operator) :
    Exists fun computation : Float -> Float -> Except EvaluationError Float =>
      (operator, computation) ∈ table ∧ operator.apply = computation := by
  have listed : operator ∈ table.map Prod.fst := mem_all operator
  obtain ⟨computation, member, found⟩ := lookUp_of_mem symbol listed
  refine ⟨computation, member, ?_⟩
  funext left right
  rw [apply, found]
  rfl

end Operator

namespace Sign

/-- What a sign makes of its operand. -/
def apply : Sign -> Float -> Float
  | plus, operand => operand
  | minus, operand => -operand

/-- All signs that may be applied, in the order in which they are listed. -/
def table : List (Sign × (Float -> Except EvaluationError Float)) :=
  [(plus, fun operand => .ok (plus.apply operand)),
    (minus, fun operand => .ok (minus.apply operand))]

/-- Applies a sign of the table to its operand. -/
def evaluate (sign : Sign) (operand : Float) : Except EvaluationError Float := do
  let computation ← lookUp table symbol sign
  computation operand

/-- Every sign is in the table, and none fails. -/
@[simp]
theorem evaluate_eq (sign : Sign) (operand : Float) :
    sign.evaluate operand = .ok (sign.apply operand) := by
  cases sign <;> rfl

end Sign

end DeskCalculator

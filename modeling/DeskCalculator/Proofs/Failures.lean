import DeskCalculator.Function
import DeskCalculator.Proofs.Outcome

namespace DeskCalculator

/-!
# Why an operation fails

An operator fails for a cause of arithmetic: its divisor is zero, or its result
is not defined.  A call fails for such a cause as well, or else because its name
is unknown or the number of its arguments is wrong.  The last two are found out
before the function is applied, so a function that is applied fails like an
operator.
-/

/-! ## Arithmetic -/

/-- The failures of arithmetic. -/
def EvaluationError.IsArithmetic : EvaluationError -> Prop
  | .divisionByZero | .domain _ => True
  | _ => False

/-- Where the outcome is a failure, it is one of arithmetic. -/
abbrev FailsArithmetically (outcome : Except EvaluationError Float) : Prop :=
  Outcome.Ensures EvaluationError.IsArithmetic (fun _ => True) outcome

namespace FailsArithmetically

theorem ite {condition : Prop} [Decidable condition]
    {first second : Except EvaluationError Float} (yes : FailsArithmetically first)
    (no : FailsArithmetically second) :
    FailsArithmetically (if condition then first else second) := by
  split
  · exact yes
  · exact no

theorem ensureDefined (value : Float) (operands : List Float) (details : String) :
    FailsArithmetically (ensureDefined value operands details) :=
  ite trivial trivial

theorem operator (operator : Operator) (left right : Float) :
    FailsArithmetically (operator.apply left right) := by
  obtain ⟨computation, listed, applied⟩ := operator.exists_apply_eq
  rw [applied]
  simp only [Operator.table, List.mem_cons, Prod.mk.injEq, List.not_mem_nil, or_false] at listed
  rcases listed with ⟨_, rfl⟩ | ⟨_, rfl⟩ | ⟨_, rfl⟩ | ⟨_, rfl⟩ | ⟨_, rfl⟩ | ⟨_, rfl⟩
  · exact ensureDefined _ _ _
  · exact ensureDefined _ _ _
  · exact ensureDefined _ _ _
  · exact ite trivial (ensureDefined _ _ _)
  · exact ite trivial (ensureDefined _ _ _)
  · exact ite trivial (ite trivial (ite trivial (ensureDefined _ _ _)))

theorem squareRoot (value : Float) : FailsArithmetically (squareRoot value) :=
  ite trivial trivial

theorem naturalLogarithm (value : Float) : FailsArithmetically (naturalLogarithm value) :=
  ite trivial trivial

theorem logarithm (value base : Float) : FailsArithmetically (logarithm value base) := by
  refine (naturalLogarithm value).bind fun ofValue _ => ?_
  refine (naturalLogarithm base).bind fun ofBase _ => ?_
  exact ite trivial (ensureDefined _ _ _)

theorem ofUnary {name : String} {compute : Float -> Except EvaluationError Float}
    (computed : forall value, FailsArithmetically (compute value)) {values : List Float}
    (admitted : (Function.ofUnary name compute).arity.admits values.length = true) :
    FailsArithmetically ((Function.ofUnary name compute).apply values) := by
  match values with
  | [value] => exact computed value

theorem log {values : List Float} (admitted : Function.log.arity.admits values.length = true) :
    FailsArithmetically (Function.log.apply values) := by
  match values with
  | [value] => exact naturalLogarithm value
  | [value, base] => exact logarithm value base

theorem table {function : Function} (listed : function ∈ Function.table) {values : List Float}
    (admitted : function.arity.admits values.length = true) :
    FailsArithmetically (function.apply values) := by
  simp only [Function.table, List.mem_cons, List.not_mem_nil, or_false] at listed
  rcases listed with rfl | rfl | rfl | rfl | rfl | rfl
  · exact ofUnary squareRoot admitted
  · exact ofUnary (fun value => ensureDefined _ _ _) admitted
  · exact ofUnary (fun value => ensureDefined _ _ _) admitted
  · exact ofUnary (fun value => ensureDefined _ _ _) admitted
  · exact log admitted
  · exact ofUnary (fun value => ensureDefined _ _ _) admitted

end FailsArithmetically

/-! ## Calls -/

/-- The failures of a call before its function is applied. -/
def EvaluationError.IsOfCall : EvaluationError -> Prop
  | .unsupportedFunction _ | .argumentCount _ _ _ => True
  | _ => False

/-- The failure of a call whose name or whose number of arguments is wrong. -/
inductive Function.Refuses (name : String) (count : Nat) : EvaluationError -> Prop
  | unknown : find? name = none -> Refuses name count (.unsupportedFunction name)
  | miscounted {function : Function} : find? name = some function ->
      function.arity.admits count = false ->
      Refuses name count (.argumentCount name function.arity count)

/-- A call fails because of its name or the number of its arguments, or for a
cause of arithmetic. -/
theorem Function.callByName_error {name : String} {values : List Float}
    {error : EvaluationError} (failed : callByName name values = .error error) :
    Refuses name values.length error ∨ error.IsArithmetic := by
  unfold callByName at failed
  cases found : find? name with
  | none =>
      rw [found] at failed
      cases failed
      exact .inl (.unknown found)
  | some function =>
      rw [found] at failed
      by_cases admitted : function.arity.admits values.length = true
      · have arithmetic := FailsArithmetically.table (List.mem_of_find?_eq_some found) admitted
        rw [(if_pos admitted).symm.trans failed] at arithmetic
        exact .inr arithmetic
      · have called : function.name = name := by simpa using List.find?_some found
        have refused := (if_neg admitted).symm.trans failed
        rw [called] at refused
        cases refused
        exact .inl (.miscounted found (Bool.of_not_eq_true admitted))

end DeskCalculator

import Mathlib
import DeskCalculator.Error

namespace DeskCalculator
namespace Outcome

/-!
# Outcomes taken apart

Every stage of a calculation either succeeds or fails with its cause, and the
stages are chained.  A chain succeeds only if each of its parts does, and a
relabelled failure is a failure of the part that was relabelled.
-/

variable {Cause Other Result More : Type}

theorem bind_eq_ok_iff {first : Except Cause Result} {continuation : Result -> Except Cause More}
    {final : More} :
    (first >>= continuation) = .ok final ↔
      Exists fun result : Result => first = .ok result ∧ continuation result = .ok final := by
  cases first <;> simp [bind, Except.bind]

theorem bind_eq_error_iff {first : Except Cause Result} {continuation : Result -> Except Cause More}
    {cause : Cause} :
    (first >>= continuation) = .error cause ↔ first = .error cause ∨
      Exists fun result : Result => first = .ok result ∧ continuation result = .error cause := by
  cases first <;> simp [bind, Except.bind]

theorem map_eq_ok_iff {outcome : Except Cause Result} {transform : Result -> More}
    {final : More} :
    outcome.map transform = .ok final ↔
      Exists fun result : Result => outcome = .ok result ∧ transform result = final := by
  cases outcome <;> simp [Except.map]

theorem map_eq_error_iff {outcome : Except Cause Result} {transform : Result -> More}
    {cause : Cause} : outcome.map transform = .error cause ↔ outcome = .error cause := by
  cases outcome <;> simp [Except.map]

theorem mapError_eq_ok_iff {outcome : Except Cause Result} {relabel : Cause -> Other}
    {result : Result} : outcome.mapError relabel = .ok result ↔ outcome = .ok result := by
  cases outcome <;> simp [Except.mapError]

theorem mapError_eq_error_iff {outcome : Except Cause Result} {relabel : Cause -> Other}
    {error : Other} :
    outcome.mapError relabel = .error error ↔
      Exists fun cause : Cause => outcome = .error cause ∧ relabel cause = error := by
  cases outcome <;> simp [Except.mapError]

/-- A failure has one property and a success another. -/
def Ensures (failure : Cause -> Prop) (success : Result -> Prop) : Except Cause Result -> Prop
  | .ok result => success result
  | .error cause => failure cause

/-- What the first part ensures is what the second may rely on. -/
theorem Ensures.bind {failure : Cause -> Prop} {middle : Result -> Prop} {success : More -> Prop}
    {first : Except Cause Result} {continuation : Result -> Except Cause More}
    (ensured : Ensures failure middle first)
    (later : forall result, middle result -> Ensures failure success (continuation result)) :
    Ensures failure success (first >>= continuation) := by
  cases first with
  | ok result => exact later result ensured
  | error cause => exact ensured

/-- What a success comes from may be remembered. -/
theorem Ensures.remember {failure : Cause -> Prop} {outcome : Except Cause Result}
    (ensured : Ensures failure (fun _ => True) outcome) :
    Ensures failure (fun result => outcome = .ok result) outcome := by
  cases outcome with
  | ok result => rfl
  | error cause => exact ensured

/-- Where nothing is said about failures, a chain succeeds as its last part
does. -/
theorem Ensures.ofLast {success : More -> Prop} (first : Except Cause Result)
    {continuation : Result -> Except Cause More}
    (later : forall result, Ensures (fun _ => True) success (continuation result)) :
    Ensures (fun _ => True) success (first >>= continuation) := by
  cases first with
  | ok result => exact later result
  | error cause => trivial

/-- The outcome with its failure or its success renamed. -/
def rename (failure : Cause -> Other) (success : Result -> More) :
    Except Cause Result -> Except Other More
  | .ok result => .ok (success result)
  | .error cause => .error (failure cause)

/-- A chain of renamed parts is the renamed chain. -/
theorem rename_bind {Middle Final : Type} {failure : Cause -> Other} {middle : Result -> More}
    {success : Middle -> Final} {first : Except Cause Result} {renamed : Except Other More}
    {continuation : Result -> Except Cause Middle} {goOn : More -> Except Other Final}
    (same : renamed = rename failure middle first)
    (later : forall result, goOn (middle result) = rename failure success (continuation result)) :
    (renamed >>= goOn) = rename failure success (first >>= continuation) := by
  subst same
  cases first with
  | ok result => exact later result
  | error cause => rfl

end Outcome
end DeskCalculator

import DeskCalculator.Proofs.IntegerArithmetic
import DeskCalculator.Proofs.UndefinedResults

namespace DeskCalculator

/-!
# When operations fail

An operation on numbers is a division by zero, lies outside its domain or yields a
number, and its operands tell which.  Several conditions are tested one after another,
so that those that overlap must be told apart: zero has no power below zero, whatever
the power function says of it, and a logarithm to the base one is a division by zero
only if its argument has a logarithm.

The power, the natural logarithm and the trigonometric functions are not described by
the float format.  They may be any functions of which it holds, as the platform
documents it, where they are undefined, zero and infinite.
-/

/-! ## Documented functions -/

/-- The base is below zero and the exponent is no whole number.  An infinite exponent is
neither whole nor fractional. -/
def HasNoRealPower (base exponent : Float) : Prop :=
  base < 0 ∧ exponent.isFinite = true ∧ forall whole : ℤ, ¬ Denotes exponent whole

/-- A float is a whole number if it stands for one. -/
theorem isWhole_iff {value : Float} :
    isWhole value = true ↔ Exists fun whole : ℤ => Denotes value whole := by
  simp only [← wholeNumber?_eq_some_iff, ← Option.isSome_iff_exists]
  unfold isWhole wholeNumber?
  cases Exact.ofFloat value with
  | finite negative magnitude =>
      dsimp only
      cases magnitude.isWhole <;> simp
  | _ => simp

/-- Of the numbers, a function has no value at the infinities only. -/
def UndefinedAtInfinity (compute : Float -> Float) : Prop :=
  forall value : Float, value.isNaN = false ->
    ((compute value).isNaN = true ↔ value.isInf = true)

namespace Elementary

variable (elementary : Elementary)

/-- What is documented of the elementary functions.  A logarithm is zero only at one,
since the float next to one is further from it than the least float is from zero. -/
structure Documented : Prop where
  power : forall base exponent : Float, base.isNaN = false -> exponent.isNaN = false ->
    (elementary.power base exponent).isNaN = true -> HasNoRealPower base exponent
  logarithm : forall value : Float, 0 < value -> (elementary.logarithm value).isNaN = false
  logarithm_zero : forall value : Float, 0 < value ->
    (Denotes (elementary.logarithm value) 0 ↔ Denotes value 1)
  logarithm_infinite : forall value : Float, 0 < value ->
    ((elementary.logarithm value).isInf = true ↔ value.isInf = true)
  sine : UndefinedAtInfinity elementary.sine
  cosine : UndefinedAtInfinity elementary.cosine
  tangent : UndefinedAtInfinity elementary.tangent

/-- Applies an operator with these functions in place of those of the platform. -/
def apply (operator : Operator) : Float -> Float -> Except EvaluationError Float :=
  operator.apply

/-- Calls a function with these functions in place of those of the platform. -/
def callByName : String -> List Float -> Except EvaluationError Float :=
  Function.callByName

theorem undefinedAtInfinity_finitely {result : Float} (number : result.isNaN = false) :
    UndefinedAtInfinity (finitely result) := by
  intro value _
  cases infinite : value.isInf with
  | false => rw [finitely, infinite, if_neg Bool.false_ne_true, number]
  | true =>
      rw [finitely, infinite]
      exact ⟨fun _ => rfl, fun _ => Binary64.isNaN_pack _⟩

theorem denotes_one : Denotes 1 1 :=
  ⟨false, ⟨2 ^ 52, -52⟩, by decide +kernel, by norm_num [Exact.rational, Magnitude.rational]⟩

theorem documented_coarse : coarse.Documented where
  power base exponent _ _ undefinedPower := by
    have number : (coarse.power base exponent).isNaN = false := by
      unfold coarse
      dsimp only
      split <;> decide +kernel
    rw [number] at undefinedPower
    cases undefinedPower
  logarithm value positive := isNaN_logarithm_coarse value (isNaN_of_pos positive) positive
  logarithm_zero value positive := by
    have isOne := beq_iff_denotes (isNaN_of_pos positive) denotes_one
    unfold coarse
    dsimp only
    split
    · next isUnit => exact ⟨fun _ => isOne.mp isUnit, fun _ => denotes_zero⟩
    · next apart =>
        refine ⟨fun zero => ?_, fun isUnit => absurd (isOne.mpr isUnit) apart⟩
        exact absurd ((denotes_zero.lt_iff zero).mp positive) (lt_irrefl 0)
  logarithm_infinite value positive := by
    have isOne := beq_iff_denotes (isNaN_of_pos positive) denotes_one
    unfold coarse
    dsimp only
    split
    · next isUnit =>
        rw [isInf_eq_false_of_denotes denotes_zero, isInf_eq_false_of_denotes (isOne.mp isUnit)]
    · exact Iff.rfl
  sine := undefinedAtInfinity_finitely (by decide +kernel)
  cosine := undefinedAtInfinity_finitely (by decide +kernel)
  tangent := undefinedAtInfinity_finitely (by decide +kernel)

end Elementary

/-! ## Exact failures -/

/-- The outcome is a division by zero exactly under the first condition, lies outside the
domain exactly under the second, and is a number exactly under neither. -/
structure FailsExactly (outcome : Except EvaluationError Float) (byZero outside : Prop) :
    Prop where
  divisionByZero : outcome = .error .divisionByZero ↔ byZero
  domain : (Exists fun details : String => outcome = .error (.domain details)) ↔ outside
  number : (Exists fun result : Float => outcome = .ok result ∧ result.isNaN = false) ↔
    ¬ byZero ∧ ¬ outside

namespace FailsExactly

variable {outcome later : Except EvaluationError Float} {value : Float} {values : List Float}
  {condition byZero outside byZeroToo outsideToo : Prop}

theorem congr (fails : FailsExactly outcome byZero outside) (sameZero : byZero ↔ byZeroToo)
    (sameOutside : outside ↔ outsideToo) : FailsExactly outcome byZeroToo outsideToo where
  divisionByZero := fails.divisionByZero.trans sameZero
  domain := fails.domain.trans sameOutside
  number := by rw [fails.number, sameZero, sameOutside]

theorem ok (number : value.isNaN = false) (noZero : ¬ byZero) (inside : ¬ outside) :
    FailsExactly (.ok value) byZero outside where
  divisionByZero := ⟨nofun, fun zero => absurd zero noZero⟩
  domain := ⟨nofun, fun beyond => absurd beyond inside⟩
  number := ⟨fun _ => ⟨noZero, inside⟩, fun _ => ⟨value, rfl, number⟩⟩

theorem ofZero (zero : byZero) (inside : ¬ outside) :
    FailsExactly (.error .divisionByZero) byZero outside := by
  constructor <;> simp [zero, inside]

theorem ofDomain (details : String) (noZero : ¬ byZero) (beyond : outside) :
    FailsExactly (.error (.domain details)) byZero outside := by
  constructor <;> simp [noZero, beyond]

theorem ensureDefined (numbers : forall operand, operand ∈ values -> operand.isNaN = false)
    (details : String) :
    FailsExactly (ensureDefined value values details) False (value.isNaN = true) := by
  cases defined : value.isNaN with
  | false =>
      rw [ensureDefined_of_number defined]
      exact ok defined id Bool.false_ne_true
  | true =>
      have noUndefined : values.any Float.isNaN = false := by simpa using numbers
      rw [DeskCalculator.ensureDefined, defined, noUndefined]
      exact ofDomain details id rfl

/-- Behind a guard against divisions by zero the other condition does not hold. -/
theorem guardZero [Decidable condition] (fails : ¬ condition -> FailsExactly later byZero outside) :
    FailsExactly (if condition then .error .divisionByZero else later) (condition ∨ byZero)
      (¬ condition ∧ outside) := by
  by_cases holds : condition
  · rw [if_pos holds]
    exact ofZero (.inl holds) fun apart => apart.1 holds
  · rw [if_neg holds]
    exact (fails holds).congr (or_iff_right holds).symm (and_iff_right holds).symm

/-- Behind a guard of the domain there is no division by zero. -/
theorem guardDomain [Decidable condition] {details : String}
    (fails : ¬ condition -> FailsExactly later byZero outside) :
    FailsExactly (if condition then .error (.domain details) else later) (¬ condition ∧ byZero)
      (condition ∨ outside) := by
  by_cases holds : condition
  · rw [if_pos holds]
    exact ofDomain details (fun apart => apart.1 holds) (.inl holds)
  · rw [if_neg holds]
    exact (fails holds).congr (and_iff_right holds).symm (or_iff_right holds).symm

/-- A single guard, of the domain. -/
theorem onlyDomain [Decidable condition] {details : String}
    (fails : ¬ condition -> FailsExactly later False False) :
    FailsExactly (if condition then .error (.domain details) else later) False condition :=
  (guardDomain fails).congr (iff_of_eq (and_false _)) (iff_of_eq (or_false _))

/-! ## Operators and functions -/

section Operators

variable {left right : Float}

theorem add (number : left.isNaN = false) (numberOther : right.isNaN = false) :
    FailsExactly (Operator.add.apply left right) False (Exists fun negative : Bool =>
      Exact.ofFloat left = .infinite negative ∧ Exact.ofFloat right = .infinite (!negative)) :=
  (ensureDefined (isNaN_of_mem_pair number numberOther) _).congr Iff.rfl
    (isNaN_add_iff number numberOther)

theorem subtract (number : left.isNaN = false) (numberOther : right.isNaN = false) :
    FailsExactly (Operator.subtract.apply left right) False (Exists fun negative : Bool =>
      Exact.ofFloat left = .infinite negative ∧ Exact.ofFloat right = .infinite negative) :=
  (ensureDefined (isNaN_of_mem_pair number numberOther) _).congr Iff.rfl
    (isNaN_sub_iff number numberOther)

theorem multiply (number : left.isNaN = false) (numberOther : right.isNaN = false) :
    FailsExactly (Operator.multiply.apply left right) False
      (Denotes left 0 ∧ right.isInf = true ∨ left.isInf = true ∧ Denotes right 0) :=
  (ensureDefined (isNaN_of_mem_pair number numberOther) _).congr Iff.rfl
    (isNaN_mul_iff number numberOther)

/-- Two infinities have no quotient, and an infinite divisor is not zero. -/
theorem quotient (number : left.isNaN = false) (numberOther : right.isNaN = false)
    (numbers : forall operand, operand ∈ values -> operand.isNaN = false) (details : String) :
    FailsExactly
      (if right == 0 then .error .divisionByZero
        else DeskCalculator.ensureDefined (left / right) values details)
      (Denotes right 0) (left.isInf = true ∧ right.isInf = true) := by
  have isZero := beq_iff_denotes numberOther denotes_zero
  refine (guardZero fun _ => ensureDefined numbers details).congr ?_ ?_
  · rw [isZero, or_false]
  · rw [isZero, isNaN_div_iff number numberOther]
    constructor
    · rintro ⟨nonzero, zeros | infinite⟩
      · exact absurd zeros.2 nonzero
      · exact infinite
    · intro infinite
      refine ⟨fun zero => ?_, .inr infinite⟩
      rw [isInf_eq_false_of_denotes zero] at infinite
      cases infinite.2

theorem divide (number : left.isNaN = false) (numberOther : right.isNaN = false) :
    FailsExactly (Operator.divide.apply left right) (Denotes right 0)
      (left.isInf = true ∧ right.isInf = true) :=
  quotient number numberOther (isNaN_of_mem_pair number numberOther) _

theorem modulo (number : left.isNaN = false) (numberOther : right.isNaN = false) :
    FailsExactly (Operator.modulo.apply left right) (Denotes right 0)
      (¬ Denotes right 0 ∧ left.isInf = true) := by
  have isZero := beq_iff_denotes numberOther denotes_zero
  refine (guardZero fun _ => ensureDefined (isNaN_of_mem_pair number numberOther) _).congr ?_ ?_
  · rw [isZero, or_false]
  · rw [isZero]
    exact and_congr_right fun nonzero => isNaN_flooredRemainder_iff number numberOther nonzero

end Operators

section Powers

variable {elementary : Elementary} {base exponent : Float}

theorem byZero_power_iff (number : base.isNaN = false) :
    (base == 0 && exponent < 0) = true ↔ Denotes base 0 ∧ exponent < 0 := by
  rw [Bool.and_eq_true, decide_eq_true_iff, beq_iff_denotes number denotes_zero]

theorem hasNoRealPower_iff :
    (base < 0 && exponent.isFinite && !isWhole exponent) = true ↔ HasNoRealPower base exponent := by
  rw [Bool.and_eq_true, Bool.and_eq_true, decide_eq_true_iff, Bool.not_eq_true',
    ← Bool.not_eq_true, isWhole_iff, not_exists, and_assoc]
  rfl

/-- Zero has real powers, if not all of them. -/
theorem not_hasNoRealPower_of_zero (zero : Denotes base 0) : ¬ HasNoRealPower base exponent :=
  fun fails => absurd (zero.lt_zero_iff.mp fails.1) (lt_irrefl 0)

/-- What passes the guard of the base is a number. -/
theorem isNaN_power (documented : elementary.Documented) (number : base.isNaN = false)
    (numberOther : exponent.isNaN = false)
    (real : ¬ (base < 0 && exponent.isFinite && !isWhole exponent) = true) :
    (elementary.power base exponent).isNaN = false := by
  apply Bool.eq_false_iff.mpr
  intro undefinedPower
  exact real (hasNoRealPower_iff.mpr
    (documented.power base exponent number numberOther undefinedPower))

theorem power (documented : elementary.Documented) (number : base.isNaN = false)
    (numberOther : exponent.isNaN = false) :
    FailsExactly (realPower base exponent) (Denotes base 0 ∧ exponent < 0)
      (HasNoRealPower base exponent ∨
        ¬ (Denotes base 0 ∧ exponent < 0) ∧ ¬ HasNoRealPower base exponent ∧
          base.isFinite = true ∧ exponent.isFinite = true ∧
            (elementary.power base exponent).isInf = true) := by
  have byZero := @byZero_power_iff base exponent number
  have noPower := @hasNoRealPower_iff base exponent
  have checked (real : ¬ (base < 0 && exponent.isFinite && !isWhole exponent) = true) :
      FailsExactly
        (DeskCalculator.ensureDefined (elementary.power base exponent) [base, exponent]
          "undefined power") False False := by
    have defined := isNaN_power documented number numberOther real
    rw [ensureDefined_of_number defined]
    exact ok defined id id
  have apart : HasNoRealPower base exponent -> ¬ (Denotes base 0 ∧ exponent < 0) :=
    fun fails zero => not_hasNoRealPower_of_zero zero.1 fails
  refine (guardZero fun _ => guardDomain fun real => guardDomain fun _ => checked real).congr ?_ ?_
  · rw [byZero, and_false, and_false, or_false]
  · rw [byZero, noPower, Bool.and_eq_true, Bool.and_eq_true, or_false]
    constructor
    · rintro ⟨nonzero, fails | ⟨⟨overflows, finite⟩, finiteOther⟩⟩
      · exact .inl fails
      · by_cases fails : HasNoRealPower base exponent
        · exact .inl fails
        · exact .inr ⟨nonzero, fails, finite, finiteOther, overflows⟩
    · rintro (fails | ⟨nonzero, _, finite, finiteOther, overflows⟩)
      · exact ⟨apart fails, .inl fails⟩
      · exact ⟨nonzero, .inr ⟨⟨overflows, finite⟩, finiteOther⟩⟩

/-- The last check of a power never fails. -/
theorem power_ne_undefined (documented : elementary.Documented) (number : base.isNaN = false)
    (numberOther : exponent.isNaN = false) :
    realPower base exponent ≠ .error (.domain "undefined power") := by
  unfold realPower
  dsimp only
  split
  · exact nofun
  · split
    · simp
    · next real =>
        split
        · simp
        · rw [ensureDefined_of_number (isNaN_power documented number numberOther real)]
          exact nofun

end Powers

section Functions

variable {elementary : Elementary} {value base : Float} {name : String}

theorem squareRoot (number : value.isNaN = false) :
    FailsExactly (squareRoot value) False (value < 0) :=
  onlyDomain fun nonnegative => ok (isNaN_sqrt number nonnegative) id id

theorem naturalLogarithm (documented : elementary.Documented) (number : value.isNaN = false) :
    FailsExactly (naturalLogarithm value) False (value ≤ 0) :=
  onlyDomain fun above => ok (documented.logarithm value (pos_of_not_le_zero number above)) id id

theorem logarithm_eq :
    DeskCalculator.logarithm value base =
      if value ≤ 0 then .error (.domain "logarithm of a non-positive number")
      else if base ≤ 0 then .error (.domain "logarithm of a non-positive number")
      else if elementary.logarithm base == 0 then .error .divisionByZero
      else DeskCalculator.ensureDefined (elementary.logarithm value / elementary.logarithm base)
        [value, base] "undefined logarithm" := by
  unfold DeskCalculator.logarithm DeskCalculator.naturalLogarithm
  split
  · rfl
  · split <;> rfl

theorem logarithm (documented : elementary.Documented) (number : value.isNaN = false)
    (numberOther : base.isNaN = false) :
    FailsExactly (logarithm value base) (0 < value ∧ Denotes base 1)
      (value ≤ 0 ∨ base ≤ 0 ∨ value.isInf = true ∧ base.isInf = true) := by
  have divided (above : ¬ value ≤ 0) (aboveBase : ¬ base ≤ 0) :
      FailsExactly
        (if elementary.logarithm base == 0 then .error .divisionByZero
          else DeskCalculator.ensureDefined
            (elementary.logarithm value / elementary.logarithm base) [value, base]
              "undefined logarithm")
        (Denotes base 1) (value.isInf = true ∧ base.isInf = true) := by
    have positive := pos_of_not_le_zero number above
    have positiveBase := pos_of_not_le_zero numberOther aboveBase
    exact (quotient (documented.logarithm value positive) (documented.logarithm base positiveBase)
      (isNaN_of_mem_pair number numberOther) _).congr (documented.logarithm_zero base positiveBase)
        (and_congr (documented.logarithm_infinite value positive)
          (documented.logarithm_infinite base positiveBase))
  have positiveBase (unit : Denotes base 1) : ¬ base ≤ 0 := by
    rw [unit.le_iff denotes_zero]
    norm_num
  rw [logarithm_eq]
  refine (guardDomain fun above => guardDomain fun aboveBase => divided above aboveBase).congr
    ?_ Iff.rfl
  rw [not_le_zero_iff number]
  constructor
  · exact fun ⟨positive, _, unit⟩ => ⟨positive, unit⟩
  · exact fun ⟨positive, unit⟩ => ⟨positive, positiveBase unit, unit⟩

/-- A function that is checked for undefined values only. -/
theorem ofReal {compute : Float -> Float} (number : value.isNaN = false) :
    FailsExactly ((Function.ofReal name compute).apply [value]) False
      ((compute value).isNaN = true) :=
  ensureDefined (List.forall_mem_singleton.mpr number) _

theorem undefinedAtInfinity {compute : Float -> Float}
    (undefinedThere : UndefinedAtInfinity compute) (number : value.isNaN = false) :
    FailsExactly ((Function.ofReal name compute).apply [value]) False (value.isInf = true) :=
  (ofReal number).congr Iff.rfl (undefinedThere value number)

theorem abs (number : value.isNaN = false) :
    FailsExactly ((Function.ofReal "abs" Float.abs).apply [value]) False False :=
  (ofReal number).congr Iff.rfl (by rw [isNaN_abs number]; exact ⟨nofun, nofun⟩)

end Functions

end FailsExactly

/-! ## The operations of the calculator -/

namespace Elementary

/-- Each operation on numbers fails exactly as stated, infinities and both zeros included.
Those that take a function from the platform are as stated with any functions that are
as documented, and the calculator has them with the functions of its own platform. -/
theorem operations_fail_exactly (left right : Float) (number : left.isNaN = false)
    (numberOther : right.isNaN = false) :
    (FailsExactly (Operator.add.apply left right) False
        (Exists fun negative : Bool => Exact.ofFloat left = .infinite negative ∧
          Exact.ofFloat right = .infinite (!negative)) ∧
      FailsExactly (Operator.subtract.apply left right) False
        (Exists fun negative : Bool => Exact.ofFloat left = .infinite negative ∧
          Exact.ofFloat right = .infinite negative) ∧
      FailsExactly (Operator.multiply.apply left right) False
        (Denotes left 0 ∧ right.isInf = true ∨ left.isInf = true ∧ Denotes right 0) ∧
      FailsExactly (Operator.divide.apply left right) (Denotes right 0)
        (left.isInf = true ∧ right.isInf = true) ∧
      FailsExactly (Operator.modulo.apply left right) (Denotes right 0)
        (¬ Denotes right 0 ∧ left.isInf = true) ∧
      FailsExactly (Function.callByName "sqrt" [left]) False (left < 0) ∧
      FailsExactly (Function.callByName "abs" [left]) False False) ∧
    ((forall operator : Operator, ofPlatform.apply operator = operator.apply) ∧
      ofPlatform.callByName = Function.callByName) ∧
    forall elementary : Elementary, elementary.Documented ->
      FailsExactly (elementary.apply .power left right) (Denotes left 0 ∧ right < 0)
        (HasNoRealPower left right ∨
          ¬ (Denotes left 0 ∧ right < 0) ∧ ¬ HasNoRealPower left right ∧
            left.isFinite = true ∧ right.isFinite = true ∧
              (elementary.power left right).isInf = true) ∧
      elementary.apply .power left right ≠ .error (.domain "undefined power") ∧
      FailsExactly (elementary.callByName "log" [left]) False (left ≤ 0) ∧
      FailsExactly (elementary.callByName "log" [left, right]) (0 < left ∧ Denotes right 1)
        (left ≤ 0 ∨ right ≤ 0 ∨ left.isInf = true ∧ right.isInf = true) ∧
      FailsExactly (elementary.callByName "sin" [left]) False (left.isInf = true) ∧
      FailsExactly (elementary.callByName "cos" [left]) False (left.isInf = true) ∧
      FailsExactly (elementary.callByName "tan" [left]) False (left.isInf = true) := by
  refine ⟨⟨.add number numberOther, .subtract number numberOther, .multiply number numberOther,
    .divide number numberOther, .modulo number numberOther, .squareRoot number, .abs number⟩,
    ⟨fun _ => rfl, rfl⟩, ?_⟩
  intro elementary documented
  exact ⟨.power documented number numberOther,
    FailsExactly.power_ne_undefined documented number numberOther,
    .naturalLogarithm documented number, .logarithm documented number numberOther,
    .undefinedAtInfinity documented.sine number, .undefinedAtInfinity documented.cosine number,
    .undefinedAtInfinity documented.tangent number⟩

/-- Where guards meet: an infinity has no logarithm to the base one, nor zero a power of
negative infinity, and a power of two overflows. -/
theorem operations_fail_exactly_where_guards_meet :
    let endless := (Exact.infinite false).toFloat
    coarse.Documented ∧ endless.isNaN = false ∧
      coarse.callByName "log" [endless, 1] = .error .divisionByZero ∧
      coarse.apply .power 0 (-endless) = .error .divisionByZero ∧
      (Exists fun details : String =>
        coarse.callByName "cos" [endless] = .error (.domain details)) ∧
      Exists fun details : String => coarse.apply .power 2 1024 = .error (.domain details) := by
  intro endless
  have number : endless.isNaN = false := by decide +kernel
  rcases (operations_fail_exactly endless 1 number (by decide +kernel)).2.2 coarse
    documented_coarse with ⟨_, _, _, logarithm, _, cosine, _⟩
  rcases (operations_fail_exactly 0 (-endless) (by decide +kernel) (by decide +kernel)).2.2 coarse
    documented_coarse with ⟨ofZero, _⟩
  rcases (operations_fail_exactly 2 1024 (by decide +kernel) (by decide +kernel)).2.2 coarse
    documented_coarse with ⟨ofTwo, _⟩
  refine ⟨documented_coarse, number, ?_, ?_, ?_, ?_⟩
  · exact logarithm.divisionByZero.mpr ⟨by decide +kernel, denotes_one⟩
  · exact ofZero.divisionByZero.mpr ⟨denotes_zero, by decide +kernel⟩
  · exact cosine.domain.mpr (by decide +kernel)
  · have apart : ¬ Denotes 2 0 := fun zero => absurd
      ((beq_iff_denotes (by decide +kernel) denotes_zero).mpr zero) (by decide +kernel)
    exact ofTwo.domain.mpr (.inr ⟨fun zero => apart zero.1,
      fun fails => absurd fails.1 (by decide +kernel), by decide +kernel, by decide +kernel,
        by decide +kernel⟩)

end Elementary

end DeskCalculator

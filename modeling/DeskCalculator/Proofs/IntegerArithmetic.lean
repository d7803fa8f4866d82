import DeskCalculator.Proofs.Depth
import DeskCalculator.Proofs.FlooredRemainder
import DeskCalculator.Proofs.StackMachine

namespace DeskCalculator

/-!
# Arithmetic on whole numbers

Up to `2 ^ 53` every whole number is that of a float.  Sums, differences,
products and floored remainders that stay within this bound are therefore exact,
over a whole tree as well as for one operator, and neither the sign of a zero nor
the sign of a divisor makes a difference.  A tree whose first step without a value
is a remainder by zero fails for that reason.
-/

/-- Up to this number floats are exact for whole numbers. -/
def largestExact : ℕ := 2 ^ 53

/-- The whole number that a float stands for, if it is one. -/
def wholeNumber? (value : Float) : Option Int :=
  match Exact.ofFloat value with
  | .finite negative magnitude =>
      if magnitude.isWhole then
        let count : Nat := magnitude.numerator / magnitude.denominator
        some (if negative then -count else count)
      else
        none
  | _ => none

/-- A sign in front of a whole number. -/
def Sign.applyInteger : Sign -> Int -> Int
  | .plus, number => number
  | .minus, number => -number

/-- The result of an operator on whole numbers.  The remainder goes with the
quotient rounded down; the other operators are left out, since their results need
not be whole. -/
def Operator.applyIntegers? : Operator -> Int -> Int -> Option Int
  | .add, left, right => some (left + right)
  | .subtract, left, right => some (left - right)
  | .multiply, left, right => some (left * right)
  | .modulo, left, right => if right = 0 then none else some (left.fmod right)
  | .divide, _, _ | .power, _, _ => none

/-- The value of a tree over the whole numbers, if it has one. -/
def Expr.integer? : Expr -> Option Int
  | .literal value => wholeNumber? value
  | .signed sign operand => do
      return sign.applyInteger (← operand.integer?)
  | .binary operator left right => do
      let leftNumber ← left.integer?
      let rightNumber ← right.integer?
      operator.applyIntegers? leftNumber rightNumber
  | .call _ _ => none

/-! ## Whole numbers as floats -/

/-- Every whole number within the bound is that of a float. -/
theorem representable_of_abs_le {number : ℤ} (le : |number| ≤ largestExact) :
    Representable number := by
  rcases lt_or_eq_of_le le with below | atBound
  · have short := representable_scaled number 0 (by exact_mod_cast below) (by norm_num)
      (by norm_num)
    rwa [zpow_zero, mul_one] at short
  · have size : (number.natAbs : ℤ) = 2 ^ 53 := by
      rw [Int.natCast_natAbs, atBound]
      rfl
    have double : number = number / 2 * 2 := by omega
    have short : |number / 2| < 2 ^ 53 := by
      rw [Int.abs_eq_natAbs]
      omega
    have halved := representable_scaled _ 1 short (by norm_num) (by norm_num)
    rw [zpow_one] at halved
    rw [double]
    exact_mod_cast halved

theorem wholeNumber?_eq_some_iff {value : Float} {number : ℤ} :
    wholeNumber? value = some number ↔ Denotes value number := by
  unfold wholeNumber?
  constructor
  · intro found
    split at found
    · next negative magnitude read =>
        split at found
        · next whole =>
            cases found
            have divides := Nat.div_mul_cancel (Nat.dvd_of_mod_eq_zero (beq_iff_eq.mp whole))
            have rational := (magnitude.rational_eq_natCast_iff _).mpr divides.symm
            generalize magnitude.numerator / magnitude.denominator = count at rational
            refine ⟨negative, magnitude, read, ?_⟩
            rw [Exact.rational, rational]
            cases negative <;> simp
        · cases found
    · cases found
  · rintro ⟨negative, magnitude, read, same⟩
    have size : magnitude.rational = number.natAbs := by
      rw [← Exact.abs_rational negative, same, Nat.cast_natAbs, Int.cast_abs]
    have divides := (magnitude.rational_eq_natCast_iff _).mp size
    have whole : magnitude.isWhole = true := by
      rw [Magnitude.isWhole, divides, Nat.mul_mod_left]
      rfl
    rw [Exact.rational, size, ← Int.cast_natCast] at same
    simp only [read, whole, if_true, divides, Nat.mul_div_cancel _ magnitude.denominator_pos]
    congr 1
    cases negative with
    | true => exact Int.cast_inj.mp ((Int.cast_neg _).trans same)
    | false => exact Int.cast_inj.mp same

/-- The floored remainder of whole numbers is exact. -/
theorem denotes_flooredRemainder {value other : Float} {number second : ℤ}
    (denotes : Denotes value number) (denotesOther : Denotes other second) (nonzero : second ≠ 0)
    (bounded : |second| ≤ largestExact) :
    Denotes (flooredRemainder value other) (number.fmod second : ℤ) := by
  have scaled := flooredModulo_scaled number nonzero 0
  rw [zpow_zero, mul_one, mul_one, mul_one] at scaled
  have representable := representable_of_abs_le ((abs_fmod_lt number nonzero).le.trans bounded)
  rcases flooredRemainder_of_finite denotes denotesOther (Int.cast_ne_zero.mpr nonzero) with
    ⟨_, _, isNearest, _⟩
  rw [scaled] at isNearest
  exact isNearest.denotes representable

/-! ## Steps -/

section Steps

variable {value other : Float} {number second result : ℤ}

theorem ensureDefined_of_denotes (denotes : Denotes value number) (operands : List Float)
    (details : String) : ensureDefined value operands details = .ok value :=
  ensureDefined_of_number (isNaN_eq_false_of_isFinite denotes.isFinite) operands details

/-- An operator is exact on whole numbers as long as they stay within the bound. -/
theorem Operator.apply_integers (operator : Operator) (denotes : Denotes value number)
    (denotesOther : Denotes other second)
    (found : operator.applyIntegers? number second = some result)
    (bounded : |result| ≤ largestExact) (boundedOther : |second| ≤ largestExact) :
    Exists fun computed : Float =>
      operator.apply value other = .ok computed ∧ Denotes computed result := by
  have representable := representable_of_abs_le bounded
  cases operator with
  | add =>
      cases found
      rw [Int.cast_add] at representable
      have sum := denotes.add denotesOther representable
      rw [← Int.cast_add] at sum
      exact ⟨_, ensureDefined_of_denotes sum _ _, sum⟩
  | subtract =>
      cases found
      rw [Int.cast_sub] at representable
      have difference := denotes.sub denotesOther representable
      rw [← Int.cast_sub] at difference
      exact ⟨_, ensureDefined_of_denotes difference _ _, difference⟩
  | multiply =>
      cases found
      rw [Int.cast_mul] at representable
      have product := denotes.mul denotesOther representable
      rw [← Int.cast_mul] at product
      exact ⟨_, ensureDefined_of_denotes product _ _, product⟩
  | modulo =>
      have notZero : second ≠ 0 := by
        rintro rfl
        cases found
      rw [applyIntegers?, if_neg notZero] at found
      cases found
      have remainder := denotes_flooredRemainder denotes denotesOther notZero boundedOther
      have divides : ¬ (other == 0) = true := fun zero =>
        notZero (Int.cast_eq_zero.mp ((denotesOther.beq_iff denotes_zero).mp zero))
      exact ⟨_, (if_neg divides).trans (ensureDefined_of_denotes remainder _ _), remainder⟩
  | divide | power => cases found

theorem Sign.apply_integer (sign : Sign) (denotes : Denotes value number) :
    Denotes (sign.apply value) (sign.applyInteger number : ℤ) := by
  cases sign with
  | plus => exact denotes
  | minus =>
      rw [applyInteger, Int.cast_neg]
      exact denotes.neg

/-- A remainder by zero fails, whatever the sign of the zero. -/
theorem Operator.apply_modulo_zero (value : Float) (zero : Denotes other 0) :
    Operator.modulo.apply value other = .error .divisionByZero :=
  if_pos ((zero.beq_iff denotes_zero).mpr rfl)

end Steps

/-! ## Trees -/

namespace Expr

/-- The step has a value over the whole numbers, and floats are exact up to it. -/
def IsExact (step : Expr) : Prop :=
  Exists fun number : Int => step.integer? = some number ∧ |number| ≤ largestExact

/-- All literals and intermediate results of the tree are exact. -/
def StaysExact (tree : Expr) : Prop :=
  forall step, step ∈ tree.postorder -> step.IsExact

/-- The first step without a value is a remainder by zero, and the steps before
it are exact. -/
def FirstDividesByZero (tree : Expr) : Prop :=
  Exists fun earlier : List Expr => Exists fun left : Expr => Exists fun right : Expr =>
    Exists fun later : List Expr =>
      tree.postorder = earlier ++ .binary .modulo left right :: later ∧
        (forall step, step ∈ earlier -> step.IsExact) ∧ right.integer? = some 0

theorem self_mem_postorder (tree : Expr) : tree ∈ tree.postorder :=
  (mem_postorder_iff tree tree).mpr (mem_subtrees_self tree)

/-- The outcome of a tree that stays exact is its value over the whole numbers. -/
theorem outcome_of_staysExact (tree : Expr) (staysExact : tree.StaysExact) :
    Exists fun number : Int => Exists fun value : Float =>
      tree.integer? = some number ∧ |number| ≤ largestExact ∧ tree.outcome = .ok value ∧
        Denotes value number := by
  rcases staysExact tree tree.self_mem_postorder with ⟨number, found, bounded⟩
  match tree with
  | .literal value => exact ⟨number, value, found, bounded, rfl, wholeNumber?_eq_some_iff.mp found⟩
  | .signed sign operand =>
      have inside : operand.StaysExact := fun step member =>
        staysExact step (List.mem_append_left _ member)
      rcases outcome_of_staysExact operand inside with
        ⟨inner, value, foundOperand, _, valued, denotes⟩
      rw [integer?, foundOperand] at found
      cases found
      refine ⟨_, sign.apply value, by rw [integer?, foundOperand]; rfl, bounded, ?_,
        sign.apply_integer denotes⟩
      rw [outcome, valued]
      rfl
  | .binary operator left right =>
      have insideLeft : left.StaysExact := fun step member =>
        staysExact step (List.mem_append_left _ member)
      have insideRight : right.StaysExact := fun step member =>
        staysExact step (List.mem_append_right _ (List.mem_append_left _ member))
      rcases outcome_of_staysExact left insideLeft with
        ⟨leftNumber, leftValue, foundLeft, _, valuedLeft, denotesLeft⟩
      rcases outcome_of_staysExact right insideRight with
        ⟨rightNumber, rightValue, foundRight, boundedRight, valuedRight, denotesRight⟩
      have applied := found
      rw [integer?, foundLeft, foundRight] at applied
      rcases operator.apply_integers denotesLeft denotesRight applied bounded boundedRight with
        ⟨value, computed, denotes⟩
      refine ⟨number, value, found, bounded, ?_, denotes⟩
      rw [outcome, valuedLeft, valuedRight]
      exact computed
  | .call name arguments => cases found

/-- Where a step is in the first or in the second of two lists. -/
theorem split_cases {first second earlier later : List Expr} {step : Expr}
    (split : first ++ second = earlier ++ step :: later) :
    (Exists fun between : List Expr => first = earlier ++ step :: between) ∨
      Exists fun between : List Expr =>
        earlier = first ++ between ∧ second = between ++ step :: later := by
  rcases List.append_eq_append_iff.mp split with ⟨between, rfl, same⟩ | ⟨between, rfl, same⟩
  · exact .inr ⟨between, rfl, same⟩
  · cases between with
    | nil => exact .inr ⟨[], by simp, same.symm⟩
    | cons head between =>
        cases same
        exact .inl ⟨between, rfl⟩

theorem eq_of_last {node step : Expr} {between later : List Expr}
    (split : [node] = between ++ step :: later) : between = [] ∧ node = step := by
  cases between with
  | nil =>
      cases split
      exact ⟨rfl, rfl⟩
  | cons head between => simp at split

mutual

/-- A tree fails by its first remainder by zero, where all steps before it are
exact.  The operands of that step are among them. -/
theorem outcome_of_divides (tree : Expr) {earlier later : List Expr} {left right : Expr}
    (split : tree.postorder = earlier ++ .binary .modulo left right :: later)
    (staysExact : forall step, step ∈ earlier -> step.IsExact) (zero : right.integer? = some 0) :
    tree.outcome = .error .divisionByZero := by
  match tree with
  | .literal value => cases (eq_of_last split).2
  | .signed sign operand =>
      rw [postorder] at split
      rcases split_cases split with ⟨between, inside⟩ | ⟨between, rfl, last⟩
      · rw [outcome, outcome_of_divides operand inside staysExact zero]
        rfl
      · cases (eq_of_last last).2
  | .binary operator first second =>
      rw [postorder] at split
      rcases split_cases split with ⟨between, inside⟩ | ⟨between, rfl, afterFirst⟩
      · rw [outcome, outcome_of_divides first inside staysExact zero]
        rfl
      · rcases List.forall_mem_append.mp staysExact with ⟨exactFirst, exactLater⟩
        rcases outcome_of_staysExact first exactFirst with ⟨_, firstValue, _, _, valued, _⟩
        rcases split_cases afterFirst with ⟨between, inside⟩ | ⟨between, rfl, last⟩
        · rw [outcome, valued, outcome_of_divides second inside exactLater zero]
          rfl
        · rcases eq_of_last last with ⟨rfl, same⟩
          cases same
          rw [List.append_nil] at exactLater
          rcases outcome_of_staysExact right exactLater with
            ⟨number, secondValue, found, _, valuedSecond, denotes⟩
          rw [zero] at found
          cases found
          rw [Int.cast_zero] at denotes
          rw [outcome, valued, valuedSecond]
          exact Operator.apply_modulo_zero firstValue denotes
  | .call name arguments =>
      rw [postorder] at split
      rcases split_cases split with ⟨between, inside⟩ | ⟨between, rfl, last⟩
      · rw [outcome, outcomes_of_divides arguments inside staysExact zero]
        rfl
      · cases (eq_of_last last).2

theorem outcomes_of_divides (trees : List Expr) {earlier later : List Expr} {left right : Expr}
    (split : postorderAll trees = earlier ++ .binary .modulo left right :: later)
    (staysExact : forall step, step ∈ earlier -> step.IsExact) (zero : right.integer? = some 0) :
    outcomes trees = .error .divisionByZero := by
  match trees with
  | [] => simp [postorderAll] at split
  | tree :: trees =>
      rw [postorderAll] at split
      rcases split_cases split with ⟨between, inside⟩ | ⟨between, rfl, inOthers⟩
      · rw [outcomes, outcome_of_divides tree inside staysExact zero]
        rfl
      · rcases List.forall_mem_append.mp staysExact with ⟨exactFirst, exactLater⟩
        rcases outcome_of_staysExact tree exactFirst with ⟨_, value, _, _, valued, _⟩
        rw [outcomes, valued, outcomes_of_divides trees inOthers exactLater zero]
        rfl

end

end Expr

/-! ## Numerals -/

/-- A numeral that is a whole number within the bound is read as this number. -/
theorem Numeral.denotes_whole {numeral : Numeral} {count : ℕ} (le : count ≤ largestExact)
    (whole : numeral.digits = count * 10 ^ numeral.places) : Denotes numeral.toFloat count := by
  have divides : 0 < 10 ^ numeral.places := Nat.pow_pos (by decide)
  rcases Nat.eq_zero_or_pos count with rfl | positive
  · have zero : numeral.toFloat = .ofModel (.pack (.zero .positive)) := by
      rw [toFloat, nearestQuotient, wholeOperand, wholeOperand, whole, zero_mul,
        dif_neg (Nat.lt_irrefl 0), dif_pos divides]
      rfl
    rw [zero, Nat.cast_zero]
    exact denotes_pack_zero .positive
  · have within : |(count : ℤ)| ≤ largestExact := by
      rw [Nat.abs_cast]
      exact_mod_cast le
    rcases (representable_of_abs_le within).exists_canonical with ⟨magnitude, canonical, same⟩
    rw [Int.cast_natCast, Nat.abs_cast] at same
    have fits := canonical.resolve_left (by
      rintro rfl
      rw [Magnitude.rational_zero] at same
      exact Nat.ne_of_lt positive (Nat.cast_eq_zero.mp same.symm).symm)
    have quotient := (magnitude.rational_eq_natCast_iff count).mp same
    have equal : Binary64.IsQuotient numeral.digits (10 ^ numeral.places) magnitude.significand
        magnitude.exponent := by
      rw [Binary64.IsQuotient, whole, Nat.mul_right_comm]
      exact congrArg (· * 10 ^ numeral.places) quotient.symm
    rw [toFloat_of_isQuotient fits equal, ← same]
    exact denotes_of_canonical (.inr fits) false

namespace Calculator

/-- Arithmetic on whole numbers is exact.  Where a tree has a value over the whole
numbers, with floored remainders, and no literal or intermediate result is larger
than `2 ^ 53`, its value is the float of exactly this number; where the first step
without a value is a remainder by zero, that is the failure.  The same holds of
every text that is read as such a tree, and the numerals of a text are read as the
whole numbers that they are. -/
theorem integer_arithmetic_exact :
    (forall (limit : Nat) (tree : Expr), tree.height ≤ limit ->
      (tree.StaysExact -> Exists fun number : Int => Exists fun value : Float =>
        tree.integer? = some number ∧ tree.evaluate limit = .ok value ∧ Denotes value number ∧
          forall other : Float, Denotes other number -> (value == other) = true) ∧
      (tree.FirstDividesByZero -> tree.evaluate limit = .error .divisionByZero)) ∧
    (forall (calculator : Calculator) (text : String) (tree : Expr),
      calculator.parse text = .ok tree -> tree.height ≤ calculator.maxDepth ->
      (tree.StaysExact -> Exists fun number : Int => Exists fun value : Float =>
        tree.integer? = some number ∧ calculator.evaluate text = .ok value ∧
          Denotes value number ∧
          forall other : Float, Denotes other number -> (value == other) = true) ∧
      (tree.FirstDividesByZero ->
        calculator.evaluate text = .error (.evaluation .divisionByZero))) ∧
    (forall (numeral : Numeral) (count : Nat), count ≤ largestExact ->
      numeral.digits = count * 10 ^ numeral.places ->
        (Expr.literal numeral.toFloat).integer? = some (count : Int)) := by
  have trees (limit : Nat) (tree : Expr) (fits : tree.height ≤ limit) :
      (tree.StaysExact -> Exists fun number : Int => Exists fun value : Float =>
        tree.integer? = some number ∧ tree.evaluate limit = .ok value ∧ Denotes value number ∧
          forall other : Float, Denotes other number -> (value == other) = true) ∧
      (tree.FirstDividesByZero -> tree.evaluate limit = .error .divisionByZero) := by
    rw [Expr.evaluate_eq_outcome fits]
    constructor
    · intro staysExact
      rcases tree.outcome_of_staysExact staysExact with ⟨number, value, found, _, valued, denotes⟩
      exact ⟨number, value, found, valued, denotes, fun other same =>
        (denotes.beq_iff same).mpr rfl⟩
    · rintro ⟨earlier, left, right, later, split, staysExact, zero⟩
      exact tree.outcome_of_divides split staysExact zero
  refine ⟨trees, ?_, ?_⟩
  · intro calculator text tree parsed fits
    have evaluated : calculator.evaluate text = calculator.evaluateTree tree := by
      rw [evaluate, parsed]
      rfl
    rw [evaluated, evaluateTree]
    constructor
    · intro staysExact
      rcases (trees calculator.maxDepth tree fits).1 staysExact with
        ⟨number, value, found, valued, denotes, equal⟩
      exact ⟨number, value, found, by rw [valued]; rfl, denotes, equal⟩
    · intro divides
      rw [(trees calculator.maxDepth tree fits).2 divides]
      rfl
  · intro numeral count le whole
    have denotes := Numeral.denotes_whole le whole
    exact wholeNumber?_eq_some_iff.mpr (by exact_mod_cast denotes)

/-- The remainder has the sign of a divisor that is below zero, and a negative
zero is no divisor either. -/
theorem integer_arithmetic_exact_signs :
    (Expr.binary .modulo (.literal 7) (.signed .minus (.literal 3))).StaysExact ∧
      (Exists fun value : Float =>
        (⟨3⟩ : Calculator).evaluate "7 % -3" = .ok value ∧ Denotes value (-2 : Int)) ∧
      (Expr.binary .subtract (.literal 1)
        (.binary .modulo (.literal 5) (.signed .minus (.literal 0)))).FirstDividesByZero ∧
      (⟨4⟩ : Calculator).evaluate "1 - 5 % -0" = .error (.evaluation .divisionByZero) := by
  have exactStep {step : Expr} (number : Int) (found : step.integer? = some number)
      (bounded : |number| ≤ largestExact) : step.IsExact := ⟨number, found, bounded⟩
  have staysExact :
      (Expr.binary .modulo (.literal 7) (.signed .minus (.literal 3))).StaysExact := by
    intro step member
    simp only [Expr.postorder, List.cons_append, List.nil_append, List.mem_cons,
      List.not_mem_nil, or_false] at member
    rcases member with rfl | rfl | rfl | rfl
    · exact exactStep 7 rfl (by decide)
    · exact exactStep 3 rfl (by decide)
    · exact exactStep (-3) rfl (by decide)
    · exact exactStep (-2) rfl (by decide)
  have divides : (Expr.binary .subtract (.literal 1)
      (.binary .modulo (.literal 5) (.signed .minus (.literal 0)))).FirstDividesByZero := by
    refine ⟨[.literal 1, .literal 5, .literal 0, .signed .minus (.literal 0)], .literal 5,
      .signed .minus (.literal 0), _, rfl, ?_, rfl⟩
    intro step member
    simp only [List.mem_cons, List.not_mem_nil, or_false] at member
    rcases member with rfl | rfl | rfl | rfl
    · exact exactStep 1 rfl (by decide)
    · exact exactStep 5 rfl (by decide)
    · exact exactStep 0 rfl (by decide)
    · exact exactStep 0 rfl (by decide)
  rcases (integer_arithmetic_exact.2.1 ⟨3⟩ "7 % -3" _ rfl (by decide)).1 staysExact with
    ⟨number, value, found, evaluated, denotes, _⟩
  have isMinusTwo : number = -2 := by
    cases found
    rfl
  exact ⟨staysExact, ⟨value, evaluated, isMinusTwo ▸ denotes⟩, divides,
    (integer_arithmetic_exact.2.1 ⟨4⟩ "1 - 5 % -0" _ rfl (by decide)).2 divides⟩

end Calculator

end DeskCalculator

import DeskCalculator.Preview
import DeskCalculator.Proofs.Printing

namespace DeskCalculator

open Float.Model (UnpackedFloat Format)

/-!
# Where undefined values come from

There is one float that is no number.  Infinities are values and meet each
other in every operation, so undefined results do occur; every operation and
every function refuses the ones that it would make itself.  A value that is
undefined can then only be a literal of the tree that was so already, and the
literals of a text are finite.

Rounding never makes an undefined float, which settles the signs and the square
root.  A logarithm without a base is returned as it comes from the elementary
functions, so that it is a number for a positive number is an assumption; it is
made of those logarithms alone that a tree takes.  Nothing is assumed of the other
elementary functions.
-/

/-! ## Floats that are numbers -/

namespace Binary64

theorem isNaN_ofParts (sign : UnpackedFloat.Sign) (significand : Nat) (exponent : Int) :
    (ofParts sign significand exponent).isNaN = false := by
  unfold ofParts
  split <;> rfl

theorem isNaN_roundWithAccuracy (sign : UnpackedFloat.Sign) (significand : Nat) (exponent : Int)
    (accuracy : UnpackedFloat.Accuracy) :
    (UnpackedFloat.roundWithAccuracy .binary64 sign significand exponent accuracy).isNaN =
      false := by
  rcases roundWithAccuracy_sign sign significand exponent accuracy with ⟨rounded, power, same⟩
  rw [same]
  exact isNaN_ofParts sign rounded power

/-- Packing makes no number undefined, even where it overflows. -/
theorem isNaN_unpack_pack {shape : UnpackedFloat} (number : shape.isNaN = false) :
    (UnpackedFloat.unpack .binary64 (UnpackedFloat.pack .binary64 shape)).isNaN = false := by
  cases shape with
  | notANumber => cases number
  | infinity sign => cases sign <;> decide
  | zero sign => cases sign <;> decide
  | finite sign significand exponent positive =>
      have rounding := unpack_pack_cases sign exponent positive
      rw [ofParts, dif_pos positive] at rounding
      rcases rounding with ⟨_, unpacked⟩ | ⟨_, packed, power, unpacked⟩
      · rw [unpacked]
        rfl
      · rw [unpacked]
        exact isNaN_ofParts _ _ _

/-- Packing makes no undefined float a number either. -/
theorem isNaN_pack (shape : UnpackedFloat) : (Float.ofModel (.pack shape)).isNaN = shape.isNaN := by
  cases defined : shape.isNaN with
  | false => exact isNaN_unpack_pack defined
  | true =>
      cases shape with
      | notANumber => rfl
      | _ => cases defined

theorem isNaN_neg (shape : UnpackedFloat) : shape.neg.isNaN = shape.isNaN := by
  cases shape <;> rfl

theorem isNaN_abs (shape : UnpackedFloat) : shape.abs.isNaN = shape.isNaN := by
  cases shape <;> rfl

end Binary64

theorem isNaN_eq_false_of_isFinite {value : Float} (finite : value.isFinite = true) :
    value.isNaN = false := by
  change value.toModel.unpack.isFinite = true at finite
  change value.toModel.unpack.isNaN = false
  cases shape : value.toModel.unpack with
  | notANumber => rw [shape] at finite; cases finite
  | _ => rfl

theorem isNaN_neg {value : Float} (number : value.isNaN = false) : (-value).isNaN = false :=
  (Binary64.isNaN_pack _).trans ((Binary64.isNaN_neg _).trans number)

theorem isNaN_abs {value : Float} (number : value.isNaN = false) : value.abs.isNaN = false :=
  (Binary64.isNaN_pack _).trans ((Binary64.isNaN_abs _).trans number)

theorem lt_zero_iff (value : Float) :
    value < 0 ↔ value.toModel.unpack.lt (.zero .positive) = true :=
  decide_eq_true_iff

theorem le_zero_iff (value : Float) :
    value ≤ 0 ↔ value.toModel.unpack.le (.zero .positive) = true :=
  decide_eq_true_iff

theorem zero_lt_iff (value : Float) :
    0 < value ↔ UnpackedFloat.lt (.zero .positive) value.toModel.unpack = true :=
  decide_eq_true_iff

/-- The root of a number that is not negative is a number. -/
theorem isNaN_sqrt {value : Float} (number : value.isNaN = false) (nonnegative : ¬ value < 0) :
    value.sqrt.isNaN = false := by
  apply @Binary64.isNaN_unpack_pack (value.toModel.unpack.sqrt .binary64)
  change value.toModel.unpack.isNaN = false at number
  rw [lt_zero_iff] at nonnegative
  cases shape : value.toModel.unpack with
  | notANumber => rw [shape] at number; cases number
  | zero sign => rfl
  | infinity sign =>
      rw [shape] at nonnegative
      cases sign with
      | positive => rfl
      | negative => exact absurd rfl nonnegative
  | finite sign significand exponent positive =>
      rw [shape] at nonnegative
      cases sign with
      | positive => exact Binary64.isNaN_roundWithAccuracy _ _ _ _
      | negative => exact absurd rfl nonnegative

/-- A number is positive unless it is at most zero. -/
theorem pos_of_not_le_zero {value : Float} (number : value.isNaN = false)
    (above : ¬ value ≤ 0) : 0 < value := by
  change value.toModel.unpack.isNaN = false at number
  rw [le_zero_iff] at above
  rw [zero_lt_iff]
  cases shape : value.toModel.unpack with
  | notANumber => rw [shape] at number; cases number
  | zero sign => rw [shape] at above; exact absurd rfl above
  | infinity sign =>
      rw [shape] at above
      cases sign with
      | positive => rfl
      | negative => exact absurd rfl above
  | finite sign significand exponent positive =>
      rw [shape] at above
      cases sign with
      | positive => rfl
      | negative => exact absurd rfl above

/-! ## Operations on numbers -/

/-- The check lets every number pass. -/
theorem ensureDefined_of_number {value : Float} (number : value.isNaN = false)
    (operands : List Float) (details : String) :
    ensureDefined value operands details = .ok value := by
  rw [ensureDefined, number, Bool.false_and, if_neg Bool.false_ne_true]

theorem isNaN_of_mem_pair {left right : Float} (number : left.isNaN = false)
    (numberOther : right.isNaN = false) :
    forall operand, operand ∈ [left, right] -> operand.isNaN = false :=
  List.forall_mem_cons.mpr ⟨number, List.forall_mem_cons.mpr ⟨numberOther, nofun⟩⟩

/-- The outcome is a number or a failure. -/
def NeverUndefined (outcome : Except EvaluationError Float) : Prop :=
  forall value : Float, outcome = .ok value -> value.isNaN = false

namespace NeverUndefined

variable {left right base exponent value : Float} {values : List Float}

theorem ok (number : value.isNaN = false) : NeverUndefined (.ok value) := by
  intro result same
  cases same
  exact number

theorem error (cause : EvaluationError) : NeverUndefined (.error cause) :=
  fun _ => nofun

theorem bind {Result : Type} {outcome : Except EvaluationError Result}
    {continuation : Result -> Except EvaluationError Float}
    (later : forall result, NeverUndefined (continuation result)) :
    NeverUndefined (outcome >>= continuation) := by
  cases outcome with
  | ok result => exact later result
  | error cause => exact error cause

theorem ite {condition : Prop} [Decidable condition] {first second : Except EvaluationError Float}
    (yes : condition -> NeverUndefined first) (no : ¬ condition -> NeverUndefined second) :
    NeverUndefined (if condition then first else second) := by
  by_cases holds : condition
  · rw [if_pos holds]
    exact yes holds
  · rw [if_neg holds]
    exact no holds

/-- What passes the check is a number if all operands are. -/
theorem ensureDefined (numbers : forall operand, operand ∈ values -> operand.isNaN = false)
    (details : String) : NeverUndefined (ensureDefined value values details) := by
  apply ite
  · exact fun _ => error _
  · intro passed
    apply ok
    have noUndefined : values.any Float.isNaN = false := by simpa using numbers
    simpa [noUndefined] using passed

theorem realPower [Elementary]
    (numbers : forall operand, operand ∈ [base, exponent] -> operand.isNaN = false) :
    NeverUndefined (realPower base exponent) :=
  ite (fun _ => error _) fun _ => ite (fun _ => error _) fun _ =>
    ite (fun _ => error _) fun _ => ensureDefined numbers _

theorem operator [Elementary] (operator : Operator)
    (numbers : forall operand, operand ∈ [left, right] -> operand.isNaN = false) :
    NeverUndefined (operator.apply left right) := by
  obtain ⟨computation, listed, applied⟩ := operator.exists_apply_eq
  rw [applied]
  simp only [Operator.table, List.mem_cons, Prod.mk.injEq, List.not_mem_nil, or_false] at listed
  rcases listed with ⟨_, rfl⟩ | ⟨_, rfl⟩ | ⟨_, rfl⟩ | ⟨_, rfl⟩ | ⟨_, rfl⟩ | ⟨_, rfl⟩
  · exact ensureDefined numbers _
  · exact ensureDefined numbers _
  · exact ensureDefined numbers _
  · exact ite (fun _ => error _) fun _ => ensureDefined numbers _
  · exact ite (fun _ => error _) fun _ => ensureDefined numbers _
  · exact realPower numbers

theorem sign (sign : Sign) (number : value.isNaN = false) : (sign.apply value).isNaN = false := by
  cases sign with
  | plus => exact number
  | minus => exact isNaN_neg number

theorem squareRoot (number : value.isNaN = false) : NeverUndefined (squareRoot value) :=
  ite (fun _ => error _) fun nonnegative => ok (isNaN_sqrt number nonnegative)

theorem naturalLogarithm [Elementary] (number : value.isNaN = false)
    (logarithm : 0 < value -> (Elementary.logarithm value).isNaN = false) :
    NeverUndefined (naturalLogarithm value) :=
  ite (fun _ => error _) fun above => ok (logarithm (pos_of_not_le_zero number above))

/-- The quotient of two logarithms is checked, whatever they are. -/
theorem logarithm [Elementary]
    (numbers : forall operand, operand ∈ [value, base] -> operand.isNaN = false) :
    NeverUndefined (logarithm value base) := by
  apply bind
  intro ofValue
  apply bind
  intro ofBase
  exact ite (fun _ => error _) fun _ => ensureDefined numbers _

theorem ofUnary {name : String} {compute : Float -> Except EvaluationError Float}
    (computed : forall value, values = [value] -> NeverUndefined (compute value)) :
    NeverUndefined ((Function.ofUnary name compute).apply values) := by
  match values with
  | [] => exact error _
  | [value] => exact computed value rfl
  | _ :: _ :: _ => exact error _

theorem ofReal {name : String} {compute : Float -> Float}
    (numbers : forall operand, operand ∈ values -> operand.isNaN = false) :
    NeverUndefined ((Function.ofReal name compute).apply values) :=
  ofUnary fun _ alone => ensureDefined (alone ▸ numbers) _

theorem log [Elementary] (numbers : forall operand, operand ∈ values -> operand.isNaN = false)
    (logarithms : forall value, values = [value] -> 0 < value ->
      (Elementary.logarithm value).isNaN = false) :
    NeverUndefined (Function.log.apply values) := by
  match values with
  | [] => exact error _
  | [value] => exact naturalLogarithm (numbers value (List.mem_cons_self ..)) (logarithms value rfl)
  | [value, base] => exact logarithm numbers
  | _ :: _ :: _ :: _ => exact error _

theorem table [Elementary] {function : Function} (listed : function ∈ Function.table)
    (numbers : forall operand, operand ∈ values -> operand.isNaN = false)
    (logarithms : function.name = "log" -> forall value, values = [value] -> 0 < value ->
      (Elementary.logarithm value).isNaN = false) : NeverUndefined (function.apply values) := by
  simp only [Function.table, List.mem_cons, List.not_mem_nil, or_false] at listed
  rcases listed with rfl | rfl | rfl | rfl | rfl | rfl
  · exact ofUnary fun value alone => squareRoot (numbers value (alone ▸ List.mem_cons_self ..))
  · exact ofReal numbers
  · exact ofReal numbers
  · exact ofReal numbers
  · exact log numbers (logarithms rfl)
  · exact ofReal numbers

theorem callByName [Elementary] {name : String}
    (numbers : forall operand, operand ∈ values -> operand.isNaN = false)
    (logarithms : name = "log" -> forall value, values = [value] -> 0 < value ->
      (Elementary.logarithm value).isNaN = false) :
    NeverUndefined (Function.callByName name values) := by
  unfold Function.callByName
  cases found : Function.find? name with
  | none => exact error _
  | some function =>
      have same : function.name = name := by
        have holds := List.find?_some found
        simpa using holds
      exact ite (fun _ => table (List.mem_of_find?_eq_some found) numbers (same ▸ logarithms))
        fun _ => error _

end NeverUndefined

/-! ## Rough elementary functions -/

namespace Elementary

/-- A constant that is undefined at the infinities. -/
def finitely (result : Float) (value : Float) : Float :=
  if value.isInf then Exact.undefined.toFloat else result

/-- Rough elementary functions.  The logarithm is right at one and at infinity, the
trigonometric functions at zero and at the infinities, and the power where it is too
large for a float. -/
@[reducible]
def coarse : Elementary where
  power base exponent := if 2 ≤ base && 1024 ≤ exponent then (Exact.infinite false).toFloat else 1
  logarithm value := if value == 1 then 0 else value
  sine := finitely 0
  cosine := finitely 1
  tangent := finitely 0

theorem isNaN_logarithm_coarse (value : Float) (number : value.isNaN = false)
    (_ : 0 < value) : (coarse.logarithm value).isNaN = false := by
  unfold coarse
  dsimp only
  split
  · decide +kernel
  · exact number

end Elementary

/-! ## Trees, texts and previews -/

namespace Expr

/-- Every logarithm without a base that a tree takes of a positive number is a
number. -/
def LogarithmsDefined [Elementary] (tree : Expr) : Prop :=
  forall (argument : Expr) (value : Float), .call "log" [argument] ∈ tree.subtrees ->
    argument.outcome = .ok value -> value.isNaN = false -> 0 < value ->
      (Elementary.logarithm value).isNaN = false

/-- The assumption follows from one about the logarithm, whatever the tree is. -/
theorem LogarithmsDefined.ofAll [Elementary]
    (logarithms : forall value : Float, value.isNaN = false -> 0 < value ->
      (Elementary.logarithm value).isNaN = false) (tree : Expr) : tree.LogarithmsDefined :=
  fun _ value _ _ number positive => logarithms value number positive

/-- The literals of a tree are numbers. -/
def LiteralsDefined (tree : Expr) : Prop :=
  forall literal : Float, .literal literal ∈ tree.subtrees -> literal.isNaN = false

section Parts

variable [Elementary] {whole : Expr}

mutual

/-- The value of a part is a number where the literals of the whole are. -/
theorem isNaN_of_outcome (literals : whole.LiteralsDefined)
    (logarithms : whole.LogarithmsDefined) (tree : Expr)
    (inside : forall part, part ∈ tree.subtrees -> part ∈ whole.subtrees) (value : Float)
    (valued : tree.outcome = .ok value) : value.isNaN = false := by
  match tree with
  | .literal _ =>
      cases valued
      exact literals value (inside _ (List.mem_singleton_self _))
  | .signed sign operand =>
      rcases Outcome.bind_eq_ok_iff.mp valued with ⟨inner, valuedOperand, applied⟩
      cases applied
      exact NeverUndefined.sign sign (isNaN_of_outcome literals logarithms operand
        (fun part member => inside part (List.mem_cons_of_mem _ member)) inner valuedOperand)
  | .binary operator left right =>
      rcases Outcome.bind_eq_ok_iff.mp valued with ⟨leftValue, valuedLeft, later⟩
      rcases Outcome.bind_eq_ok_iff.mp later with ⟨rightValue, valuedRight, applied⟩
      have leftNumber := isNaN_of_outcome literals logarithms left
        (fun part member => inside part (List.mem_cons_of_mem _ (List.mem_append_left _ member)))
        leftValue valuedLeft
      have rightNumber := isNaN_of_outcome literals logarithms right
        (fun part member => inside part (List.mem_cons_of_mem _ (List.mem_append_right _ member)))
        rightValue valuedRight
      exact NeverUndefined.operator operator (isNaN_of_mem_pair leftNumber rightNumber) value
        applied
  | .call name arguments =>
      rcases Outcome.bind_eq_ok_iff.mp valued with ⟨values, valuedAll, called⟩
      have numbers := isNaN_of_outcomes literals logarithms arguments
        (fun part member => inside part (List.mem_cons_of_mem _ member)) values valuedAll
      refine NeverUndefined.callByName numbers ?_ value called
      rintro rfl result rfl positive
      match arguments with
      | [] => cases valuedAll
      | [argument] =>
          rcases Outcome.bind_eq_ok_iff.mp valuedAll with ⟨only, valuedOnly, gathered⟩
          cases gathered
          exact logarithms argument result (inside _ (List.mem_cons_self ..)) valuedOnly
            (numbers result (List.mem_cons_self ..)) positive
      | _ :: _ :: _ => exact absurd (length_outcomes valuedAll) (by simp)

theorem isNaN_of_outcomes (literals : whole.LiteralsDefined)
    (logarithms : whole.LogarithmsDefined) (trees : List Expr)
    (inside : forall part, part ∈ allSubtrees trees -> part ∈ whole.subtrees)
    (values : List Float) (valued : outcomes trees = .ok values) :
    forall value, value ∈ values -> value.isNaN = false := by
  match trees with
  | [] =>
      cases valued
      exact nofun
  | tree :: trees =>
      rcases Outcome.bind_eq_ok_iff.mp valued with ⟨first, valuedFirst, later⟩
      rcases Outcome.bind_eq_ok_iff.mp later with ⟨others, valuedOthers, gathered⟩
      cases gathered
      have number := isNaN_of_outcome literals logarithms tree
        (fun part member => inside part (List.mem_append_left _ member)) first valuedFirst
      have numbers := isNaN_of_outcomes literals logarithms trees
        (fun part member => inside part (List.mem_append_right _ member)) others valuedOthers
      exact List.forall_mem_cons.mpr ⟨number, numbers⟩

end

end Parts

end Expr

theorem Exact.ofFloat_ne_undefined {value : Float} (number : value.isNaN = false) :
    Exact.ofFloat value ≠ .undefined := by
  change value.toModel.unpack.isNaN = false at number
  unfold Exact.ofFloat
  cases shape : value.toModel.unpack with
  | notANumber => rw [shape] at number; cases number
  | _ => exact nofun

/-- A written numeral starts with a digit. -/
theorem Numeral.exists_first_digit (numeral : Numeral) :
    Exists fun first : Char => Exists fun rest : List Char =>
      numeral.text.toList = first :: rest ∧ first.isDigit = true := by
  rcases List.exists_cons_of_ne_nil numeral.wholeChars_ne_nil with ⟨first, more, starts⟩
  have member : first ∈ numeral.digitChars := by
    rw [← wholeChars_append_fractionChars, starts]
    exact List.mem_cons_self ..
  have digit := isDigit_of_mem_digitChars member
  rw [text, String.toList_ofList, chars, starts]
  split
  · exact ⟨first, more, rfl, digit⟩
  · exact ⟨first, _, rfl, digit⟩

theorem displayText_ne_undefinedText {value : Float} (number : value.isNaN = false) :
    displayText value ≠ undefinedText := by
  have described := Exact.ofFloat_ne_undefined number
  unfold displayText
  cases shape : Exact.ofFloat value with
  | undefined => exact absurd shape described
  | infinite negative => cases negative <;> decide
  | finite negative magnitude =>
      rcases (displayNumeral magnitude).exists_first_digit with ⟨first, rest, starts, digit⟩
      intro same
      have shown := congrArg String.toList same
      cases signed : negative && (displayNumeral magnitude).digits != 0 with
      | true =>
          simp only [signed, withSign, if_true, String.toList_append] at shown
          have minus : some '-' = undefinedText.toList.head? := congrArg List.head? shown
          exact absurd minus (by decide)
      | false =>
          simp only [signed, withSign, Bool.false_eq_true, if_false, starts] at shown
          have letter : first = 'N' := (List.cons.inj shown).1
          rw [letter] at digit
          exact absurd digit (by decide)

namespace Calculator

variable {calculator : Calculator} {text : String} {tree : Expr} {value : Float}

/-- The literals of a text are numbers. -/
theorem literalsDefined_of_parse (parsed : calculator.parse text = .ok tree) :
    tree.LiteralsDefined :=
  fun literal member =>
    isNaN_eq_false_of_isFinite ((writable_of_parse parsed).1.finite literal member)

theorem isNaN_of_evaluateTree [Elementary] {limit : Nat} (literals : tree.LiteralsDefined)
    (logarithms : tree.LogarithmsDefined) (evaluated : tree.evaluate limit = .ok value) :
    value.isNaN = false :=
  Expr.isNaN_of_outcome literals logarithms tree (fun _ member => member) value
    (Expr.outcome_of_evaluate evaluated)

theorem isNaN_of_evaluate [Elementary]
    (logarithms : forall tree, calculator.parse text = .ok tree -> tree.LogarithmsDefined)
    (evaluated : calculator.evaluate text = .ok value) : value.isNaN = false := by
  rcases evaluate_eq_ok_iff.mp evaluated with ⟨tree, parsed, evaluatedTree⟩
  exact isNaN_of_evaluateTree (literalsDefined_of_parse parsed) (logarithms tree parsed)
    evaluatedTree

/-- No undefined value is made, whatever the elementary functions are.  Under every limit
the value of a tree is a number unless a literal of the tree is none; the value of a text
is always a number, and a display never shows anything else. -/
theorem evaluate_defined [Elementary] :
    (forall (limit : Nat) (tree : Expr) (value : Float), tree.LogarithmsDefined ->
      tree.evaluate limit = .ok value -> value.isNaN = true ->
        Exists fun literal : Float =>
          .literal literal ∈ tree.subtrees ∧ literal.isNaN = true) ∧
    (forall (calculator : Calculator) (text : String) (value : Float),
      (forall tree, calculator.parse text = .ok tree -> tree.LogarithmsDefined) ->
        calculator.evaluate text = .ok value -> value.isNaN = false) ∧
    (forall (calculator : Calculator) (text : String),
      (forall tree, calculator.parse (trimText text) = .ok tree -> tree.LogarithmsDefined) ->
        (Preview.ofText calculator text).text ≠ undefinedText) := by
  refine ⟨?_, fun _ _ _ => isNaN_of_evaluate, ?_⟩
  · intro limit tree value logarithms evaluated undefinedValue
    apply Classical.byContradiction
    intro allNumbers
    have literals : tree.LiteralsDefined := by
      intro literal member
      apply Bool.of_not_eq_true
      exact fun found => allNumbers ⟨literal, member, found⟩
    have number := isNaN_of_evaluateTree literals logarithms evaluated
    rw [undefinedValue] at number
    cases number
  · intro calculator text logarithms
    unfold Preview.ofText
    dsimp only
    split
    · decide
    · split
      · decide
      · split
        · next evaluated =>
            exact displayText_ne_undefinedText (isNaN_of_evaluate logarithms evaluated)
        · exact (by decide : "Error" ≠ undefinedText)

/-- With rough elementary functions a tree takes a logarithm and has an undefined literal,
and a text takes the same logarithm. -/
theorem evaluate_defined_logarithm :
    let tree : Expr := .binary .add (.call "log" [.literal 1]) (.literal (0 / 0))
    letI := Elementary.coarse
    tree.evaluate 3 = .ok (0 + 0 / 0) ∧
    (Exists fun literal : Float => .literal literal ∈ tree.subtrees ∧ literal.isNaN = true) ∧
    (⟨4⟩ : Calculator).evaluate "log(3-2)÷2" = .ok 0 ∧ (0 : Float).isNaN = false ∧
    (Preview.ofText ⟨4⟩ " log(3-2)÷2").text ≠ undefinedText := by
  intro tree
  have logarithms : forall tree : Expr, @Expr.LogarithmsDefined Elementary.coarse tree :=
    @Expr.LogarithmsDefined.ofAll Elementary.coarse Elementary.isNaN_logarithm_coarse
  have evaluatedTree : @Expr.evaluate Elementary.coarse 3 tree = .ok (0 + 0 / 0) := by
    decide +kernel
  have evaluated : @Calculator.evaluate Elementary.coarse ⟨4⟩ "log(3-2)÷2" = .ok 0 := by
    decide +kernel
  obtain ⟨ofTree, ofText, ofPreview⟩ := @evaluate_defined Elementary.coarse
  exact ⟨evaluatedTree, ofTree 3 tree _ (logarithms tree) evaluatedTree (by decide +kernel),
    evaluated, ofText ⟨4⟩ _ _ (fun read _ => logarithms read) evaluated,
    ofPreview ⟨4⟩ _ fun read _ => logarithms read⟩

end Calculator

end DeskCalculator

import DeskCalculator.Proofs.Evaluation
import DeskCalculator.Proofs.Failures
import DeskCalculator.Proofs.Parsing

namespace DeskCalculator

/-!
# The two limits agree

Reading and evaluation count nesting separately, and each refuses what exceeds
the limit of the calculator.  A tree that was read fits below the limit, so the
evaluation never gets to refuse it.  There is one exception: a number alone is
read without a look at the limit, and a limit of zero lets nothing be
evaluated.
-/

/-! ## Only the limit makes an evaluation too deep -/

/-- The outcome does not fail for its depth. -/
def NeverTooDeep {Result : Type} (outcome : Except EvaluationError Result) : Prop :=
  forall limit : Nat, outcome ≠ .error (.tooDeep limit)

namespace NeverTooDeep

variable {Result More : Type}

theorem ok (result : Result) : NeverTooDeep (.ok result) :=
  fun _ => nofun

theorem bind {outcome : Except EvaluationError Result}
    {continuation : Result -> Except EvaluationError More} (first : NeverTooDeep outcome)
    (later : forall result, NeverTooDeep (continuation result)) :
    NeverTooDeep (outcome >>= continuation) := by
  intro limit failed
  cases outcome with
  | ok result => exact later result limit failed
  | error cause =>
      cases failed
      exact first limit rfl

theorem operator (operator : Operator) (left right : Float) :
    NeverTooDeep (operator.apply left right) := by
  intro limit failed
  have arithmetic := FailsArithmetically.operator operator left right
  rw [failed] at arithmetic
  exact arithmetic

theorem callByName (name : String) (values : List Float) :
    NeverTooDeep (Function.callByName name values) := by
  intro limit failed
  rcases Function.callByName_error failed with refuses | arithmetic
  · cases refuses
  · exact arithmetic

end NeverTooDeep

namespace Expr

mutual

theorem outcome_neverTooDeep (tree : Expr) : NeverTooDeep tree.outcome :=
  match tree with
  | .literal value => .ok value
  | .signed _ operand => (outcome_neverTooDeep operand).bind fun _ => .ok _
  | .binary operator left right =>
      (outcome_neverTooDeep left).bind fun leftValue =>
        (outcome_neverTooDeep right).bind fun rightValue => .operator operator leftValue rightValue
  | .call name arguments =>
      (outcomes_neverTooDeep arguments).bind fun values => .callByName name values

theorem outcomes_neverTooDeep (trees : List Expr) : NeverTooDeep (outcomes trees) :=
  match trees with
  | [] => .ok []
  | tree :: trees =>
      (outcome_neverTooDeep tree).bind fun _ => (outcomes_neverTooDeep trees).bind fun _ => .ok _

end

/-! ## The levels of a tree -/

/-- With the root of a tree at `level`, the evaluation calls itself for the part
at the level `inner`. -/
inductive Level : (level : Nat) -> (tree : Expr) -> (inner : Nat) -> (part : Expr) -> Prop
  | root (level : Nat) (tree : Expr) : Level level tree level tree
  | operand {level inner : Nat} {sign : Sign} {operand part : Expr} :
      Level (level + 1) operand inner part -> Level level (.signed sign operand) inner part
  | left {level inner : Nat} {operator : Operator} {left right part : Expr} :
      Level (level + 1) left inner part -> Level level (.binary operator left right) inner part
  | right {level inner : Nat} {operator : Operator} {left right part : Expr} :
      Level (level + 1) right inner part -> Level level (.binary operator left right) inner part
  | argument {level inner : Nat} {name : String} {arguments : List Expr} {argument part : Expr} :
      argument ∈ arguments -> Level (level + 1) argument inner part ->
      Level level (.call name arguments) inner part

/-- A part is as much lower than its tree as it is deeper in it. -/
theorem Level.add_height_le {level inner : Nat} {tree part : Expr}
    (placed : Level level tree inner part) : inner + part.height ≤ level + tree.height := by
  induction placed with
  | root level tree => exact Nat.le_refl _
  | operand _ ih =>
      rw [height]
      omega
  | left _ ih =>
      rw [height]
      omega
  | right _ ih =>
      rw [height]
      omega
  | argument member _ ih =>
      have shorter := height_le_tallest member
      rw [height]
      omega

end Expr

/-! ## Trees without nesting -/

/-- Without descents and without inner nodes there is only a number. -/
theorem Derives.number_of_shallow {category : Category} {lexemes : List Lexeme} {tree : Expr}
    {descents : Nat} (derived : Derives category lexemes tree descents) (flat : descents = 0)
    (low : tree.height ≤ 1) :
    Exists fun value : Float => Exists fun position : Nat =>
      lexemes = [⟨.number value, position⟩] ∧ tree = .literal value := by
  match derived with
  | .number value position => exact ⟨value, position, rfl, rfl⟩
  | .emptyCall _ _ _ _ => cases flat
  | .call _ _ _ _ _ => cases flat
  | .group _ _ _ => cases flat
  | .signed _ _ _ => cases flat
  | @Derives.binary _ _ _ _ left right _ _ _ _ =>
      have positive := left.height_pos
      rw [Expr.height] at low
      omega
  | .tighter _ narrow => exact narrow.number_of_shallow flat low

theorem Expr.ofLexemes_number (limit : Nat) (value : Float) (position final : Nat) :
    Expr.ofLexemes limit [⟨.number value, position⟩, ⟨.endOfInput, final⟩] =
      .ok (.literal value) :=
  rfl

namespace Calculator

variable {calculator : Calculator} {text : String} {tree : Expr}

theorem evaluate_eq_evaluation_error_iff {error : EvaluationError} :
    calculator.evaluate text = .error (.evaluation error) ↔ Exists fun tree : Expr =>
      calculator.parse text = .ok tree ∧ tree.evaluate calculator.maxDepth = .error error := by
  unfold evaluate evaluateTree
  simp only [Outcome.bind_eq_error_iff, Outcome.mapError_eq_error_iff, parse_ne_evaluation_error,
    false_or, CalculationError.evaluation.injEq, exists_eq_right]

/-- Every tree that is read fits below a limit that is not zero. -/
theorem height_le_of_parse (positive : 1 ≤ calculator.maxDepth)
    (parsed : calculator.parse text = .ok tree) : tree.height ≤ calculator.maxDepth := by
  rcases parse_derives parsed with ⟨_, _, _, _, _, _, _, low⟩
  omega

theorem number_of_parse_zero (zero : calculator.maxDepth = 0)
    (parsed : calculator.parse text = .ok tree) :
    Exists fun value : Float => Exists fun position : Nat => Exists fun final : Nat =>
      tokenize (normalize text) = .ok [⟨.number value, position⟩, ⟨.endOfInput, final⟩] := by
  rcases parse_derives parsed with ⟨stretch, final, descents, splits, _, derived, room, low⟩
  rcases derived.number_of_shallow (by omega) (by omega) with ⟨value, position, rfl, _⟩
  refine ⟨value, position, final, (tokenize_eq_ok_iff _ _).mpr ?_⟩
  rw [normalize, String.toList_ofList]
  exact splits

/-- The evaluation refuses a text as too deep only where the limit is zero and
the text is a number; under any other limit it never comes to the check. -/
theorem evaluate_tooDeep_iff (calculator : Calculator) (text : String) :
    ((Exists fun limit : Nat =>
        calculator.evaluate text = .error (.evaluation (.tooDeep limit))) ↔
      calculator.maxDepth = 0 ∧ Exists fun value : Float => Exists fun position : Nat =>
        Exists fun final : Nat =>
          tokenize (normalize text) =
            .ok [⟨.number value, position⟩, ⟨.endOfInput, final⟩]) ∧
    (1 ≤ calculator.maxDepth -> forall tree : Expr, calculator.parse text = .ok tree ->
      tree.height ≤ calculator.maxDepth ∧
      (forall (inner : Nat) (part : Expr), Expr.Level 1 tree inner part ->
        inner ≤ calculator.maxDepth) ∧
      calculator.evaluateTree tree = tree.outcome.mapError .evaluation) := by
  refine ⟨⟨?_, ?_⟩, ?_⟩
  · rintro ⟨limit, failed⟩
    rcases evaluate_eq_evaluation_error_iff.mp failed with ⟨tree, parsed, failedTree⟩
    have zero : calculator.maxDepth = 0 := by
      apply Classical.byContradiction
      intro other
      have low := height_le_of_parse (by omega) parsed
      rw [Expr.evaluate_eq_outcome low] at failedTree
      exact tree.outcome_neverTooDeep limit failedTree
    exact ⟨zero, number_of_parse_zero zero parsed⟩
  · rintro ⟨zero, value, position, final, split⟩
    refine ⟨0, evaluate_eq_evaluation_error_iff.mpr ⟨.literal value, ?_, ?_⟩⟩
    · refine parse_eq_ok_iff.mpr ⟨_, ?_, Expr.ofLexemes_number _ value position final⟩
      rw [← lexemes_eq_ok_iff, Calculator.lexemes, split]
      rfl
    · rw [zero]
      rfl
  · intro positive tree parsed
    have low := height_le_of_parse positive parsed
    refine ⟨low, ?_, ?_⟩
    · intro inner part placed
      have deeper := placed.add_height_le
      have present := part.height_pos
      omega
    · rw [evaluateTree, Expr.evaluate_eq_outcome low]

theorem evaluate_tooDeep_zero_and_two :
    (Exists fun limit : Nat =>
      (⟨0⟩ : Calculator).evaluate " 7" = .error (.evaluation (.tooDeep limit))) ∧
    (⟨2⟩ : Calculator).parse "-7" = .ok (.signed .minus (.literal 7)) ∧
      (⟨2⟩ : Calculator).evaluateTree (.signed .minus (.literal 7)) = .ok (-7) := by
  have parsed : (⟨2⟩ : Calculator).parse "-7" = .ok (.signed .minus (.literal 7)) := rfl
  refine ⟨(evaluate_tooDeep_iff ⟨0⟩ " 7").1.mpr ⟨rfl, 7, 1, 2, rfl⟩, parsed, ?_⟩
  exact ((evaluate_tooDeep_iff ⟨2⟩ "-7").2 (by decide) _ parsed).2.2

end Calculator

end DeskCalculator

import DeskCalculator.Proofs.Evaluation
import DeskCalculator.Proofs.Grammar.Soundness
import DeskCalculator.Calculator

namespace DeskCalculator

/-!
# Raising the limit

The same input under two limits is followed step by step.  The two runs pass
through the same places until the smaller limit refuses one of them, and then
the refusal is the outcome under the smaller limit.  Nothing else depends on
the limit: no value, no other failure and no position.

Places do not carry the limit.  Only the checks look at it, so agreement is
shown of the two checks and handed on from there.
-/

/-! ## Outcomes that agree -/

/-- An outcome is that of another run, unless it failed for one of the causes
that excuse it. -/
def AgreesUnless {Cause Result : Type} (excuse : Cause -> Prop)
    (outcome other : Except Cause Result) : Prop :=
  outcome = other ∨ Exists fun cause : Cause => excuse cause ∧ outcome = .error cause

namespace AgreesUnless

variable {Cause Other Result More : Type} {excuse : Cause -> Prop} {wider : Other -> Prop}
  {outcome other : Except Cause Result}

theorem refl (outcome : Except Cause Result) : AgreesUnless excuse outcome outcome :=
  .inl rfl

theorem excused {cause : Cause} (excuses : excuse cause) (other : Except Cause Result) :
    AgreesUnless excuse (.error cause) other :=
  .inr ⟨cause, excuses, rfl⟩

/-- Stages that agree may be followed by stages that agree. -/
theorem bind {continuation goOn : Result -> Except Cause More}
    (first : AgreesUnless excuse outcome other)
    (later : forall result, AgreesUnless excuse (continuation result) (goOn result)) :
    AgreesUnless excuse (outcome >>= continuation) (other >>= goOn) := by
  rcases first with rfl | ⟨cause, excuses, rfl⟩
  · cases outcome with
    | ok result => exact later result
    | error cause => exact refl _
  · exact excused excuses _

theorem mapError (agrees : AgreesUnless excuse outcome other) {relabel : Cause -> Other}
    (keeps : forall cause, excuse cause -> wider (relabel cause)) :
    AgreesUnless wider (outcome.mapError relabel) (other.mapError relabel) := by
  rcases agrees with rfl | ⟨cause, excuses, rfl⟩
  · exact refl _
  · exact excused (keeps cause excuses) _

/-- A success needs no excuse. -/
theorem eq_of_ok {result : Result} (agrees : AgreesUnless excuse (.ok result) other) :
    other = .ok result := by
  rcases agrees with same | ⟨cause, _, failed⟩
  · exact same.symm
  · cases failed

end AgreesUnless

/-- Reading failed because a place or a tree exceeds the limit. -/
def SyntaxError.Exceeds (limit : Nat) (error : SyntaxError) : Prop :=
  Exists fun position : Nat => error = .tooDeep limit position

/-- Evaluation failed because a node exceeds the limit. -/
def EvaluationError.Exceeds (limit : Nat) (error : EvaluationError) : Prop :=
  error = .tooDeep limit

/-- A calculation failed because something exceeds the limit, at whichever
stage. -/
def CalculationError.Exceeds (limit : Nat) : CalculationError -> Prop
  | .lexical _ => False
  | .syntactic error => error.Exceeds limit
  | .evaluation error => error.Exceeds limit

/-! ## Reading under two limits -/

variable {lower upper : Nat}

theorem Surroundings.descend_agrees (le : lower ≤ upper) (around : Surroundings) (position : Nat)
    {Result : Type} (continuation : Except SyntaxError Result) :
    AgreesUnless (SyntaxError.Exceeds lower)
      ((around.nesting lower).descend position >>= fun _ => continuation)
      ((around.nesting upper).descend position >>= fun _ => continuation) := by
  by_cases room : around.level < lower
  · have passes : (around.nesting lower).descend position = .ok ⟨lower, around.level + 1⟩ :=
      if_pos room
    have passesAbove : (around.nesting upper).descend position = .ok ⟨upper, around.level + 1⟩ :=
      if_pos (Nat.lt_of_lt_of_le room le)
    rw [passes, passesAbove]
    exact .refl continuation
  · have refused : (around.nesting lower).descend position = .error (.tooDeep lower position) :=
      if_neg room
    rw [refused]
    exact .excused ⟨position, rfl⟩ _

theorem Subtree.checked_agrees (le : lower ≤ upper) (position : Nat) (tree : Subtree) :
    AgreesUnless (SyntaxError.Exceeds lower) (checked lower position tree)
      (checked upper position tree) := by
  by_cases fits : tree.height ≤ lower
  · rw [checked, checked, if_pos fits, if_pos (Nat.le_trans fits le)]
    exact .refl _
  · rw [checked, if_neg fits]
    exact .excused ⟨position, rfl⟩ _

theorem Pending.fill_agrees (le : lower ≤ upper) (operand : Subtree) (pending : Pending) :
    AgreesUnless (SyntaxError.Exceeds lower) (pending.fill lower operand)
      (pending.fill upper operand) := by
  cases pending <;> exact Subtree.checked_agrees le _ _

theorem Pending.fillAll_agrees (le : lower ≤ upper) (operand : Subtree) (pending : List Pending) :
    AgreesUnless (SyntaxError.Exceeds lower) (fillAll lower operand pending)
      (fillAll upper operand pending) := by
  induction pending generalizing operand with
  | nil => exact .refl _
  | cons innermost outer ih =>
      rw [fillAll_cons, fillAll_cons]
      exact (fill_agrees le operand innermost).bind ih

namespace Reading

theorem await_agrees (le : lower ≤ upper) (around : Surroundings) (pending : Pending) :
    AgreesUnless (SyntaxError.Exceeds lower) (await lower around pending)
      (await upper around pending) := by
  unfold await
  split
  · exact around.descend_agrees le pending.position _
  · exact .refl _

theorem readOperand_agrees (le : lower ≤ upper) (around : Surroundings) (token : Token)
    (position : Nat) :
    AgreesUnless (SyntaxError.Exceeds lower) (readOperand lower around token position)
      (readOperand upper around token position) := by
  cases token with
  | openParen => exact around.descend_agrees le position _
  | operator operator =>
      dsimp only [readOperand]
      split
      · exact await_agrees le around _
      · exact .refl _
  | _ => exact .refl _

theorem closeArguments_agrees (le : lower ≤ upper) (callee : Callee) (arguments : List Subtree)
    (around : Surroundings) :
    AgreesUnless (SyntaxError.Exceeds lower) (closeArguments lower callee arguments around)
      (closeArguments upper callee arguments around) :=
  (Subtree.checked_agrees le _ _).bind fun _ => .refl _

theorem readOperator_agrees (le : lower ≤ upper) (left : Subtree) (around : Surroundings)
    (operator : Operator) (position : Nat) :
    AgreesUnless (SyntaxError.Exceeds lower) (readOperator lower left around operator position)
      (readOperator upper left around operator position) :=
  (Pending.fillAll_agrees le left _).bind fun larger =>
    await_agrees le _ (.binary operator larger position)

theorem readDelimiter_agrees (le : lower ≤ upper) (whole : Subtree)
    (enclosures : List (Enclosure × List Pending)) (token : Token) (position : Nat) :
    AgreesUnless (SyntaxError.Exceeds lower)
      (readDelimiter lower whole enclosures token position)
      (readDelimiter upper whole enclosures token position) := by
  cases enclosures with
  | nil => cases token <;> exact .refl _
  | cons enclosed outer =>
      rcases enclosed with ⟨_ | ⟨callee, opened, reversed⟩, pending⟩
      · cases token <;> exact .refl _
      · cases token with
        | closeParen => exact closeArguments_agrees le callee _ _
        | _ => exact .refl _

/-- One token leads to the same place under both limits, unless the smaller
one refuses it. -/
theorem step_agrees (le : lower ≤ upper) (reading : Reading) (token : Token) (position : Nat) :
    AgreesUnless (SyntaxError.Exceeds lower) (reading.step lower token position)
      (reading.step upper token position) := by
  cases reading with
  | beforeOperand around => exact readOperand_agrees le around token position
  | afterName callee around =>
      cases token with
      | openParen => exact around.descend_agrees le position _
      | _ => exact .refl _
  | beforeArguments callee opened around =>
      by_cases closes : token = .closeParen
      · subst closes
        exact closeArguments_agrees le callee [] around
      · rw [step_beforeArguments closes, step_beforeArguments closes]
        exact readOperand_agrees le (around.enclose (.call callee opened [])) token position
  | afterOperand operand around =>
      cases token with
      | operator operator => exact readOperator_agrees le operand around operator position
      | _ =>
          exact (Pending.fillAll_agrees le operand around.pending).bind fun whole =>
            readDelimiter_agrees le whole around.enclosures _ position

theorem conclude_agrees (le : lower ≤ upper) (reading : Reading) (position : Nat) :
    AgreesUnless (SyntaxError.Exceeds lower) (reading.conclude lower position)
      (reading.conclude upper position) := by
  cases reading with
  | afterOperand operand around =>
      exact (Pending.fillAll_agrees le operand around.pending).bind fun _ => .refl _
  | _ => exact .refl _

/-- All tokens lead to the same outcome under both limits, unless the smaller
one refuses one of them. -/
theorem run_agrees (le : lower ≤ upper) (reading : Reading) (last : Nat)
    (lexemes : List Lexeme) :
    AgreesUnless (SyntaxError.Exceeds lower) (reading.run lower last lexemes)
      (reading.run upper last lexemes) := by
  induction lexemes generalizing reading last with
  | nil => exact (conclude_agrees le reading 0).bind fun _ => .refl _
  | cons next rest ih =>
      rcases next with ⟨token, position⟩
      cases token with
      | endOfInput => exact conclude_agrees le reading position
      | _ => exact (step_agrees le reading _ position).bind fun reached => ih reached position

end Reading

theorem Expr.ofLexemes_agrees (le : lower ≤ upper) (lexemes : List Lexeme) :
    AgreesUnless (SyntaxError.Exceeds lower) (ofLexemes lower lexemes)
      (ofLexemes upper lexemes) := by
  unfold ofLexemes
  split
  · exact .refl _
  · exact .refl _
  · exact Reading.start.run_agrees le 0 lexemes

/-! ## Evaluation under two limits -/

namespace Expr

mutual

theorem evaluateAt_agrees (le : lower ≤ upper) (level : Nat) (tree : Expr) :
    AgreesUnless (EvaluationError.Exceeds lower) (evaluateAt lower level tree)
      (evaluateAt upper level tree) := by
  by_cases room : level ≤ lower
  · rw [evaluateAt_of_le room, evaluateAt_of_le (Nat.le_trans room le)]
    match tree with
    | .literal value => exact .refl _
    | .signed sign operand =>
        exact (evaluateAt_agrees le (level + 1) operand).bind fun _ => .refl _
    | .binary operator left right =>
        exact (evaluateAt_agrees le (level + 1) left).bind fun _ =>
          (evaluateAt_agrees le (level + 1) right).bind fun _ => .refl _
    | .call name arguments =>
        exact (evaluateAllAt_agrees le (level + 1) arguments).bind fun _ => .refl _
  · rw [evaluateAt_of_lt (Nat.not_le.mp room)]
    exact .inr ⟨_, rfl, rfl⟩

theorem evaluateAllAt_agrees (le : lower ≤ upper) (level : Nat) (trees : List Expr) :
    AgreesUnless (EvaluationError.Exceeds lower) (evaluateAllAt lower level trees)
      (evaluateAllAt upper level trees) := by
  match trees with
  | [] => exact .refl _
  | tree :: trees =>
      exact (evaluateAt_agrees le level tree).bind fun _ =>
        (evaluateAllAt_agrees le level trees).bind fun _ => .refl _

end

end Expr

namespace Calculator

theorem parse_agrees (le : lower ≤ upper) (text : String) :
    AgreesUnless (CalculationError.Exceeds lower) ((⟨lower⟩ : Calculator).parse text)
      ((⟨upper⟩ : Calculator).parse text) :=
  (AgreesUnless.refl (lexemes text)).bind fun split =>
    (Expr.ofLexemes_agrees le split).mapError fun _ exceeds => exceeds

theorem evaluateTree_agrees (le : lower ≤ upper) (tree : Expr) :
    AgreesUnless (CalculationError.Exceeds lower) ((⟨lower⟩ : Calculator).evaluateTree tree)
      ((⟨upper⟩ : Calculator).evaluateTree tree) :=
  (tree.evaluateAt_agrees le 1).mapError fun _ exceeds => exceeds

/-- Raising the limit never changes an answer: what a calculator does under a
limit is what it does under a larger one, positions included, unless it fails
because the smaller limit is exceeded. -/
theorem larger_limit_agrees (lower upper : Nat) (le : lower ≤ upper) :
    (forall text : String,
      AgreesUnless (CalculationError.Exceeds lower) ((⟨lower⟩ : Calculator).evaluate text)
        ((⟨upper⟩ : Calculator).evaluate text)) ∧
    (forall text : String,
      AgreesUnless (CalculationError.Exceeds lower) ((⟨lower⟩ : Calculator).parse text)
        ((⟨upper⟩ : Calculator).parse text)) ∧
    (forall (text : String) (tree : Expr), (⟨lower⟩ : Calculator).parse text = .ok tree ->
      (⟨upper⟩ : Calculator).parse text = .ok tree) ∧
    (forall tree : Expr,
      AgreesUnless (CalculationError.Exceeds lower) ((⟨lower⟩ : Calculator).evaluateTree tree)
        ((⟨upper⟩ : Calculator).evaluateTree tree)) := by
  refine ⟨?_, parse_agrees le, ?_, evaluateTree_agrees le⟩
  · intro text
    exact (parse_agrees le text).bind fun tree => evaluateTree_agrees le tree
  · intro text tree parsed
    have agrees := parse_agrees le text
    rw [parsed] at agrees
    exact agrees.eq_of_ok

/-- A group inside a sign needs two levels.  One parenthesis more exceeds two
levels before it is missed at the end. -/
theorem larger_limit_agrees_group :
    2 ≤ 5 ∧ (⟨5⟩ : Calculator).parse "-(1)" = .ok (.signed .minus (.literal 1)) ∧
      (⟨2⟩ : Calculator).evaluate "-((1)" = .error (.syntactic (.tooDeep 2 2)) ∧
      (⟨5⟩ : Calculator).evaluate "-((1)" = .error (.syntactic (.unclosedParen 1)) ∧
      AgreesUnless (CalculationError.Exceeds 2) ((⟨2⟩ : Calculator).evaluate "-((1)")
        ((⟨5⟩ : Calculator).evaluate "-((1)") := by
  have le : 2 ≤ 5 := by decide
  have parsed : (⟨2⟩ : Calculator).parse "-(1)" = .ok (.signed .minus (.literal 1)) := rfl
  have agrees := larger_limit_agrees 2 5 le
  exact ⟨le, agrees.2.2.1 _ _ parsed, rfl, rfl, agrees.1 _⟩

end Calculator

end DeskCalculator

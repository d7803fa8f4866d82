import DeskCalculator.Proofs.Parsing

namespace DeskCalculator

/-!
# Renaming positions

Positions are carried along and reported, and nothing else is done with them:
no decision of the reader depends on one.  So if all positions of some lexemes
are renamed, the tree stays the same, and an error is the same with its position
renamed.  The lexer counts from the position that it is given, and starting
later only adds the difference.

Renaming is any function of positions.  It need not be injective, and it need
not keep their order.
-/

/-! ## What has positions -/

section Definitions

variable (move : Nat -> Nat)

/-- The lexeme at another position. -/
def Lexeme.relocate (lexeme : Lexeme) : Lexeme :=
  ⟨lexeme.token, move lexeme.position⟩

/-- The error at another position. -/
def LexicalError.relocate : LexicalError -> LexicalError
  | .unexpectedCharacter character position => .unexpectedCharacter character (move position)
  | .invalidNumber literal position => .invalidNumber literal (move position)

/-- The error at another position. -/
def SyntaxError.relocate : SyntaxError -> SyntaxError
  | .emptyExpression position => .emptyExpression (move position)
  | .unexpectedToken found position => .unexpectedToken found (move position)
  | .missingSeparator found position => .missingSeparator found (move position)
  | .unexpectedEnd position => .unexpectedEnd (move position)
  | .unclosedParen position => .unclosedParen (move position)
  | .unmatchedParen position => .unmatchedParen (move position)
  | .trailingTokens first position => .trailingTokens first (move position)
  | .bareIdentifier name position => .bareIdentifier name (move position)
  | .tooDeep limit position => .tooDeep limit (move position)

/-- The error at another position, if it has one. -/
def CalculationError.relocate : CalculationError -> CalculationError
  | .lexical error => .lexical (error.relocate move)
  | .syntactic error => .syntactic (error.relocate move)
  | .evaluation error => .evaluation error

/-- The pending construct with its position renamed. -/
def Pending.relocate : Pending -> Pending
  | .signed sign position => .signed sign (move position)
  | .binary operator left position => .binary operator left (move position)

/-- The name that is called with its position renamed. -/
def Callee.relocate (callee : Callee) : Callee :=
  ⟨callee.name, move callee.position⟩

/-- The enclosure with its positions renamed. -/
def Enclosure.relocate : Enclosure -> Enclosure
  | .group opened => .group (move opened)
  | .call callee opened reversed => .call (callee.relocate move) (move opened) reversed

/-- What is enclosed and pending, with its positions renamed. -/
def Surroundings.relocate (around : Surroundings) : Surroundings where
  pending := around.pending.map (Pending.relocate move)
  enclosures := around.enclosures.map fun enclosed =>
    (enclosed.1.relocate move, enclosed.2.map (Pending.relocate move))

/-- The reading with its positions renamed. -/
def Reading.relocate : Reading -> Reading
  | .beforeOperand around => .beforeOperand (around.relocate move)
  | .afterName callee around => .afterName (callee.relocate move) (around.relocate move)
  | .beforeArguments callee opened around =>
      .beforeArguments (callee.relocate move) (move opened) (around.relocate move)
  | .afterOperand operand around => .afterOperand operand (around.relocate move)

end Definitions

/-! ## Reading -/

variable {move : Nat -> Nat} {limit position : Nat}

/-- The outcome is the other one with the positions of its error renamed, and of
its result as far as it has some. -/
abbrev Renames {Result : Type} (move : Nat -> Nat) (rename : Result -> Result)
    (renamed outcome : Except SyntaxError Result) : Prop :=
  renamed = Outcome.rename (SyntaxError.relocate move) rename outcome

theorem Subtree.checked_relocate (tree : Subtree) :
    Renames move id (checked limit (move position) tree) (checked limit position tree) := by
  unfold checked
  split <;> rfl

namespace Pending

theorem fill_relocate (operand : Subtree) (pending : Pending) :
    Renames move id ((pending.relocate move).fill limit operand) (pending.fill limit operand) := by
  cases pending <;> exact Subtree.checked_relocate _

theorem fillAll_relocate (operand : Subtree) (several : List Pending) :
    Renames move id (fillAll limit operand (several.map (Pending.relocate move)))
      (fillAll limit operand several) := by
  induction several generalizing operand with
  | nil => rfl
  | cons innermost outer ih =>
      rw [List.map_cons, fillAll_cons, fillAll_cons]
      exact Outcome.rename_bind (fill_relocate operand innermost) ih

theorem nests_relocate (pending : Pending) : (pending.relocate move).nests = pending.nests := by
  cases pending <;> rfl

theorem yieldsTo_relocate (next : Operator) :
    yieldsTo next ∘ Pending.relocate move = yieldsTo next := by
  funext pending
  cases pending <;> rfl

theorem countP_relocate (several : List Pending) :
    (several.map (Pending.relocate move)).countP nests = several.countP nests := by
  rw [List.countP_map]
  exact List.countP_congr fun pending _ => by simp [nests_relocate]

end Pending

namespace Surroundings

theorem level_relocate (around : Surroundings) : (around.relocate move).level = around.level := by
  simp only [level, relocate, Pending.countP_relocate, List.map_map, Function.comp_def]

theorem descend_relocate (around : Surroundings) :
    Renames move id (((around.relocate move).nesting limit).descend (move position))
      ((around.nesting limit).descend position) := by
  have same : (around.relocate move).nesting limit = around.nesting limit := by
    simp only [nesting, level_relocate]
  rw [same]
  unfold Nesting.descend
  split <;> rfl

end Surroundings

namespace Reading

variable {around : Surroundings} {token : Token}

theorem await_relocate (pending : Pending) :
    Renames move (Reading.relocate move)
      (await limit (around.relocate move) (pending.relocate move))
      (await limit around pending) := by
  unfold await
  rw [Pending.nests_relocate]
  split
  · have place : (pending.relocate move).position = move pending.position := by
      cases pending <;> rfl
    rw [place]
    exact Outcome.rename_bind around.descend_relocate fun _ => rfl
  · rfl

theorem readOperand_relocate :
    Renames move (Reading.relocate move)
      (readOperand limit (around.relocate move) token (move position))
      (readOperand limit around token position) := by
  cases token with
  | openParen => exact Outcome.rename_bind around.descend_relocate fun _ => rfl
  | operator operator =>
      dsimp only [readOperand]
      cases Sign.ofOperator? operator with
      | none => rfl
      | some sign => exact await_relocate (.signed sign position)
  | _ => rfl

theorem closeArguments_relocate (callee : Callee) (arguments : List Subtree) :
    Renames move (Reading.relocate move)
      (closeArguments limit (callee.relocate move) arguments (around.relocate move))
      (closeArguments limit callee arguments around) :=
  Outcome.rename_bind (Subtree.checked_relocate _) fun _ => rfl

theorem readOperator_relocate (left : Subtree) (operator : Operator) :
    Renames move (Reading.relocate move)
      (readOperator limit left (around.relocate move) operator (move position))
      (readOperator limit left around operator position) := by
  unfold readOperator
  have inner : (around.relocate move).pending.takeWhile (Pending.yieldsTo operator) =
      (around.pending.takeWhile (Pending.yieldsTo operator)).map (Pending.relocate move) := by
    rw [Surroundings.relocate, List.takeWhile_map, Pending.yieldsTo_relocate]
  have outer : (around.relocate move).pending.dropWhile (Pending.yieldsTo operator) =
      (around.pending.dropWhile (Pending.yieldsTo operator)).map (Pending.relocate move) := by
    rw [Surroundings.relocate, List.dropWhile_map, Pending.yieldsTo_relocate]
  rw [inner, outer]
  exact Outcome.rename_bind (Pending.fillAll_relocate left _) fun larger =>
    @await_relocate move limit
      { around with pending := around.pending.dropWhile (Pending.yieldsTo operator) }
      (.binary operator larger position)

theorem readDelimiter_relocate (whole : Subtree) :
    Renames move (Reading.relocate move)
      (readDelimiter limit whole (around.relocate move).enclosures token (move position))
      (readDelimiter limit whole around.enclosures token position) := by
  rcases around with ⟨pending, enclosures⟩
  cases enclosures with
  | nil => cases token <;> rfl
  | cons enclosed outer =>
      rcases enclosed with ⟨_ | ⟨callee, opened, reversed⟩, outside⟩
      · cases token <;> rfl
      · cases token with
        | closeParen => exact @closeArguments_relocate move limit ⟨outside, outer⟩ callee _
        | _ => rfl

/-- One token at a renamed position leads to the renamed place. -/
theorem step_relocate (reading : Reading) :
    Renames move (Reading.relocate move)
      ((reading.relocate move).step limit token (move position))
      (reading.step limit token position) := by
  cases reading with
  | beforeOperand around => exact readOperand_relocate
  | afterName callee around =>
      cases token with
      | openParen => exact Outcome.rename_bind around.descend_relocate fun _ => rfl
      | _ => rfl
  | beforeArguments callee opened around =>
      by_cases closes : token = .closeParen
      · subst closes
        exact closeArguments_relocate callee []
      · rw [relocate, step_beforeArguments closes, step_beforeArguments closes]
        exact @readOperand_relocate move limit position
          (around.enclose (.call callee opened [])) token
  | afterOperand operand around =>
      cases token with
      | operator operator => exact readOperator_relocate operand operator
      | _ =>
          exact Outcome.rename_bind (Pending.fillAll_relocate operand around.pending)
            fun whole => readDelimiter_relocate whole

theorem conclude_relocate (reading : Reading) :
    Renames move id ((reading.relocate move).conclude limit (move position))
      (reading.conclude limit position) := by
  cases reading with
  | afterOperand operand around =>
      refine Outcome.rename_bind (Pending.fillAll_relocate operand around.pending) fun whole => ?_
      rcases around with ⟨pending, enclosures⟩
      cases enclosures with
      | nil => rfl
      | cons enclosed outer =>
          rcases enclosed with ⟨_ | ⟨callee, opened, reversed⟩, outside⟩ <;> rfl
  | _ => rfl

/-- All tokens at renamed positions; the end of the input is among them. -/
theorem run_relocate (reading : Reading) (last other final : Nat) (ahead : List Lexeme) :
    Renames move id
      ((reading.relocate move).run limit other
        ((ahead ++ [Lexeme.mk .endOfInput final]).map (Lexeme.relocate move)))
      (reading.run limit last (ahead ++ [⟨.endOfInput, final⟩])) := by
  induction ahead generalizing reading last other with
  | nil => exact reading.conclude_relocate
  | cons lexeme ahead ih =>
      rcases lexeme with ⟨token, position⟩
      by_cases ends : token = .endOfInput
      · subst ends
        exact reading.conclude_relocate
      · rw [List.cons_append, List.map_cons, Lexeme.relocate, run_cons ends, run_cons ends]
        exact Outcome.rename_bind reading.step_relocate fun next => ih next position (move position)

end Reading

/-- Renaming the positions of lexemes renames the position of the error and
leaves the tree as it is. -/
theorem Expr.ofLexemes_relocate (move : Nat -> Nat) (limit : Nat) (stretch : List Lexeme)
    (final : Nat) :
    Renames move id
      (Expr.ofLexemes limit ((stretch ++ [Lexeme.mk .endOfInput final]).map (Lexeme.relocate move)))
      (Expr.ofLexemes limit (stretch ++ [⟨.endOfInput, final⟩])) := by
  cases stretch with
  | nil => rfl
  | cons first rest =>
      rcases first with ⟨token, position⟩
      by_cases ends : token = .endOfInput
      · subst ends
        rfl
      · have read := @Reading.run_relocate move limit Reading.start 0 0 final
          (Lexeme.mk token position :: rest)
        rw [List.cons_append, List.map_cons, Lexeme.relocate] at read ⊢
        rw [Expr.ofLexemes_cons ends, Expr.ofLexemes_cons ends]
        exact read

/-! ## Scanning -/

/-- Scanning from a later position on finds the same lexemes or the same error,
later by the difference. -/
theorem scan_relocate (offset inside position : Nat) (characters : List Char) :
    scan inside (offset + position) characters =
      Outcome.rename (LexicalError.relocate (offset + ·))
        (List.map (Lexeme.relocate (offset + ·))) (scan inside position characters) := by
  induction characters generalizing inside position with
  | nil => cases inside <;> rfl
  | cons first rest ih =>
      cases inside with
      | succ inside =>
          rw [scan, scan, Nat.add_assoc]
          exact ih inside _
      | zero =>
          rw [scan, scan, Nat.add_assoc]
          split
          · exact ih 0 _
          · cases Recognition.ofChars (first :: rest) with
            | lexeme token more =>
                dsimp only
                rw [ih more]
                cases scan more (position + first.utf8Size) rest <;> rfl
            | unreadable literal => rfl
            | unexpected => rfl

/-! ## Calculators -/

namespace Calculator

variable {calculator : Calculator} {text other : String}

/-- A text that splits like another one at renamed positions is read like it. -/
theorem parse_relocate
    (renamed : tokenize (normalize other) = Outcome.rename (LexicalError.relocate move)
      (List.map (Lexeme.relocate move)) (tokenize (normalize text))) :
    calculator.parse other =
      Outcome.rename (CalculationError.relocate move) id (calculator.parse text) := by
  cases split : tokenize (normalize text) with
  | error error =>
      rw [split] at renamed
      rw [parse_of_tokenize_error split, parse_of_tokenize_error renamed]
      rfl
  | ok found =>
      rw [split] at renamed
      rcases ((tokenize_eq_ok_iff _ _).mp split).ends with ⟨stretch, final, rfl, _⟩
      rw [parse_of_tokenize_ok split, parse_of_tokenize_ok renamed, Expr.ofLexemes_relocate]
      cases Expr.ofLexemes calculator.maxDepth (stretch ++ [⟨.endOfInput, final⟩]) <;> rfl

/-- A text that is read like another one is evaluated like it; the errors of
evaluation have no position. -/
theorem evaluate_relocate
    (renamed : calculator.parse other =
      Outcome.rename (CalculationError.relocate move) id (calculator.parse text)) :
    calculator.evaluate other =
      Outcome.rename (CalculationError.relocate move) id (calculator.evaluate text) := by
  refine Outcome.rename_bind renamed fun tree => ?_
  rw [id_eq, evaluateTree]
  cases tree.evaluate calculator.maxDepth <;> rfl

end Calculator

end DeskCalculator

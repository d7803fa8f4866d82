import DeskCalculator.Proofs.ErrorPlaces
import DeskCalculator.Proofs.WhiteSpace

namespace DeskCalculator

/-!
# Previews and evaluation

A preview is meant to show what the evaluation of the same text comes to, but it
evaluates the trimmed text.  Its errors therefore count bytes from the first
visible character on, whereas those of the evaluation count from the start, and
white space that the lexer does not skip is gone before it can be refused.

What the evaluation comes to can still be told from the preview and the white
space at the ends.  With nothing but blanks there, the value is the same, and an
error is the same later in the text.  With a foreign character among them, the
evaluation refuses the first one, unless the lexer fails before it.
-/

/-- Errors at the same place of two renamings are renamed alike. -/
theorem SyntaxError.relocate_congr {move other : Nat -> Nat} {error : SyntaxError}
    (same : move error.position = other error.position) :
    error.relocate move = error.relocate other := by
  cases error <;> exact congrArg _ same

/-- Nothing changes where no byte is in front. -/
theorem CalculationError.relocate_zero (error : CalculationError) :
    error.relocate (0 + ·) = error := by
  cases error with
  | lexical error => cases error <;> simp only [relocate, LexicalError.relocate, Nat.zero_add]
  | syntactic error => cases error <;> simp only [relocate, SyntaxError.relocate, Nat.zero_add]
  | evaluation error => rfl

namespace Calculator

variable {calculator : Calculator} {text : String}

/-! ## The trimmed text and the whole text -/

/-- A visible end that does not ask for more is the end of a lexeme that does
not either. -/
theorem not_asksForMore {stretch : List Lexeme} {final : Nat} {last : Char}
    (split : tokenize (normalize (trimText text)) = .ok (stretch ++ [⟨.endOfInput, final⟩]))
    (found : (trimChars text.toList).getLast? = some last)
    (complete : Preview.isUnfinished last = false) :
    Reading.start.asksForMore stretch = false := by
  have splits := (tokenize_eq_ok_iff _ _).mp split
  rw [normalize, trimText, String.toList_ofList, String.toList_ofList] at splits
  rcases List.eq_nil_or_concat stretch with rfl | ⟨front, lexeme, rfl⟩
  · have blank := splits.isBlank_of_end rfl
    rcases List.getLast?_eq_some_iff.mp found with ⟨before, shape⟩
    rcases List.exists_mem_of_ne_nil _ (glyphSpelling_ne_nil last) with ⟨spelled, spelling⟩
    have skipped : isBlank spelled = true := by
      apply blank
      rw [shape, normalizeChars_concat]
      exact List.mem_append_right _ spelling
    rcases glyphSpelling_cases last with ⟨_, spelledBy⟩ | same
    · rw [isBlank_eq_false_of_spelling (spelledBy spelled spelling)] at skipped
      cases skipped
    · rw [same, List.mem_singleton] at spelling
      have white := isWhiteSpace_of_isBlank (spelling ▸ skipped)
      rw [isWhiteSpace_eq_false_of_getLast? found] at white
      cases white
  · rw [List.concat_eq_append, List.append_assoc] at splits
    rcases getLast?_trimChars_of_splits splits with ⟨other, seen, kind⟩
    rw [trimChars_trimChars, found] at seen
    cases seen
    rw [Reading.asksForMore, List.concat_eq_append, List.getLast?_concat]
    exact kind.trans complete

/-- With nothing but blanks at its ends, a text is read like the trimmed text. -/
theorem parse_trimmed {last : Char} (found : (trimChars text.toList).getLast? = some last)
    (complete : Preview.isUnfinished last = false) (blank : AllBlank (leadingWhite text.toList))
    (blankAfter : AllBlank (trailingWhite text.toList)) :
    calculator.parse text =
      Outcome.rename (CalculationError.relocate (leadingBytes text + ·)) id
        (calculator.parse (trimText text)) := by
  cases split : tokenize (normalize (trimText text)) with
  | error error =>
      rw [parse_of_tokenize_error split,
        parse_of_tokenize_error (tokenize_trimmed_error text blank split)]
      rfl
  | ok lexemes =>
      rcases ((tokenize_eq_ok_iff _ _).mp split).ends with ⟨stretch, final, rfl, _⟩
      rcases tokenize_trimmed_ok text blank blankAfter split with ⟨atEnd, before, splitWhole⟩
      rw [parse_of_tokenize_ok split, parse_of_tokenize_ok splitWhole, Expr.ofLexemes_relocate]
      have asks := not_asksForMore split found complete
      have keeps := Expr.ofLexemes_keepsTo calculator.maxDepth stretch final
        (fun _ member => member) (fun more => absurd more (Bool.eq_false_iff.mp asks))
      cases read : Expr.ofLexemes calculator.maxDepth (stretch ++ [⟨.endOfInput, final⟩]) with
      | ok tree => rfl
      | error cause =>
          rw [read] at keeps
          rcases keeps with ⟨lexeme, member, about⟩
          have inside : cause.position < (normalize (trimText text)).utf8ByteSize :=
            atEnd ▸ about.position_eq ▸ before lexeme member
          have same : cause.relocate (untrimmed text) =
              cause.relocate (leadingBytes text + ·) :=
            SyntaxError.relocate_congr (if_pos inside)
          exact congrArg (fun moved => Except.error (CalculationError.syntactic moved)) same

/-- With nothing but blanks at its ends, a text is evaluated like the trimmed
text. -/
theorem evaluate_trimmed {last : Char} (found : (trimChars text.toList).getLast? = some last)
    (complete : Preview.isUnfinished last = false) (blank : AllBlank (leadingWhite text.toList))
    (blankAfter : AllBlank (trailingWhite text.toList)) :
    calculator.evaluate text =
      Outcome.rename (CalculationError.relocate (leadingBytes text + ·)) id
        (calculator.evaluate (trimText text)) :=
  evaluate_relocate (parse_trimmed found complete blank blankAfter)

end Calculator

namespace Preview

/-- What is shown is the outcome itself, with a value as it is displayed. -/
inductive Agrees : Preview -> Except CalculationError Float -> Prop
  | value {result : Float} {shown : String} :
      displayText result = shown -> Agrees (.value shown) (.ok result)
  | failed (error : CalculationError) : Agrees (.failed error) (.error error)

/-- The preview is a value, or an error that comes after the lexer. -/
inductive IsLexed : Preview -> Prop
  | value (shown : String) : IsLexed (.value shown)
  | syntactic (error : SyntaxError) : IsLexed (.failed (.syntactic error))
  | evaluation (error : EvaluationError) : IsLexed (.failed (.evaluation error))

/-- How the outcome for a text goes with what is shown for it. -/
inductive Foretells (text : String) : Preview -> Except CalculationError Float -> Prop
  | value (result : Float) :
      AllBlank (leadingWhite text.toList) -> AllBlank (trailingWhite text.toList) ->
      Foretells text (.value (displayText result)) (.ok result)
  | failed (error : CalculationError) :
      AllBlank (leadingWhite text.toList) ->
      (AllBlank (trailingWhite text.toList) ∨
        Exists fun cause : LexicalError => error = .lexical cause) ->
      Foretells text (.failed error) (.error (error.relocate (leadingBytes text + ·)))
  | leading {shown : Preview} {blanks : List Char} {character : Char} :
      FirstForeign (leadingWhite text.toList) blanks character ->
      Foretells text shown (.error (.lexical (.unexpectedCharacter character (byteCount blanks))))
  | trailing {shown : Preview} {blanks : List Char} {character : Char} :
      shown.IsLexed -> AllBlank (leadingWhite text.toList) ->
      FirstForeign (trailingWhite text.toList) blanks character ->
      Foretells text shown (.error (.lexical
        (.unexpectedCharacter character (trimmedEnd text + byteCount blanks))))

/-- White space is all blank, or there is a first character in it that is not. -/
theorem allBlank_or_firstForeign (white : List Char) :
    AllBlank white ∨ Exists fun blanks : List Char => Exists fun character : Char =>
      FirstForeign white blanks character := by
  rcases exists_run isBlank white with ⟨blanks, rest, rfl, allBlank, halts⟩
  cases rest with
  | nil => exact .inl (by rwa [List.append_nil])
  | cons character more =>
      exact .inr ⟨blanks, character, allBlank, halts character rfl, more, rfl⟩

/-- What is shown for an outcome. -/
def ofOutcome : Except CalculationError Float -> Preview
  | .ok result => value (displayText result)
  | .error error => failed error

/-- A preview is empty, unfinished, or shows the outcome for the trimmed text. -/
theorem ofText_cases (calculator : Calculator) (text : String) :
    ofText calculator text = .empty ∨ ofText calculator text = .pending ∨
      Exists fun last : Char => (trimChars text.toList).getLast? = some last ∧
        isUnfinished last = false ∧
        ofText calculator text = ofOutcome (calculator.evaluate (trimText text)) := by
  have seen : (trimText text).toList = trimChars text.toList := String.toList_ofList
  unfold ofText
  dsimp only
  rw [seen]
  cases found : (trimChars text.toList).getLast? with
  | none => exact .inl rfl
  | some last =>
      by_cases unfinished : isUnfinished last = true
      · exact .inr (.inl (if_pos unfinished))
      · refine .inr (.inr ⟨last, rfl, Bool.of_not_eq_true unfinished, (if_neg unfinished).trans ?_⟩)
        cases calculator.evaluate (trimText text) <;> rfl

/-- A text that splits is no error of the lexer. -/
theorem isLexed_ofOutcome {calculator : Calculator} {text : String} {found : List Lexeme}
    (split : tokenize (normalize text) = .ok found) :
    (ofOutcome (calculator.evaluate text)).IsLexed := by
  rw [Calculator.evaluate, Calculator.parse_of_tokenize_ok split]
  cases Expr.ofLexemes calculator.maxDepth found with
  | error cause => exact .syntactic cause
  | ok tree =>
      change (ofOutcome (calculator.evaluateTree tree)).IsLexed
      rw [Calculator.evaluateTree]
      cases tree.evaluate calculator.maxDepth with
      | ok result => exact .value (displayText result)
      | error cause => exact .evaluation cause

/-- With no white space in front and nothing but blanks at the end, a preview
shows the outcome itself. -/
theorem Foretells.agrees {text : String} {shown : Preview}
    {outcome : Except CalculationError Float} (foretells : Foretells text shown outcome)
    (starts : leadingWhite text.toList = []) (blankAfter : AllBlank (trailingWhite text.toList)) :
    shown.Agrees outcome := by
  have nothing : leadingBytes text = 0 := by
    rw [leadingBytes, starts]
    rfl
  cases foretells with
  | value result => exact .value rfl
  | failed error =>
      rw [nothing, error.relocate_zero]
      exact .failed error
  | leading first =>
      rcases first with ⟨_, _, more, shape⟩
      rw [starts] at shape
      exact absurd shape.symm (List.append_ne_nil_of_right_ne_nil _ (List.cons_ne_nil _ _))
  | trailing _ _ first =>
      rcases first with ⟨_, notBlank, more, shape⟩
      rw [shape] at blankAfter
      have blank := blankAfter _ (List.mem_append_right _ (List.mem_cons_self ..))
      rw [notBlank] at blank
      cases blank

/-- A preview that shows a value or an error foretells what the evaluation of
the same text comes to, and it is the outcome itself for a text that starts with
a visible character and ends with nothing but blanks after the last one. -/
theorem ofText_foretells (calculator : Calculator) (text : String)
    (notEmpty : ofText calculator text ≠ .empty) (finished : ofText calculator text ≠ .pending) :
    Foretells text (ofText calculator text) (calculator.evaluate text) ∧
      (leadingWhite text.toList = [] -> AllBlank (trailingWhite text.toList) ->
        (ofText calculator text).Agrees (calculator.evaluate text)) := by
  suffices foretells : Foretells text (ofText calculator text) (calculator.evaluate text) from
    ⟨foretells, foretells.agrees⟩
  rcases ofText_cases calculator text with empty | pending | ⟨last, found, complete, shown⟩
  · exact absurd empty notEmpty
  · exact absurd pending finished
  · rw [shown]
    rcases allBlank_or_firstForeign (leadingWhite text.toList) with
      blank | ⟨blanks, character, first⟩
    · cases split : tokenize (normalize (trimText text)) with
      | error error =>
          rw [Calculator.evaluate_of_tokenize_error split,
            Calculator.evaluate_of_tokenize_error (tokenize_trimmed_error text blank split)]
          exact .failed (.lexical error) blank (.inr ⟨error, rfl⟩)
      | ok lexemes =>
          rcases allBlank_or_firstForeign (trailingWhite text.toList) with
            blankAfter | ⟨blanks, character, first⟩
          · rw [Calculator.evaluate_trimmed found complete blank blankAfter]
            cases calculator.evaluate (trimText text) with
            | ok result => exact .value result blank blankAfter
            | error error => exact .failed error blank (.inl blankAfter)
          · rw [Calculator.evaluate_of_tokenize_error
              (tokenize_trailing_foreign text blank split first)]
            exact .trailing (isLexed_ofOutcome split) blank first
    · rw [Calculator.evaluate_of_tokenize_error (tokenize_leading_foreign text first)]
      exact .leading first

/-- A blank at the end does not matter. -/
theorem ofText_foretells_blank :
    ofText ⟨3⟩ "1 2 " = .failed (.syntactic (.trailingTokens (.number 2) 2)) ∧
      (⟨3⟩ : Calculator).evaluate "1 2 " =
        .error (.syntactic (.trailingTokens (.number 2) 2)) := by
  have shown : ofText ⟨3⟩ "1 2 " = .failed (.syntactic (.trailingTokens (.number 2) 2)) := rfl
  have foretold := ofText_foretells ⟨3⟩ "1 2 " (by rw [shown]; exact nofun)
    (by rw [shown]; exact nofun)
  have blank : AllBlank [' '] := List.forall_mem_singleton.mpr rfl
  have agrees := foretold.2 rfl blank
  rw [shown] at agrees
  cases outcome : (⟨3⟩ : Calculator).evaluate "1 2 " with
  | ok result =>
      rw [outcome] at agrees
      cases agrees
  | error cause =>
      rw [outcome] at agrees
      cases agrees
      exact ⟨shown, rfl⟩

/-- A blank in front makes the error of the evaluation a later one, and a white
character that is no blank makes it fail where the preview shows a value. -/
theorem preview_disagrees :
    ofText ⟨3⟩ " 1 2" = .failed (.syntactic (.trailingTokens (.number 2) 2)) ∧
      (⟨3⟩ : Calculator).evaluate " 1 2" =
        .error (.syntactic (.trailingTokens (.number 2) 3)) ∧
      ¬ (ofText ⟨3⟩ " 1 2").Agrees ((⟨3⟩ : Calculator).evaluate " 1 2") ∧
    ofText ⟨3⟩ "\u00a01" = .value "1" ∧
      (⟨3⟩ : Calculator).evaluate "\u00a01" =
        .error (.lexical (.unexpectedCharacter '\u00a0' 0)) ∧
      ¬ (ofText ⟨3⟩ "\u00a01").Agrees ((⟨3⟩ : Calculator).evaluate "\u00a01") := by
  have shownBlank : ofText ⟨3⟩ " 1 2" =
      .failed (.syntactic (.trailingTokens (.number 2) 2)) := rfl
  have outcomeBlank : (⟨3⟩ : Calculator).evaluate " 1 2" =
      .error (.syntactic (.trailingTokens (.number 2) 3)) := rfl
  have shownForeign : ofText ⟨3⟩ "\u00a01" = .value "1" := rfl
  have outcomeForeign : (⟨3⟩ : Calculator).evaluate "\u00a01" =
      .error (.lexical (.unexpectedCharacter '\u00a0' 0)) := rfl
  refine ⟨shownBlank, outcomeBlank, ?_, shownForeign, outcomeForeign, ?_⟩
  · rw [shownBlank, outcomeBlank]
    intro agrees
    cases agrees
  · rw [shownForeign, outcomeForeign]
    exact nofun

end Preview

end DeskCalculator

import DeskCalculator.Proofs.PreviewAgreement

namespace DeskCalculator

/-!
# Interchangeable spellings

A glyph and its spelling are the same to a calculator, at every place on its own:
a text in which some of the glyphs have been respelled has the same tree, the same
value, the same error at the same position and the same preview as before.

Both texts are respelled to one, so everything after the lexer agrees.  A preview
looks at a text before that, at its white space and at its last character.  Glyphs
are not white and neither are their spellings, and a text that ends in a glyph is
as unfinished as one that ends in the spelling, whose last character may be half
of an operator.
-/

/-- Some of the glyphs of the first text are spelled out in the second, and all
other characters are the same. -/
inductive SpellsOut : List Char -> List Char -> Prop
  | nothing : SpellsOut [] []
  | keep (character : Char) {before after : List Char} : SpellsOut before after ->
      SpellsOut (character :: before) (character :: after)
  | times {before after : List Char} : SpellsOut before after ->
      SpellsOut ('×' :: before) ('*' :: after)
  | slash {before after : List Char} : SpellsOut before after ->
      SpellsOut ('÷' :: before) ('/' :: after)
  | caret {before after : List Char} : SpellsOut before after ->
      SpellsOut ('^' :: before) ('*' :: '*' :: after)

namespace SpellsOut

variable {before after : List Char}

theorem append {first second : List Char} (front : SpellsOut before after)
    (back : SpellsOut first second) : SpellsOut (before ++ first) (after ++ second) := by
  induction front with
  | nothing => exact back
  | keep character _ ih => exact .keep character ih
  | times _ ih => exact .times ih
  | slash _ ih => exact .slash ih
  | caret _ ih => exact .caret ih

theorem reverse (spelled : SpellsOut before after) : SpellsOut before.reverse after.reverse := by
  induction spelled with
  | nothing => exact .nothing
  | keep character _ ih =>
      rw [List.reverse_cons, List.reverse_cons]
      exact ih.append (.keep character .nothing)
  | times _ ih =>
      rw [List.reverse_cons, List.reverse_cons]
      exact ih.append (.times .nothing)
  | slash _ ih =>
      rw [List.reverse_cons, List.reverse_cons]
      exact ih.append (.slash .nothing)
  | caret _ ih =>
      rw [List.reverse_cons, List.reverse_cons, List.reverse_cons, List.append_assoc]
      exact ih.append (.caret .nothing)

/-- Glyphs that are left over are respelled in the end. -/
theorem normalizeChars_eq (spelled : SpellsOut before after) :
    normalizeChars after = normalizeChars before := by
  induction spelled with
  | nothing => rfl
  | keep character _ ih => rw [normalizeChars_cons, normalizeChars_cons, ih]
  | times _ ih => exact congrArg ('*' :: ·) ih
  | slash _ ih => exact congrArg ('/' :: ·) ih
  | caret _ ih => exact congrArg ('*' :: '*' :: ·) ih

/-- White space in front is dropped from both up to the same place. -/
theorem dropWhile_white (spelled : SpellsOut before after) :
    SpellsOut (before.dropWhile isWhiteSpace) (after.dropWhile isWhiteSpace) := by
  induction spelled with
  | nothing => exact .nothing
  | keep character rest ih =>
      by_cases white : isWhiteSpace character = true
      · rw [List.dropWhile_cons_of_pos white, List.dropWhile_cons_of_pos white]
        exact ih
      · rw [List.dropWhile_cons_of_neg white, List.dropWhile_cons_of_neg white]
        exact .keep character rest
  | times rest _ => exact .times rest
  | slash rest _ => exact .slash rest
  | caret rest _ => exact .caret rest

theorem trimChars (spelled : SpellsOut before after) :
    SpellsOut (trimChars before) (trimChars after) :=
  spelled.dropWhile_white.reverse.dropWhile_white.reverse

theorem head?_isUnfinished (spelled : SpellsOut before after) :
    after.head?.map Preview.isUnfinished = before.head?.map Preview.isUnfinished := by
  cases spelled <;> rfl

/-- Both texts are unfinished or neither is, and both are empty or neither is. -/
theorem getLast?_isUnfinished (spelled : SpellsOut before after) :
    after.getLast?.map Preview.isUnfinished = before.getLast?.map Preview.isUnfinished := by
  rw [← List.head?_reverse, ← List.head?_reverse]
  exact spelled.reverse.head?_isUnfinished

end SpellsOut

namespace Calculator

variable {first second : String}

/-- A calculator does not see how a text was spelled. -/
theorem parse_congr (calculator : Calculator) (same : normalize first = normalize second) :
    calculator.parse first = calculator.parse second := by
  rw [parse, parse, lexemes, lexemes, same]

theorem evaluate_congr (calculator : Calculator) (same : normalize first = normalize second) :
    calculator.evaluate first = calculator.evaluate second := by
  rw [evaluate, evaluate, parse_congr calculator same]

end Calculator

/-- A preview takes from the visible end only whether it asks for more. -/
theorem Preview.ofText_eq (calculator : Calculator) (text : String) :
    ofText calculator text =
      match (trimChars text.toList).getLast?.map isUnfinished with
      | none => empty
      | some true => pending
      | some false => ofOutcome (calculator.evaluate (trimText text)) := by
  have seen : (trimText text).toList = trimChars text.toList := String.toList_ofList
  unfold ofText
  dsimp only
  rw [seen]
  cases (trimChars text.toList).getLast? with
  | none => rfl
  | some last =>
      cases unfinished : isUnfinished last with
      | true => simp [unfinished]
      | false =>
          simp only [unfinished, Bool.false_eq_true, if_false, Option.map_some]
          cases calculator.evaluate (trimText text) <;> rfl

namespace Calculator

/-- Glyphs may be spelled out wherever one likes.  The text that results has the
same tree or error of reading, the same value or error, and the same preview. -/
theorem spelling_does_not_matter (calculator : Calculator) (text respelled : String)
    (spelled : SpellsOut text.toList respelled.toList) :
    calculator.parse respelled = calculator.parse text ∧
      calculator.evaluate respelled = calculator.evaluate text ∧
      Preview.ofText calculator respelled = Preview.ofText calculator text := by
  have same : normalize respelled = normalize text := by
    rw [normalize, normalize, spelled.normalizeChars_eq]
  have sameTrimmed : normalize (trimText respelled) = normalize (trimText text) := by
    rw [normalize, normalize, trimText, trimText, String.toList_ofList, String.toList_ofList,
      spelled.trimChars.normalizeChars_eq]
  refine ⟨parse_congr calculator same, evaluate_congr calculator same, ?_⟩
  rw [Preview.ofText_eq, Preview.ofText_eq, spelled.trimChars.getLast?_isUnfinished,
    evaluate_congr calculator sameTrimmed]

/-- One of three glyphs is left as it is.  The visible end is half of an operator,
and the white space after it is one that only trimming takes away. -/
theorem spelling_does_not_matter_caret :
    SpellsOut "8÷2×5^\u2003".toList "8÷2*5**\u2003".toList ∧
      (⟨3⟩ : Calculator).evaluate "8÷2*5**\u2003" =
        .error (.lexical (.unexpectedCharacter '\u2003' 7)) ∧
      Preview.ofText ⟨3⟩ "8÷2*5**\u2003" = .pending ∧
    SpellsOut "8÷2×5".toList "8÷2*5".toList ∧
      (⟨3⟩ : Calculator).evaluate "8÷2*5" = .ok 20 := by
  have spelled : SpellsOut "8÷2×5^\u2003".toList "8÷2*5**\u2003".toList :=
    .keep '8' (.keep '÷' (.keep '2' (.times (.keep '5' (.caret (.keep '\u2003' .nothing))))))
  have finished : SpellsOut "8÷2×5".toList "8÷2*5".toList :=
    .keep '8' (.keep '÷' (.keep '2' (.times (.keep '5' .nothing))))
  have failed : (⟨3⟩ : Calculator).evaluate "8÷2×5^\u2003" =
      .error (.lexical (.unexpectedCharacter '\u2003' 7)) := rfl
  have pending : Preview.ofText ⟨3⟩ "8÷2×5^\u2003" = .pending := rfl
  have value : (⟨3⟩ : Calculator).evaluate "8÷2×5" = .ok 20 := by decide +kernel
  have same := spelling_does_not_matter ⟨3⟩ _ _ spelled
  have sameValue := spelling_does_not_matter ⟨3⟩ _ _ finished
  exact ⟨spelled, same.2.1.trans failed, same.2.2.trans pending, finished,
    sameValue.2.1.trans value⟩

end Calculator

end DeskCalculator

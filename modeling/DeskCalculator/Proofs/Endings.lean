import DeskCalculator.Preview
import DeskCalculator.Proofs.Parsing

namespace DeskCalculator

/-!
# How a text ends

A preview looks at the last visible character of a text and at nothing else
before it decides that an expression is unfinished.  That character is the end
of the last lexeme, and which kind of lexeme ends there can be told from the
character alone, whether it is a glyph or not.  The last lexeme of a derivation
is a number or a closing parenthesis, so a text that is passed over has no tree
under any limit.
-/

/-- The token asks for more after it: an operator, an opening parenthesis or a
comma. -/
def Token.isUnfinished : Token -> Bool
  | .operator _ | .openParen | .comma => true
  | _ => false

/-- Trimming leaves off what is white after the last visible character. -/
theorem trimChars_of_last {front blanks : List Char} {last : Char}
    (visible : isWhiteSpace last = false)
    (white : forall blank, blank ∈ blanks -> isWhiteSpace blank = true) :
    trimChars (front ++ last :: blanks) = front.dropWhile isWhiteSpace ++ [last] := by
  have opening : (front ++ last :: blanks).dropWhile isWhiteSpace =
      front.dropWhile isWhiteSpace ++ last :: blanks := by
    rw [List.dropWhile_append]
    split
    · next empty =>
        rw [List.isEmpty_iff.mp empty, List.dropWhile_cons_of_neg (by simp [visible])]
        rfl
    · rfl
  have closing : (blanks.reverse ++ last :: (front.dropWhile isWhiteSpace).reverse).dropWhile
      isWhiteSpace = last :: (front.dropWhile isWhiteSpace).reverse := by
    rw [List.dropWhile_append_of_pos fun blank member =>
      white blank (List.mem_reverse.mp member), List.dropWhile_cons_of_neg (by simp [visible])]
  rw [trimChars, opening, List.reverse_append, List.reverse_cons, List.append_assoc,
    List.singleton_append, closing, List.reverse_cons, List.reverse_reverse]

/-- There is nothing left to trim after trimming. -/
theorem trimChars_trimChars (characters : List Char) :
    trimChars (trimChars characters) = trimChars characters := by
  have start : (trimChars characters).dropWhile isWhiteSpace = trimChars characters := by
    rw [List.dropWhile_eq_self_iff]
    intro positive
    have beginning : trimChars characters <+: characters.dropWhile isWhiteSpace :=
      List.rdropWhile_prefix isWhiteSpace _
    rw [beginning.getElem positive]
    exact (List.dropWhile_eq_self_iff.mp (List.dropWhile_idempotent isWhiteSpace characters)) _
  have again : trimChars (trimChars characters) =
      ((trimChars characters).dropWhile isWhiteSpace).rdropWhile isWhiteSpace := rfl
  rw [again, start]
  exact List.rdropWhile_idempotent isWhiteSpace _

/-! ## The last character of a lexeme -/

/-- The characters after which a text is unfinished. -/
def unfinishedChars : List Char :=
  ['+', '-', '×', '÷', '*', '/', '%', '^', '(', ',']

theorem isUnfinished_kind {character : Char}
    (other : character.isDigit = true ∨ character.isAlpha = true ∨ character = '.') :
    Preview.isUnfinished character = false := by
  cases unfinished : Preview.isUnfinished character with
  | false => rfl
  | true =>
      have kinds : unfinishedChars.all (fun listed =>
          !listed.isDigit && !listed.isAlpha && listed != '.') = true := by decide
      have member : character ∈ unfinishedChars := List.contains_iff_mem.mp unfinished
      have kind := List.all_eq_true.mp kinds character member
      simp only [Bool.and_eq_true, Bool.not_eq_true', bne_iff_ne] at kind
      rcases kind with ⟨⟨notDigit, notLetter⟩, notPoint⟩
      simp [notDigit, notLetter, notPoint] at other

/-- Whether a lexeme asks for more shows in its last character. -/
theorem Begins.isUnfinished_eq {piece rest : List Char} {token : Token}
    (begins : Begins piece rest token) {front : List Char} {last : Char}
    (shape : piece = front ++ [last]) :
    token.isUnfinished = Preview.isUnfinished last := by
  have member : last ∈ piece := shape ▸ List.mem_append_right _ (List.mem_singleton_self _)
  cases begins with
  | whole _ inside _ _ => exact (isUnfinished_kind (.inl (inside last member))).symm
  | @decimal digits fraction _ _ inside _ _ =>
      have kind : last.isDigit = true ∨ last.isAlpha = true ∨ last = '.' := by
        rcases List.mem_append.mp member with inDigits | inRest
        · exact .inl (inside last (List.mem_append_left _ inDigits))
        · rcases List.mem_cons.mp inRest with point | inFraction
          · exact .inr (.inr point)
          · exact .inl (inside last (List.mem_append_right _ inFraction))
      exact (isUnfinished_kind kind).symm
  | name _ inside _ => exact (isUnfinished_kind (.inr (.inl (inside last member)))).symm
  | @symbol character _ _ found _ =>
      rw [List.mem_singleton.mp member]
      revert found
      unfold Recognition.symbol?
      split <;> intro found <;> cases found <;> rfl
  | power =>
      have star : last = '*' := by simpa using member
      subst star
      rfl

theorem Splits.isBlank_of_end {position final : Nat} {characters : List Char}
    {lexemes : List Lexeme} (splits : Splits position characters lexemes)
    (alone : lexemes = [⟨.endOfInput, final⟩]) :
    forall blank, blank ∈ characters -> isBlank blank = true := by
  induction splits with
  | nothing _ => exact nofun
  | blank skipped _ ih =>
      intro other member
      rcases List.mem_cons.mp member with rfl | later
      · exact skipped
      · exact ih alone other later
  | lexeme begins _ _ =>
      have ends := congrArg Lexeme.token (List.cons.inj alone).1
      exact absurd ends begins.token_ne_endOfInput

/-- The last visible character of a text is that of its last lexeme. -/
theorem Splits.last_visible {position final : Nat} {characters : List Char}
    {lexemes stretch : List Lexeme} {lexeme : Lexeme}
    (splits : Splits position characters lexemes)
    (ends : lexemes = stretch ++ [lexeme, ⟨.endOfInput, final⟩]) :
    Exists fun front : List Char => Exists fun last : Char => Exists fun blanks : List Char =>
      characters = front ++ last :: blanks ∧
        (forall blank, blank ∈ blanks -> isBlank blank = true) ∧ isBlank last = false ∧
        lexeme.token.isUnfinished = Preview.isUnfinished last := by
  induction splits generalizing stretch with
  | nothing _ => simpa using congrArg List.length ends
  | @blank _ character _ _ _ _ ih =>
      rcases ih ends with ⟨front, last, blanks, rfl, rest⟩
      exact ⟨character :: front, last, blanks, rfl, rest⟩
  | @lexeme position piece rest token lexemes begins splitsRest ih =>
      cases stretch with
      | nil =>
          rcases List.cons.inj ends with ⟨rfl, alone⟩
          have allBlank := splitsRest.isBlank_of_end alone
          rcases List.eq_nil_or_concat piece with empty | ⟨front, last, shape⟩
          · exact absurd empty begins.ne_nil
          · rw [List.concat_eq_append] at shape
            refine ⟨front, last, rest, by simp [shape], allBlank, ?_,
              begins.isUnfinished_eq shape⟩
            exact begins.not_blank (shape ▸ List.mem_append_right _ (List.mem_singleton_self _))
      | cons first stretch =>
          rcases ih (List.cons.inj ends).2 with ⟨front, last, blanks, rfl, kinds⟩
          exact ⟨piece ++ front, last, blanks, by simp, kinds⟩

/-! ## Through the glyphs -/

/-- A glyph leaves a text unfinished exactly as its spelling does. -/
theorem isUnfinished_of_mem_glyphSpelling {character spelled : Char}
    (member : spelled ∈ glyphSpelling character) :
    Preview.isUnfinished character = Preview.isUnfinished spelled := by
  rcases glyphSpelling_cases character with ⟨glyph, spelledBy⟩ | same
  · have unfinished : glyphs.all Preview.isUnfinished = true := by decide
    have spellings : ['*', '/'].all Preview.isUnfinished = true := by decide
    rw [List.all_eq_true.mp unfinished character glyph,
      List.all_eq_true.mp spellings spelled (spelledBy spelled member)]
  · rw [same] at member
    rw [List.mem_singleton.mp member]

/-- The spelling of a glyph is visible. -/
theorem isBlank_eq_false_of_spelling {spelled : Char} (spelling : spelled ∈ ['*', '/']) :
    isBlank spelled = false := by
  have visible : ['*', '/'].all (fun other => !isBlank other) = true := by decide
  simpa using List.all_eq_true.mp visible spelled spelling

/-- Blanks at the end of a respelled text are blanks of the text, and the
character before them spells the one before them in the text. -/
theorem exists_last_of_normalizeChars {characters front blanks : List Char} {last : Char}
    (respelled : normalizeChars characters = front ++ last :: blanks)
    (allBlank : forall blank, blank ∈ blanks -> isBlank blank = true) :
    Exists fun before : List Char => Exists fun final : Char =>
      characters = before ++ final :: blanks ∧ last ∈ glyphSpelling final := by
  induction blanks using List.reverseRecOn generalizing characters with
  | nil =>
      have ending : last ∈ (normalizeChars characters).getLast? := by simp [respelled]
      rcases mem_glyphSpelling_of_getLast? ending with ⟨final, found, spelled⟩
      rcases List.getLast?_eq_some_iff.mp found with ⟨before, shape⟩
      exact ⟨before, final, shape, spelled⟩
  | append_singleton blanks blank ih =>
      have skipped : isBlank blank = true :=
        allBlank blank (List.mem_append_right _ (List.mem_singleton_self _))
      have unspelled : blank ∉ ['*', '/'] := by
        intro spelling
        rw [isBlank_eq_false_of_spelling spelling] at skipped
        cases skipped
      rw [← List.cons_append, ← List.append_assoc] at respelled
      rcases normalizeChars_eq_concat unspelled respelled with ⟨before, rfl, earlier⟩
      rcases ih earlier (fun other member => allBlank other (List.mem_append_left _ member)) with
        ⟨front, last, shape, spelled⟩
      exact ⟨front, last, by simp [shape], spelled⟩

theorem isWhiteSpace_eq_false_of_range {character : Char} (above : 0x20 < character.toNat)
    (below : character.toNat < 0x7F) : isWhiteSpace character = false := by
  simp only [isWhiteSpace, Bool.or_eq_false_iff, Bool.and_eq_false_iff, decide_eq_false_iff_not,
    beq_eq_false_iff_ne]
  omega

theorem range_of_isAlpha {character : Char}
    (kind : character.isDigit = true ∨ character.isAlpha = true) :
    0x20 < character.toNat ∧ character.toNat < 0x7F := by
  simp only [Char.isAlpha, Char.isUpper, Char.isLower, Char.isDigit, Bool.or_eq_true,
    Bool.and_eq_true, decide_eq_true_eq, ge_iff_le, UInt32.le_iff_toNat_le, Char.reduceVal,
    UInt32.reduceToNat] at kind
  change 0x20 < character.val.toNat ∧ character.val.toNat < 0x7F
  omega

/-- The only white characters of a text that splits are its blanks. -/
theorem isWhiteSpace_eq_false_of_plain {character : Char} (plain : isPlainChar character = true)
    (visible : isBlank character = false) : isWhiteSpace character = false := by
  rw [isPlainChar, visible, Bool.or_false] at plain
  by_cases listed : character ∈ '.' :: symbolChars
  · have kinds : ('.' :: symbolChars).all (fun other => !isWhiteSpace other) = true := by decide
    simpa using List.all_eq_true.mp kinds character listed
  · have kind : character.isDigit = true ∨ character.isAlpha = true := by
      simpa [not_or.mp (mt List.mem_cons.mpr listed)] using plain
    have range := range_of_isAlpha kind
    exact isWhiteSpace_eq_false_of_range range.1 range.2

theorem isWhiteSpace_of_isBlank {character : Char} (blank : isBlank character = true) :
    isWhiteSpace character = true := by
  have white : blankChars.all isWhiteSpace = true := by decide
  exact List.all_eq_true.mp white character ((isBlank_eq_true_iff character).mp blank)

/-- What a preview looks at is how the last lexeme of a text ends. -/
theorem getLast?_trimChars_of_splits {position final : Nat} {characters : List Char}
    {stretch : List Lexeme} {lexeme : Lexeme}
    (splits : Splits position (normalizeChars characters)
      (stretch ++ [lexeme, ⟨.endOfInput, final⟩])) :
    Exists fun last : Char => (trimChars characters).getLast? = some last ∧
      lexeme.token.isUnfinished = Preview.isUnfinished last := by
  rcases splits.last_visible rfl with ⟨front, spelled, blanks, shape, allBlank, visible, kind⟩
  rcases exists_last_of_normalizeChars shape allBlank with ⟨before, last, rfl, spelling⟩
  refine ⟨last, ?_, kind.trans (isUnfinished_of_mem_glyphSpelling spelling).symm⟩
  have visibleLast : isWhiteSpace last = false := by
    rcases glyphSpelling_cases last with ⟨glyph, _⟩ | same
    · have visibleGlyphs : glyphs.all (fun glyph => !isWhiteSpace glyph) = true := by decide
      simpa using List.all_eq_true.mp visibleGlyphs last glyph
    · rw [same, List.mem_singleton] at spelling
      subst spelling
      apply isWhiteSpace_eq_false_of_plain (splits.isPlainChar ?_) visible
      rw [shape]
      exact List.mem_append_right _ (List.mem_cons_self ..)
  rw [trimChars_of_last visibleLast fun blank member =>
    isWhiteSpace_of_isBlank (allBlank blank member)]
  exact List.getLast?_concat ..

/-! ## The last lexeme of a derivation -/

/-- The last lexeme is a number or a closing parenthesis. -/
def EndsOperand (lexemes : List Lexeme) : Prop :=
  Exists fun front : List Lexeme => Exists fun last : Lexeme =>
    lexemes = front ++ [last] ∧
      (last.token = .closeParen ∨ Exists fun value : Float => last.token = .number value)

theorem EndsOperand.prepend {lexemes : List Lexeme} (ends : EndsOperand lexemes)
    (before : List Lexeme) : EndsOperand (before ++ lexemes) := by
  rcases ends with ⟨front, last, rfl, kind⟩
  exact ⟨before ++ front, last, (List.append_assoc _ _ _).symm, kind⟩

theorem endsOperand_closeParen (lexemes : List Lexeme) (position : Nat) :
    EndsOperand (lexemes ++ [⟨.closeParen, position⟩]) :=
  ⟨lexemes, _, rfl, .inl rfl⟩

theorem Derives.endsOperand {category : Category} {lexemes : List Lexeme} {tree : Expr}
    {descents : Nat} : Derives category lexemes tree descents -> EndsOperand lexemes
  | .number value _ => ⟨[], _, rfl, .inr ⟨value, rfl⟩⟩
  | .signed _ _ operand => operand.endsOperand.prepend [_]
  | .binary _ _ _ right => (right.endsOperand.prepend [_]).prepend _
  | .tighter _ narrow => narrow.endsOperand
  | .emptyCall _ _ _ closed => endsOperand_closeParen [_, _] closed
  | .call _ _ _ closed _ => (endsOperand_closeParen _ closed).prepend [_, _]
  | .group _ closed _ => (endsOperand_closeParen _ closed).prepend [_]

/-- An expression does not end with a lexeme that asks for more. -/
theorem EndsOperand.not_unfinished {lexemes : List Lexeme} (ends : EndsOperand lexemes) :
    Exists fun front : List Lexeme => Exists fun last : Lexeme =>
      lexemes = front ++ [last] ∧ last.token.isUnfinished = false := by
  rcases ends with ⟨front, last, rfl, closes | ⟨value, number⟩⟩
  · exact ⟨front, last, rfl, by rw [closes]; rfl⟩
  · exact ⟨front, last, rfl, by rw [number]; rfl⟩

/-! ## Previews -/

namespace Calculator

variable {calculator : Calculator} {text : String}

/-- A text without a tree is refused by the first two stages. -/
theorem evaluate_refused (unread : forall tree : Expr, calculator.parse text ≠ .ok tree) :
    (Exists fun error : LexicalError => calculator.evaluate text = .error (.lexical error)) ∨
      Exists fun error : SyntaxError => calculator.evaluate text = .error (.syntactic error) := by
  have passed : forall error : CalculationError, calculator.parse text = .error error ->
      calculator.evaluate text = .error error := by
    intro error failed
    rw [evaluate, failed]
    rfl
  cases parsed : calculator.parse text with
  | ok tree => exact absurd parsed (unread tree)
  | error error =>
      cases error with
      | lexical error => exact .inl ⟨error, passed _ parsed⟩
      | syntactic error => exact .inr ⟨error, passed _ parsed⟩
      | evaluation error => exact absurd parsed parse_ne_evaluation_error

/-- The visible end of a text that has a tree does not ask for more. -/
theorem getLast?_trimChars_of_parse {tree : Expr} (parsed : calculator.parse text = .ok tree) :
    Exists fun last : Char => (trimChars text.toList).getLast? = some last ∧
      Preview.isUnfinished last = false := by
  rcases parse_derives parsed with ⟨stretch, final, _, splits, _, derived, _, _⟩
  rcases derived.endsOperand.not_unfinished with ⟨front, lexeme, rfl, complete⟩
  rw [List.append_assoc] at splits
  rcases getLast?_trimChars_of_splits splits with ⟨last, found, kind⟩
  exact ⟨last, found, kind ▸ complete⟩

end Calculator

namespace Preview

/-- A preview of some text depends on the visible end first. -/
theorem ofText_eq_pending_iff {calculator : Calculator} {text : String} {last : Char}
    (found : (trimChars text.toList).getLast? = some last) :
    ofText calculator text = .pending ↔ isUnfinished last = true := by
  have seen : (trimText text).toList.getLast? = some last := by
    rw [trimText, String.toList_ofList, found]
  unfold ofText
  simp only [seen]
  by_cases unfinished : isUnfinished last = true
  · rw [if_pos unfinished]
    exact ⟨fun _ => unfinished, fun _ => rfl⟩
  · rw [if_neg unfinished]
    refine ⟨fun shown => ?_, fun other => absurd other unfinished⟩
    split at shown <;> cases shown

theorem ofText_ne_empty {calculator : Calculator} {text : String} {last : Char}
    (found : (trimChars text.toList).getLast? = some last) :
    ofText calculator text ≠ .empty := by
  have seen : (trimText text).toList.getLast? = some last := by
    rw [trimText, String.toList_ofList, found]
  unfold ofText
  simp only [seen]
  intro shown
  split at shown
  · cases shown
  · split at shown <;> cases shown

/-- The shortcut of a preview hides nothing: a text that is shown as empty or as
unfinished has no tree under any limit, neither as it is nor trimmed.  A text of
lexemes is shown as unfinished exactly if the last of them asks for more. -/
theorem shortcut_hides_nothing (calculator : Calculator) (text : String) :
    ((ofText calculator text = .empty ∨ ofText calculator text = .pending) ->
      forall typed : String, typed = text ∨ typed = trimText text ->
        (Exists fun error : LexicalError =>
            calculator.evaluate typed = .error (.lexical error)) ∨
          Exists fun error : SyntaxError =>
            calculator.evaluate typed = .error (.syntactic error)) ∧
    (forall (stretch : List Lexeme) (lexeme : Lexeme) (final : Nat),
      tokenize (normalize (trimText text)) =
          .ok (stretch ++ [lexeme, ⟨.endOfInput, final⟩]) ->
        (ofText calculator text = .pending ↔ lexeme.token.isUnfinished = true)) := by
  constructor
  · intro skipped typed which
    apply Calculator.evaluate_refused
    intro tree parsed
    have same : trimChars typed.toList = trimChars text.toList := by
      rcases which with rfl | rfl
      · rfl
      · rw [trimText, String.toList_ofList, trimChars_trimChars]
    rcases Calculator.getLast?_trimChars_of_parse parsed with ⟨last, found, complete⟩
    rw [same] at found
    rcases skipped with empty | pending
    · exact ofText_ne_empty found empty
    · rw [(ofText_eq_pending_iff found).mp pending] at complete
      cases complete
  · intro stretch lexeme final split
    have splits := (tokenize_eq_ok_iff _ _).mp split
    rw [normalize, trimText, String.toList_ofList, String.toList_ofList] at splits
    rcases getLast?_trimChars_of_splits splits with ⟨last, found, kind⟩
    rw [trimChars_trimChars] at found
    rw [ofText_eq_pending_iff found, kind]

/-- The white space after the glyph is one that only trimming takes away. -/
theorem shortcut_hides_nothing_times :
    ofText ⟨3⟩ "2×\u00a0" = .pending ∧
      ((Exists fun error : LexicalError =>
          (⟨3⟩ : Calculator).evaluate "2×\u00a0" = .error (.lexical error)) ∨
        Exists fun error : SyntaxError =>
          (⟨3⟩ : Calculator).evaluate "2×\u00a0" = .error (.syntactic error)) := by
  have shortcut := shortcut_hides_nothing ⟨3⟩ "2×\u00a0"
  have split : tokenize (normalize (trimText "2×\u00a0")) =
      .ok ([⟨.number 2, 0⟩] ++ [⟨.operator .multiply, 1⟩, ⟨.endOfInput, 2⟩]) := rfl
  have pending := (shortcut.2 _ _ _ split).mpr rfl
  exact ⟨pending, shortcut.1 (.inr pending) _ (.inl rfl)⟩

end Preview

end DeskCalculator

import DeskCalculator.Calculator
import DeskCalculator.Proofs.Grammar.Acceptance
import DeskCalculator.Proofs.Lexemes

namespace DeskCalculator

/-!
# What a parsed text is

The stages of a calculator put together: a text that has a tree splits into the
lexemes of a derivation of that tree, with nothing after them but the end.
-/

/-! ## Respelled texts -/

/-- The characters that are spelled by others. -/
def glyphs : List Char :=
  ['×', '÷', '^']

theorem glyphSpelling_cases (character : Char) :
    (character ∈ glyphs ∧ forall spelled, spelled ∈ glyphSpelling character ->
      spelled ∈ ['*', '/']) ∨ glyphSpelling character = [character] := by
  unfold glyphSpelling
  split
  · left; simp [glyphs]
  · left; simp [glyphs]
  · left; simp [glyphs]
  · right; rfl

theorem glyphSpelling_ne_nil (character : Char) : glyphSpelling character ≠ [] := by
  unfold glyphSpelling
  split <;> exact List.cons_ne_nil _ _

theorem glyphSpelling_of_not_mem {character : Char} (plain : character ∉ glyphs) :
    glyphSpelling character = [character] := by
  rcases glyphSpelling_cases character with ⟨glyph, _⟩ | same
  · exact absurd glyph plain
  · exact same

theorem normalizeChars_cons (character : Char) (rest : List Char) :
    normalizeChars (character :: rest) = glyphSpelling character ++ normalizeChars rest :=
  List.flatMap_cons

theorem normalizeChars_concat (front : List Char) (final : Char) :
    normalizeChars (front ++ [final]) = normalizeChars front ++ glyphSpelling final := by
  rw [normalizeChars_append, normalizeChars_cons]
  exact congrArg _ (List.append_nil _)

/-- A respelled text opens with the spelling of its first character. -/
theorem mem_glyphSpelling_of_head? {characters : List Char} {spelled : Char}
    (found : spelled ∈ (normalizeChars characters).head?) :
    Exists fun first : Char =>
      first ∈ characters.head? ∧ spelled ∈ glyphSpelling first := by
  cases characters with
  | nil => cases found
  | cons first rest =>
      rcases List.exists_cons_of_ne_nil (glyphSpelling_ne_nil first) with ⟨head, tail, shape⟩
      rw [normalizeChars_cons, shape] at found
      cases found
      exact ⟨first, rfl, shape ▸ List.mem_cons_self ..⟩

/-- A respelled text ends with the spelling of its last character. -/
theorem mem_glyphSpelling_of_getLast? {characters : List Char} {spelled : Char}
    (found : spelled ∈ (normalizeChars characters).getLast?) :
    Exists fun final : Char =>
      final ∈ characters.getLast? ∧ spelled ∈ glyphSpelling final := by
  rcases List.eq_nil_or_concat characters with rfl | ⟨front, final, rfl⟩
  · cases found
  · refine ⟨final, by simp, ?_⟩
    rw [List.concat_eq_append, normalizeChars_concat, List.getLast?_append,
      List.getLast?_eq_some_getLast (glyphSpelling_ne_nil final)] at found
    cases found
    exact List.getLast_mem _

/-- Characters without glyphs stay as they are. -/
theorem normalizeChars_of_plain {characters : List Char}
    (plain : forall character, character ∈ characters -> character ∉ glyphs) :
    normalizeChars characters = characters := by
  induction characters with
  | nil => rfl
  | cons character rest ih =>
      rw [normalizeChars_cons, glyphSpelling_of_not_mem (plain character (List.mem_cons_self ..)),
        ih fun other member => plain other (List.mem_cons_of_mem _ member)]
      rfl

theorem isPlainChar_not_mem_glyphs {character : Char} (plain : isPlainChar character = true) :
    character ∉ glyphs := by
  intro member
  have kinds : glyphs.all (fun glyph => !isPlainChar glyph) = true := by decide
  have foreign := List.all_eq_true.mp kinds character member
  simp [plain] at foreign

/-- A text that splits as it is has no glyphs. -/
theorem Splits.normalizeChars_eq {position : Nat} {characters : List Char}
    {lexemes : List Lexeme} (splits : Splits position characters lexemes) :
    normalizeChars characters = characters :=
  normalizeChars_of_plain fun _ member => isPlainChar_not_mem_glyphs (splits.isPlainChar member)

/-- A respelled text that starts with something that no glyph is spelled with
starts with it before as well. -/
theorem normalizeChars_eq_cons {characters rest : List Char} {first : Char}
    (unspelled : first ∉ ['*', '/']) (respelled : normalizeChars characters = first :: rest) :
    Exists fun more : List Char =>
      characters = first :: more ∧ normalizeChars more = rest := by
  cases characters with
  | nil => cases respelled
  | cons character more =>
      rw [normalizeChars_cons] at respelled
      rcases glyphSpelling_cases character with ⟨_, spelled⟩ | same
      · rcases List.exists_cons_of_ne_nil (glyphSpelling_ne_nil character) with
          ⟨head, tail, shape⟩
        rw [shape] at respelled spelled
        rcases List.cons.inj respelled with ⟨rfl, _⟩
        exact absurd (spelled head (List.mem_cons_self ..)) unspelled
      · rw [same] at respelled
        rcases List.cons.inj respelled with ⟨rfl, others⟩
        exact ⟨more, rfl, others⟩

/-- A respelled text that ends with something that no glyph is spelled with ends
with it before as well. -/
theorem normalizeChars_eq_concat {characters front : List Char} {final : Char}
    (unspelled : final ∉ ['*', '/']) (respelled : normalizeChars characters = front ++ [final]) :
    Exists fun before : List Char =>
      characters = before ++ [final] ∧ normalizeChars before = front := by
  have ending : final ∈ (normalizeChars characters).getLast? := by simp [respelled]
  rcases mem_glyphSpelling_of_getLast? ending with ⟨other, found, spelled⟩
  rcases List.getLast?_eq_some_iff.mp found with ⟨before, rfl⟩
  rcases glyphSpelling_cases other with ⟨_, spelledBy⟩ | same
  · exact absurd (spelledBy final spelled) unspelled
  · rw [same, List.mem_singleton] at spelled
    subst spelled
    rw [normalizeChars_concat, same] at respelled
    exact ⟨before, rfl, List.append_cancel_right respelled⟩

/-! ## Lexemes up to the end -/

/-- The last lexeme of a text is its only end of input. -/
theorem Splits.ends {position : Nat} {characters : List Char} {lexemes : List Lexeme}
    (splits : Splits position characters lexemes) :
    Exists fun stretch : List Lexeme => Exists fun final : Nat =>
      lexemes = stretch ++ [⟨.endOfInput, final⟩] ∧
        forall lexeme, lexeme ∈ stretch -> lexeme.token ≠ .endOfInput := by
  induction splits with
  | nothing position => exact ⟨[], position, rfl, nofun⟩
  | blank _ _ ih => exact ih
  | @lexeme position _ _ token _ begins _ ih =>
      rcases ih with ⟨stretch, final, rfl, inside⟩
      refine ⟨⟨token, position⟩ :: stretch, final, rfl, ?_⟩
      intro lexeme member
      rcases List.mem_cons.mp member with rfl | member
      · exact begins.token_ne_endOfInput
      · exact inside lexeme member

/-- Two splittings of a list at the first end of input are the same. -/
theorem stretch_unique {first second : List Lexeme} {position final : Nat} {rest : List Lexeme}
    (insideFirst : forall lexeme, lexeme ∈ first -> lexeme.token ≠ .endOfInput)
    (insideSecond : forall lexeme, lexeme ∈ second -> lexeme.token ≠ .endOfInput)
    (same : first ++ ⟨.endOfInput, position⟩ :: rest = second ++ [⟨.endOfInput, final⟩]) :
    first = second ∧ rest = [] := by
  induction first generalizing second with
  | nil =>
      cases second with
      | nil => exact ⟨rfl, (List.cons.inj same).2⟩
      | cons lexeme more =>
          have head := (List.cons.inj same).1
          exact absurd rfl (head ▸ insideSecond lexeme (List.mem_cons_self ..))
  | cons lexeme more ih =>
      cases second with
      | nil =>
          have head := (List.cons.inj same).1
          exact absurd (congrArg Lexeme.token head) (insideFirst lexeme (List.mem_cons_self ..))
      | cons other others =>
          rcases List.cons.inj same with ⟨rfl, tails⟩
          rcases ih (fun inner member => insideFirst inner (List.mem_cons_of_mem _ member))
            (fun inner member => insideSecond inner (List.mem_cons_of_mem _ member)) tails with
            ⟨rfl, empty⟩
          exact ⟨rfl, empty⟩

/-! ## The stages of a calculator -/

namespace Calculator

variable {calculator : Calculator} {text : String} {tree : Expr}

theorem lexemes_eq_ok_iff {lexemes : List Lexeme} :
    Calculator.lexemes text = .ok lexemes ↔ Splits 0 (normalizeChars text.toList) lexemes := by
  rw [Calculator.lexemes, Outcome.mapError_eq_ok_iff, tokenize_eq_ok_iff, normalize,
    String.toList_ofList]

theorem parse_eq_ok_iff :
    calculator.parse text = .ok tree ↔ Exists fun lexemes : List Lexeme =>
      Splits 0 (normalizeChars text.toList) lexemes ∧
        Expr.ofLexemes calculator.maxDepth lexemes = .ok tree := by
  unfold parse
  simp only [Outcome.bind_eq_ok_iff, Outcome.mapError_eq_ok_iff, lexemes_eq_ok_iff]

theorem evaluate_eq_ok_iff [Elementary] {value : Float} :
    calculator.evaluate text = .ok value ↔ Exists fun tree : Expr =>
      calculator.parse text = .ok tree ∧ tree.evaluate calculator.maxDepth = .ok value := by
  unfold evaluate evaluateTree
  simp only [Outcome.bind_eq_ok_iff, Outcome.mapError_eq_ok_iff]

theorem parse_of_tokenize_error {error : LexicalError}
    (failed : tokenize (normalize text) = .error error) :
    calculator.parse text = .error (.lexical error) := by
  rw [parse, lexemes, failed]
  rfl

theorem parse_of_tokenize_ok {found : List Lexeme}
    (split : tokenize (normalize text) = .ok found) :
    calculator.parse text = (Expr.ofLexemes calculator.maxDepth found).mapError .syntactic := by
  rw [parse, lexemes, split]
  rfl

theorem evaluate_of_tokenize_error {error : LexicalError}
    (failed : tokenize (normalize text) = .error error) :
    calculator.evaluate text = .error (.lexical error) := by
  rw [evaluate, parse_of_tokenize_error failed]
  rfl

/-- Reading a text does not fail for a cause of evaluation. -/
theorem parse_ne_evaluation_error {error : EvaluationError} :
    calculator.parse text ≠ .error (.evaluation error) := by
  intro failed
  rcases Outcome.bind_eq_error_iff.mp failed with splitting | ⟨lexemes, _, reading⟩
  · rcases Outcome.mapError_eq_error_iff.mp splitting with ⟨_, _, other⟩
    cases other
  · rcases Outcome.mapError_eq_error_iff.mp reading with ⟨_, _, other⟩
    cases other

/-- A tree is derived from all lexemes of its text. -/
theorem parse_derives (parsed : calculator.parse text = .ok tree) :
    Exists fun stretch : List Lexeme => Exists fun final : Nat => Exists fun descents : Nat =>
      Splits 0 (normalizeChars text.toList) (stretch ++ [⟨.endOfInput, final⟩]) ∧
        (forall lexeme, lexeme ∈ stretch -> lexeme.token ≠ .endOfInput) ∧
        Derives .expression stretch tree descents ∧ descents ≤ calculator.maxDepth ∧
        tree.height ≤ max calculator.maxDepth 1 := by
  rcases parse_eq_ok_iff.mp parsed with ⟨lexemes, splits, read⟩
  rcases splits.ends with ⟨stretch, final, rfl, inside⟩
  rcases Expr.ofLexemes_derives read with
    ⟨front, position, rest, descents, same, insideFront, derived, room, low⟩
  rcases stretch_unique insideFront inside same.symm with ⟨rfl, _⟩
  exact ⟨front, final, descents, splits, inside, derived, room, low⟩

end Calculator

end DeskCalculator

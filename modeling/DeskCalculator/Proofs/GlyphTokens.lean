import DeskCalculator.Proofs.Evaluation
import DeskCalculator.Proofs.MaximalMunch
import DeskCalculator.Proofs.Parsing

namespace DeskCalculator

/-!
# Glyphs as tokens of their own

A text can also be split as it is shown, with every glyph as a token by itself.
Respelling it first and splitting it then gives the same tokens, up to one thing:
to the lexer two stars are one operator, whatever they have been spelled from.  So
the tokens stay the same exactly if no star is followed at once by a star or a
power.  Where one is, the text still splits, but into other tokens.

The proof carries at most one star over from a token to the next.  It is taken up
by the stars that follow, or it stays a token if something else does.
-/

/-- The operator that a glyph shows. -/
def glyphOperator? : Char -> Option Operator
  | '×' => some .multiply
  | '÷' => some .divide
  | '^' => some .power
  | _ => none

/-- A token with the byte offsets at which it starts and at which it ends. -/
structure Span where
  token : Token
  start : Nat
  finish : Nat
deriving DecidableEq

/-- Splits the characters from byte `position` on as the lexer does, but takes
every glyph for a token.  The first `inside` characters belong to the lexeme
before. -/
def scanGlyphs : (inside : Nat) -> (position : Nat) -> List Char ->
    Except LexicalError (List Span)
  | _, position, [] => .ok [⟨.endOfInput, position, position⟩]
  | inside + 1, position, character :: rest =>
      scanGlyphs inside (position + character.utf8Size) rest
  | 0, position, character :: rest =>
      match glyphOperator? character with
      | some op =>
          (scanGlyphs 0 (position + character.utf8Size) rest).map
            (⟨.operator op, position, position + character.utf8Size⟩ :: ·)
      | none =>
          if isBlank character then
            scanGlyphs 0 (position + character.utf8Size) rest
          else
            match Recognition.ofChars (character :: rest) with
            | .lexeme token more =>
                (scanGlyphs more (position + character.utf8Size) rest).map
                  (⟨token, position,
                    position + byteCount ((character :: rest).take (more + 1))⟩ :: ·)
            | .unreadable literal => .error (.invalidNumber (String.ofList literal) position)
            | .unexpected => .error (.unexpectedCharacter character position)

/-- Splits a text with every glyph as a token of its own. -/
def tokenizeGlyphs (text : String) : Except LexicalError (List Span) :=
  scanGlyphs 0 0 text.toList

/-- A star is followed at once by another star or by a power. -/
def Span.Merges (first second : Span) : Prop :=
  first.token = .operator .multiply ∧
    (second.token = .operator .multiply ∨ second.token = .operator .power) ∧
    first.finish = second.start

instance (first second : Span) : Decidable (first.Merges second) :=
  inferInstanceAs (Decidable (_ ∧ _))

/-- No star is followed at once by another star or by a power. -/
def KeepApart (spans : List Span) : Prop :=
  spans.IsChain fun first second => ¬ first.Merges second

instance (spans : List Span) : Decidable (KeepApart spans) :=
  inferInstanceAs (Decidable (spans.IsChain _))

/-- The characters from byte `position` on are blanks and the given tokens, and
every glyph is one of them. -/
inductive GlyphSplits : (position : Nat) -> List Char -> List Span -> Prop
  | nothing (position : Nat) : GlyphSplits position [] [⟨.endOfInput, position, position⟩]
  | blank {position : Nat} {character : Char} {rest : List Char} {spans : List Span} :
      isBlank character = true -> GlyphSplits (position + character.utf8Size) rest spans ->
      GlyphSplits position (character :: rest) spans
  | glyph {position : Nat} {character : Char} {op : Operator} {rest : List Char}
      {spans : List Span} :
      glyphOperator? character = some op ->
      GlyphSplits (position + character.utf8Size) rest spans ->
      GlyphSplits position (character :: rest)
        (⟨.operator op, position, position + character.utf8Size⟩ :: spans)
  | lexeme {position : Nat} {piece rest : List Char} {token : Token} {spans : List Span} :
      Begins piece rest token -> GlyphSplits (position + byteCount piece) rest spans ->
      GlyphSplits position (piece ++ rest)
        (⟨token, position, position + byteCount piece⟩ :: spans)

/-! ## Scanning with glyphs -/

/-- A glyph is spelled with the symbol of its operator. -/
theorem glyphSpelling_of_operator {character : Char} {op : Operator}
    (shown : glyphOperator? character = some op) :
    glyphSpelling character = op.symbol.toList := by
  revert shown
  unfold glyphOperator?
  split <;> intro shown <;> cases shown <;> rfl

theorem scanGlyphs_append_inside (piece rest : List Char) (position : Nat) :
    scanGlyphs piece.length position (piece ++ rest) =
      scanGlyphs 0 (position + byteCount piece) rest := by
  induction piece generalizing position with
  | nil => rfl
  | cons character piece ih =>
      rw [List.length_cons, List.cons_append, scanGlyphs, ih, byteCount_cons, Nat.add_assoc]

/-- The induction is on the number of characters, as for the lexer. -/
theorem glyphSplits_of_scanGlyphs (count : Nat) : forall (position : Nat)
    (characters : List Char) (spans : List Span), characters.length ≤ count ->
      scanGlyphs 0 position characters = .ok spans -> GlyphSplits position characters spans := by
  induction count with
  | zero =>
      intro position characters spans short scanned
      have empty := List.eq_nil_of_length_eq_zero (Nat.le_zero.mp short)
      subst empty
      cases scanned
      exact .nothing position
  | succ count ih =>
      intro position characters spans short scanned
      cases characters with
      | nil =>
          cases scanned
          exact .nothing position
      | cons character rest =>
          have shorter := Nat.le_of_succ_le_succ short
          cases shown : glyphOperator? character with
          | some op =>
              rw [scanGlyphs, shown] at scanned
              rcases Outcome.map_eq_ok_iff.mp scanned with ⟨later, scannedLater, rfl⟩
              exact .glyph shown (ih _ rest later shorter scannedLater)
          | none =>
              by_cases blank : isBlank character = true
              · rw [scanGlyphs, shown] at scanned
                simp only [blank, if_true] at scanned
                exact .blank blank (ih _ rest spans shorter scanned)
              · rw [scanGlyphs, shown] at scanned
                simp only [if_neg blank] at scanned
                split at scanned
                · next token more recognized =>
                    rcases Recognition.ofChars_sound (character :: rest) token more recognized with
                      ⟨piece, remainder, split, size, begins⟩
                    rcases Outcome.map_eq_ok_iff.mp scanned with ⟨later, scannedLater, rfl⟩
                    rcases List.exists_cons_of_ne_nil begins.ne_nil with ⟨first, others, rfl⟩
                    rw [List.cons_append] at split
                    rcases List.cons.inj split with ⟨rfl, rfl⟩
                    have few : others.length = more := Nat.succ.inj size
                    subst few
                    rw [scanGlyphs_append_inside, Nat.add_assoc, ← byteCount_cons] at scannedLater
                    have taken : (character :: (others ++ remainder)).take (others.length + 1) =
                        character :: others := by simp
                    rw [taken]
                    rw [List.length_append] at shorter
                    exact .lexeme begins (ih _ remainder later (by omega) scannedLater)
                · cases scanned
                · cases scanned

namespace GlyphSplits

variable {position : Nat} {characters : List Char} {spans : List Span}

theorem le_start (splits : GlyphSplits position characters spans) {span : Span}
    (first : span ∈ spans.head?) : position ≤ span.start := by
  induction splits with
  | nothing position => exact Nat.le_of_eq (Option.mem_some.mp first ▸ rfl)
  | blank _ _ ih => exact Nat.le_trans (Nat.le_add_right _ _) (ih first)
  | glyph _ _ _ => exact Nat.le_of_eq (Option.mem_some.mp first ▸ rfl)
  | lexeme _ _ _ => exact Nat.le_of_eq (Option.mem_some.mp first ▸ rfl)

/-- Every multiplication sign of the text is a star of its own. -/
theorem mem_of_times (splits : GlyphSplits position characters spans)
    {before after : List Char} (cut : characters = before ++ '×' :: after) :
    ⟨.operator .multiply, position + byteCount before,
      position + byteCount before + 2⟩ ∈ spans := by
  induction splits generalizing before with
  | nothing _ => simp at cut
  | @blank position character rest _ blank _ ih =>
      rcases before with _ | ⟨head, before⟩
      · rw [(List.cons.inj cut).1] at blank
        exact absurd blank (by decide)
      · rcases List.cons.inj cut with ⟨rfl, same⟩
        rw [byteCount_cons, ← Nat.add_assoc]
        exact ih same
  | @glyph position character op rest _ shown _ ih =>
      rcases before with _ | ⟨head, before⟩
      · rcases List.cons.inj cut with ⟨rfl, _⟩
        cases shown
        exact List.mem_cons_self ..
      · rcases List.cons.inj cut with ⟨rfl, same⟩
        rw [byteCount_cons, ← Nat.add_assoc]
        exact List.mem_cons_of_mem _ (ih same)
  | @lexeme position piece rest token _ begins _ ih =>
      rcases List.append_eq_append_iff.mp cut with ⟨gap, rfl, same⟩ | ⟨gap, inside, same⟩
      · rw [byteCount_append, ← Nat.add_assoc]
        exact List.mem_cons_of_mem _ (ih same)
      · rcases gap with _ | ⟨head, gap⟩
        · rw [List.append_nil] at inside
          subst inside
          exact List.mem_cons_of_mem _ (@ih [] same.symm)
        · rcases List.cons.inj same with ⟨rfl, _⟩
          have glyph : '×' ∈ glyphs := by decide
          have member : '×' ∈ piece :=
            inside ▸ List.mem_append_right _ (List.mem_cons_self ..)
          exact absurd glyph (isPlainChar_not_mem_glyphs (begins.isPlainChar member))

end GlyphSplits

/-! ## Tokens before a respelled text -/

/-- A respelled text does not go on with a kind that no glyph is spelled with. -/
theorem HaltsAt.normalizeChars {kind : Char -> Bool} {rest : List Char}
    (halts : HaltsAt kind rest) (star : kind '*' = false) (slash : kind '/' = false) :
    HaltsAt kind (normalizeChars rest) := by
  intro next found
  rcases mem_glyphSpelling_of_head? found with ⟨first, opens, spelled⟩
  rcases glyphSpelling_cases first with ⟨_, spelledBy⟩ | same
  · rcases List.mem_pair.mp (spelledBy next spelled) with rfl | rfl
    · exact star
    · exact slash
  · rw [same, List.mem_singleton] at spelled
    exact spelled ▸ halts first opens

/-- A token that is no star stays the longest one before a respelled text. -/
theorem Begins.normalizeChars {piece rest : List Char} {token : Token}
    (begins : Begins piece rest token) (noStar : token ≠ .operator .multiply) :
    Begins piece (normalizeChars rest) token := by
  cases begins with
  | whole nonempty inside halts finite =>
      exact .whole nonempty inside (halts.normalizeChars rfl rfl) finite
  | decimal nonempty inside halts finite =>
      exact .decimal nonempty inside (halts.normalizeChars rfl rfl) finite
  | name nonempty inside halts => exact .name nonempty inside (halts.normalizeChars rfl rfl)
  | @symbol character _ _ found single =>
      refine .symbol found fun isStar => ?_
      subst isStar
      cases found
      exact absurd rfl noStar
  | power => exact .power

/-- An operator in a text is its symbol. -/
theorem Begins.eq_symbol {piece rest : List Char} {op : Operator}
    (begins : Begins piece rest (.operator op)) : piece = op.symbol.toList := by
  cases begins.isLexeme.1
  rfl

/-- The symbol of an operator is a token whatever follows, unless it is a star. -/
theorem Begins.ofOperator {op : Operator} (noStar : op ≠ .multiply) (rest : List Char) :
    Begins op.symbol.toList rest (.operator op) := by
  cases op with
  | multiply => exact absurd rfl noStar
  | power => exact .power
  | _ => exact .symbol rfl fun star => absurd star (by decide)

/-- Only a star and a power start with a star. -/
theorem Begins.haltsAt_star {piece rest : List Char} {token : Token}
    (begins : Begins piece rest token) (noStar : token ≠ .operator .multiply)
    (noPower : token ≠ .operator .power) (after : List Char) :
    HaltsAt (· == '*') (piece ++ after) := by
  rcases List.exists_cons_of_ne_nil begins.ne_nil with ⟨first, more, rfl⟩
  refine haltsAt_cons _ (beq_eq_false_iff_ne.mpr ?_)
  rintro rfl
  have recognized := begins.ofChars
  rw [List.cons_append] at recognized
  by_cases single : HaltsAt (· == '*') (more ++ rest)
  · rw [Recognition.ofChars_symbol rfl fun _ => single] at recognized
    exact noStar (Recognition.lexeme.inj recognized).1.symm
  · rcases exists_of_not_haltsAt single with ⟨next, others, shape, isStar⟩
    rw [shape, beq_iff_eq.mp isStar] at recognized
    exact noPower (Recognition.lexeme.inj recognized).1.symm

/-! ## Carrying a star over -/

/-- Wherever the characters stand they split, and their tokens are those of the
spans exactly if the spans keep apart. -/
def SplitsAs (characters : List Char) (spans : List Span) : Prop :=
  forall position : Nat, Exists fun found : List Lexeme =>
    Splits position characters found ∧
      (found.map Lexeme.token = spans.map Span.token ↔ KeepApart spans)

namespace SplitsAs

variable {piece rest : List Char} {first second : Span} {spans others : List Span}

/-- The longest token at the start is the first one, if nothing merges with it. -/
theorem lexeme (begins : Begins piece rest first.token)
    (apart : forall next, next ∈ spans.head? -> ¬ first.Merges next)
    (later : SplitsAs rest spans) : SplitsAs (piece ++ rest) (first :: spans) := by
  intro position
  rcases later (position + byteCount piece) with ⟨found, splits, same⟩
  refine ⟨⟨first.token, position⟩ :: found, .lexeme begins splits, ?_⟩
  rw [KeepApart, List.isChain_cons, List.map_cons, List.map_cons, List.cons_inj_right, same]
  exact ⟨fun chain => ⟨apart, chain⟩, fun chain => chain.2⟩

/-- A star stays one if something else follows it. -/
theorem star {start finish : Nat} (halts : HaltsAt (· == '*') rest)
    (apart : forall next, next ∈ spans.head? ->
      ¬ (Span.mk (.operator .multiply) start finish).Merges next)
    (later : SplitsAs rest spans) :
    SplitsAs ('*' :: rest) (⟨.operator .multiply, start, finish⟩ :: spans) :=
  @lexeme ['*'] rest ⟨.operator .multiply, start, finish⟩ spans
    (.symbol rfl fun _ => halts) apart later

/-- Where the first two spans merge, two stars are one power. -/
theorem merged (merges : first.Merges second) (later : SplitsAs rest others) :
    SplitsAs ('*' :: '*' :: rest) (first :: second :: spans) := by
  intro position
  rcases later (position + byteCount ['*', '*']) with ⟨found, splits, _⟩
  refine ⟨⟨.operator .power, position⟩ :: found,
    @Splits.lexeme position ['*', '*'] rest _ found .power splits, ?_⟩
  rw [KeepApart, List.isChain_cons_cons, List.map_cons, List.map_cons, merges.1]
  refine ⟨fun same => ?_, fun chain => absurd merges chain.1⟩
  cases (List.cons.inj same).1

end SplitsAs

/-- The characters split into the spans, which start at `position`, by themselves
and with a star carried over to them. -/
structure Carries (position : Nat) (characters : List Char) (spans : List Span) : Prop where
  alone : SplitsAs characters spans
  carrying : forall start : Nat, SplitsAs ('*' :: characters)
    (⟨.operator .multiply, start, position⟩ :: spans)

namespace Carries

variable {position finish : Nat} {piece rest : List Char} {token : Token} {spans : List Span}

/-- A token that is neither a star nor a power ends what is carried over. -/
theorem lexeme (begins : Begins piece rest token) (noStar : token ≠ .operator .multiply)
    (noPower : token ≠ .operator .power) (later : SplitsAs rest spans) :
    Carries position (piece ++ rest) (⟨token, position, finish⟩ :: spans) := by
  have here : SplitsAs (piece ++ rest) (⟨token, position, finish⟩ :: spans) :=
    .lexeme begins (fun _ _ merges => noStar merges.1) later
  refine ⟨here, fun start => .star (begins.haltsAt_star noStar noPower rest) ?_ here⟩
  intro next opens merges
  cases opens
  exact merges.2.1.elim noStar noPower

/-- An operator that comes after the carried star takes it up if it is a star or
a power itself. -/
theorem operator (op : Operator) (later : Carries finish rest spans) :
    Carries position (op.symbol.toList ++ rest) (⟨.operator op, position, finish⟩ :: spans) := by
  by_cases isStar : op = .multiply
  · subst isStar
    exact ⟨later.carrying position, fun _ => .merged ⟨rfl, .inl rfl, rfl⟩ later.alone⟩
  · by_cases isPower : op = .power
    · subst isPower
      refine ⟨?_, fun _ => .merged ⟨rfl, .inr rfl, rfl⟩ (later.carrying 0)⟩
      exact .lexeme .power (fun _ _ merges => nomatch merges.1) later.alone
    · exact .lexeme (.ofOperator isStar rest) (by simpa using isStar) (by simpa using isPower)
        later.alone

end Carries

/-- A text that splits with its glyphs splits after respelling, with a star in
front of it or without.  The induction is on the tokens. -/
theorem GlyphSplits.carries {position : Nat} {characters : List Char} {spans : List Span}
    (splits : GlyphSplits position characters spans) :
    Carries position (normalizeChars characters) spans := by
  induction splits with
  | nothing position =>
      have ends : SplitsAs [] [⟨.endOfInput, position, position⟩] := fun place =>
        ⟨_, .nothing place, by simp [KeepApart]⟩
      refine ⟨ends, fun start => .star nofun ?_ ends⟩
      intro next opens merges
      cases opens
      exact merges.2.1.elim nofun nofun
  | @blank position character rest spans blank splits ih =>
      have plain : normalizeChars (character :: rest) = character :: normalizeChars rest := by
        rw [normalizeChars_cons, glyphSpelling_of_not_mem]
        · rfl
        · exact isPlainChar_not_mem_glyphs (by simp [isPlainChar, blank])
      have here : SplitsAs (character :: normalizeChars rest) spans := fun place => by
        rcases ih.alone (place + character.utf8Size) with ⟨found, splits, same⟩
        exact ⟨found, .blank blank splits, same⟩
      rw [plain]
      refine ⟨here, fun start => .star (haltsAt_cons _ ?_) ?_ here⟩
      · refine beq_eq_false_iff_ne.mpr ?_
        rintro rfl
        exact absurd blank (by decide)
      · intro next opens merges
        have later := splits.le_start opens
        have positive := character.utf8Size_pos
        have adjoins : position = next.start := merges.2.2
        omega
  | @glyph position character op rest spans shown splits ih =>
      rw [normalizeChars_cons, glyphSpelling_of_operator shown]
      exact .operator op ih
  | @lexeme position piece rest token spans begins splits ih =>
      have plain : normalizeChars (piece ++ rest) = piece ++ normalizeChars rest := by
        rw [normalizeChars_append, normalizeChars_of_plain]
        exact fun character member => isPlainChar_not_mem_glyphs (begins.isPlainChar member)
      rw [plain]
      by_cases noStar : token = .operator .multiply
      · subst noStar
        rw [begins.eq_symbol]
        exact .operator .multiply (begins.eq_symbol ▸ ih)
      · by_cases noPower : token = .operator .power
        · subst noPower
          rw [begins.eq_symbol]
          exact .operator .power (begins.eq_symbol ▸ ih)
        · exact .lexeme (begins.normalizeChars noStar) noStar noPower ih.alone

/-! ## Multiplications -/

namespace Expr

/-- The tree multiplies its two operands. -/
def isProduct : Expr -> Bool
  | .binary .multiply _ _ => true
  | _ => false

/-- Number of multiplications in a tree. -/
def products (tree : Expr) : Nat :=
  tree.subtrees.countP isProduct

end Expr

mutual

/-- A tree has one multiplication for each star that it is derived from. -/
theorem Derives.count_star {category : Category} {lexemes : List Lexeme} {tree : Expr}
    {descents : Nat} : Derives category lexemes tree descents ->
      (lexemes.map Lexeme.token).count (.operator .multiply) = tree.products
  | .number _ _ => by simp [Expr.products, Expr.subtrees, Expr.isProduct]
  | .emptyCall _ _ _ _ => by
      simp [Expr.products, Expr.subtrees, Expr.allSubtrees, Expr.isProduct]
  | .call _ _ _ _ inside => by
      simp [Expr.products, Expr.subtrees, Expr.isProduct, inside.count_star]
  | .group _ _ inside => by simp [inside.count_star]
  | @Derives.signed operator _ _ _ _ _ written operand => by
      have noStar : operator ≠ .multiply := by
        rintro rfl
        cases written
      simpa [Expr.products, Expr.subtrees, Expr.isProduct, noStar] using operand.count_star
  | .binary operator _ left right => by
      simp only [List.map_append, List.map_cons, List.count_append, List.count_cons,
        left.count_star, right.count_star, Expr.products, Expr.subtrees, List.countP_cons,
        List.countP_append]
      cases operator <;> simp [Expr.isProduct, Nat.add_assoc]
  | .tighter _ narrow => narrow.count_star

theorem DerivesArguments.count_star {lexemes : List Lexeme} {arguments : List Expr}
    {descents : Nat} : DerivesArguments lexemes arguments descents ->
      (lexemes.map Lexeme.token).count (.operator .multiply) =
        (Expr.allSubtrees arguments).countP Expr.isProduct
  | .first argument => by rw [Expr.allSubtrees_singleton]; exact argument.count_star
  | .next _ before argument => by
      simp [Expr.allSubtrees_append, Expr.allSubtrees_singleton, before.count_star,
        argument.count_star, Expr.products]

end

/-- A text that splits with its glyphs as tokens splits after respelling too.  The
tokens are the same, with their numbers and names, exactly if no star is followed
at once by a star or a power.  If none is, an expression has one multiplication for
each star, and each multiplication sign of the text is a star of its own. -/
theorem tokenize_keeps_glyphs (text : String) (spans : List Span)
    (lexed : tokenizeGlyphs text = .ok spans) :
    Exists fun found : List Lexeme => tokenize (normalize text) = .ok found ∧
      (found.map Lexeme.token = spans.map Span.token ↔ KeepApart spans) ∧
      (KeepApart spans -> forall (calculator : Calculator) (tree : Expr),
        calculator.parse text = .ok tree ->
          tree.products = (spans.map Span.token).count (.operator .multiply) ∧
          forall before after : List Char, text.toList = before ++ '×' :: after ->
            ⟨.operator .multiply, byteCount before, byteCount before + 2⟩ ∈ spans) := by
  have splits := glyphSplits_of_scanGlyphs _ 0 text.toList spans (Nat.le_refl _) lexed
  rcases splits.carries.alone 0 with ⟨found, splitsFound, same⟩
  refine ⟨found, ?_, same, ?_⟩
  · rw [tokenize_eq_ok_iff, normalize, String.toList_ofList]
    exact splitsFound
  · intro apart calculator tree parsed
    refine ⟨?_, fun before after cut => ?_⟩
    · rcases Calculator.parse_derives parsed with
        ⟨stretch, final, _, splitsStretch, _, derived, _, _⟩
      have unique := Except.ok.inj (splitsFound.scan_eq.symm.trans splitsStretch.scan_eq)
      rw [← same.mpr apart, unique, ← derived.count_star]
      simp
    · have member := splits.mem_of_times cut
      rw [Nat.zero_add] at member
      exact member

/-- A power may be followed at once by a star, of which it takes up nothing.  In
the second text a star is followed by a sign. -/
theorem tokenize_keeps_glyphs_power :
    tokenizeGlyphs "2^×" = .ok [⟨.number 2, 0, 1⟩, ⟨.operator .power, 1, 2⟩,
        ⟨.operator .multiply, 2, 4⟩, ⟨.endOfInput, 4, 4⟩] ∧
      (Exists fun found : List Lexeme => tokenize (normalize "2^×") = .ok found ∧
        found.map Lexeme.token =
          [.number 2, .operator .power, .operator .multiply, .endOfInput]) ∧
    tokenizeGlyphs "2×-3" = .ok [⟨.number 2, 0, 1⟩, ⟨.operator .multiply, 1, 3⟩,
        ⟨.operator .subtract, 3, 4⟩, ⟨.number 3, 4, 5⟩, ⟨.endOfInput, 5, 5⟩] ∧
      (⟨3⟩ : Calculator).parse "2×-3" =
        .ok (.binary .multiply (.literal 2) (.signed .minus (.literal 3))) ∧
      (Expr.binary .multiply (.literal 2) (.signed .minus (.literal 3))).products = 1 := by
  have lexed : tokenizeGlyphs "2^×" = .ok [⟨.number 2, 0, 1⟩, ⟨.operator .power, 1, 2⟩,
      ⟨.operator .multiply, 2, 4⟩, ⟨.endOfInput, 4, 4⟩] := rfl
  have lexedSign : tokenizeGlyphs "2×-3" = .ok [⟨.number 2, 0, 1⟩, ⟨.operator .multiply, 1, 3⟩,
      ⟨.operator .subtract, 3, 4⟩, ⟨.number 3, 4, 5⟩, ⟨.endOfInput, 5, 5⟩] := rfl
  have parsed : (⟨3⟩ : Calculator).parse "2×-3" =
      .ok (.binary .multiply (.literal 2) (.signed .minus (.literal 3))) := rfl
  rcases tokenize_keeps_glyphs _ _ lexed with ⟨found, split, same, _⟩
  rcases tokenize_keeps_glyphs _ _ lexedSign with ⟨_, _, _, multiplied⟩
  exact ⟨lexed, ⟨found, split, same.mpr (by decide)⟩, lexedSign, parsed,
    (multiplied (by decide) _ _ parsed).1.trans (by decide)⟩

/-- Two multiplication signs side by side are a power to the lexer, and the text is
an expression although two stars are none. -/
theorem adjacent_times_are_power :
    tokenizeGlyphs "2××3" = .ok [⟨.number 2, 0, 1⟩, ⟨.operator .multiply, 1, 3⟩,
        ⟨.operator .multiply, 3, 5⟩, ⟨.number 3, 5, 6⟩, ⟨.endOfInput, 6, 6⟩] ∧
      tokenize (normalize "2××3") = .ok [⟨.number 2, 0⟩, ⟨.operator .power, 1⟩, ⟨.number 3, 3⟩,
        ⟨.endOfInput, 4⟩] ∧
      (⟨3⟩ : Calculator).parse "2××3" = .ok (.binary .power (.literal 2) (.literal 3)) ∧
      ¬ forall (text : String) (spans : List Span), tokenizeGlyphs text = .ok spans ->
        Exists fun found : List Lexeme => tokenize (normalize text) = .ok found ∧
          found.map Lexeme.token = spans.map Span.token := by
  have lexed : tokenizeGlyphs "2××3" = .ok [⟨.number 2, 0, 1⟩, ⟨.operator .multiply, 1, 3⟩,
      ⟨.operator .multiply, 3, 5⟩, ⟨.number 3, 5, 6⟩, ⟨.endOfInput, 6, 6⟩] := rfl
  have split : tokenize (normalize "2××3") = .ok [⟨.number 2, 0⟩, ⟨.operator .power, 1⟩,
      ⟨.number 3, 3⟩, ⟨.endOfInput, 4⟩] := rfl
  refine ⟨lexed, split, rfl, fun keeps => ?_⟩
  rcases keeps _ _ lexed with ⟨found, splitAgain, same⟩
  rw [split] at splitAgain
  cases splitAgain
  cases (List.cons.inj (List.cons.inj same).2).1

end DeskCalculator

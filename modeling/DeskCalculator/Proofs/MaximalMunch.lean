import DeskCalculator.Proofs.Beginnings

namespace DeskCalculator

/-!
# The longest lexeme at every place

What a lexeme is, wherever it stands, and what it means that none longer starts
at the same place.  A text splits into lexemes exactly if it can be cut into
blanks and longest lexemes.  Where it cannot, everything up to the position of
the error can, and no lexeme goes on from there: the character is foreign, it is
a point without a digit after it, or it opens a number that is too large.

The relation by which the lexer was described before has a condition of its own
on what follows each kind of lexeme.  Here the only condition is length.
-/

/-- The characters are a lexeme with this token.  Numbers may be of any size. -/
inductive IsLexeme : List Char -> Token -> Prop
  | whole {digits : List Char} :
      digits ≠ [] -> (forall digit, digit ∈ digits -> digit.isDigit = true) ->
      IsLexeme digits (.number (Numeral.ofDigitChars digits []).toFloat)
  | decimal {digits fraction : List Char} :
      digits ≠ [] -> (forall digit, digit ∈ digits ++ fraction -> digit.isDigit = true) ->
      IsLexeme (digits ++ '.' :: fraction)
        (.number (Numeral.ofDigitChars digits fraction).toFloat)
  | fraction {fraction : List Char} :
      fraction ≠ [] -> (forall digit, digit ∈ fraction -> digit.isDigit = true) ->
      IsLexeme ('.' :: fraction) (.number (Numeral.ofDigitChars [] fraction).toFloat)
  | name {letters : List Char} :
      letters ≠ [] -> (forall letter, letter ∈ letters -> letter.isAlpha = true) ->
      IsLexeme letters (.identifier (String.ofList letters))
  | operator (op : Operator) : IsLexeme op.symbol.toList (.operator op)
  | openParen : IsLexeme ['('] .openParen
  | closeParen : IsLexeme [')'] .closeParen
  | comma : IsLexeme [','] .comma

/-- No lexeme that starts at the place of the piece is longer. -/
def IsLongest (piece rest : List Char) : Prop :=
  forall (longer after : List Char) (token : Token),
    piece ++ rest = longer ++ after -> IsLexeme longer token -> longer.length ≤ piece.length

/-- The token stands for a float that is no infinity, if it is a number. -/
def Token.IsFinite : Token -> Prop
  | .number value => value.isFinite = true
  | _ => True

/-- The piece is a lexeme of the text that starts with `piece ++ rest`. -/
structure IsMunch (piece rest : List Char) (token : Token) : Prop where
  lexeme : IsLexeme piece token
  longest : IsLongest piece rest
  finite : token.IsFinite

/-- The characters from byte `position` on are cut into blanks and longest
lexemes, up to a place from where `ahead` follows. -/
inductive Munches (ahead : List Char) : (position : Nat) -> List Char -> List Lexeme -> Prop
  | nothing (position : Nat) : Munches ahead position [] []
  | blanks {position : Nat} {run rest : List Char} {lexemes : List Lexeme} :
      run ≠ [] -> (forall blank, blank ∈ run -> isBlank blank = true) ->
      Munches ahead (position + byteCount run) rest lexemes ->
      Munches ahead position (run ++ rest) lexemes
  | lexeme {position : Nat} {piece rest : List Char} {token : Token} {lexemes : List Lexeme} :
      IsMunch piece (rest ++ ahead) token ->
      Munches ahead (position + byteCount piece) rest lexemes ->
      Munches ahead position (piece ++ rest) (⟨token, position⟩ :: lexemes)

/-- No lexeme goes on from here, for this cause. -/
inductive Refuses : List Char -> (position : Nat) -> LexicalError -> Prop
  | foreign {character : Char} {rest : List Char} {position : Nat} :
      isPlainChar character = false ->
      Refuses (character :: rest) position (.unexpectedCharacter character position)
  | point {rest : List Char} {position : Nat} :
      HaltsAt Char.isDigit rest ->
      Refuses ('.' :: rest) position (.unexpectedCharacter '.' position)
  | tooLarge {literal rest : List Char} {position : Nat} {value : Float} :
      IsLexeme literal (.number value) -> IsLongest literal rest -> value.isFinite = false ->
      Refuses (literal ++ rest) position (.invalidNumber (String.ofList literal) position)

theorem byteCount_append (first second : List Char) :
    byteCount (first ++ second) = byteCount first + byteCount second := by
  simp only [byteCount, List.map_append, List.sum_append]

theorem byteCount_cons (first : Char) (rest : List Char) :
    byteCount (first :: rest) = first.utf8Size + byteCount rest :=
  List.sum_cons

theorem byteCount_pos {characters : List Char} (nonempty : characters ≠ []) :
    0 < byteCount characters := by
  rcases List.exists_cons_of_ne_nil nonempty with ⟨first, rest, rfl⟩
  rw [byteCount_cons]
  exact Nat.add_pos_left first.utf8Size_pos _

theorem byteCount_toList (text : String) : byteCount text.toList = text.utf8ByteSize := by
  have counted : forall characters : List Char,
      byteCount characters = (String.ofList characters).utf8ByteSize := by
    intro characters
    induction characters with
    | nil => rfl
    | cons first rest ih => rw [byteCount_cons, ih, String.utf8ByteSize_ofList,
        String.utf8ByteSize_ofList, String.utf8Len_cons, Nat.add_comm]
  rw [counted, String.ofList_toList]

/-! ## The lexer finds no shorter lexeme -/

namespace Recognition

/-- Number of characters of what is recognized. -/
def length : Recognition -> Nat
  | .lexeme _ more => more + 1
  | .unreadable literal => literal.length
  | .unexpected => 0

theorem length_ofNumeral (numeral : Numeral) {literal : List Char} (nonempty : literal ≠ []) :
    (ofNumeral numeral literal).length = literal.length := by
  have positive := List.length_pos_iff.mpr nonempty
  unfold ofNumeral
  split
  · exact Nat.sub_add_cancel positive
  · rfl

theorem length_symbol {first : Char} {token : Token} (rest : List Char)
    (found : symbol? first = some token) : 1 ≤ (ofChars (first :: rest)).length := by
  by_cases single : first = '*' -> HaltsAt (· == '*') rest
  · rw [ofChars_symbol found single]
    exact Nat.le_refl 1
  · rcases exists_of_doubled single with ⟨rfl, more, rfl⟩
    exact Nat.le_succ 1

theorem length_ofDigits {characters : List Char}
    (nonempty : characters.takeWhile Char.isDigit ≠ []) :
    (characters.takeWhile Char.isDigit).length ≤ (ofDigits characters).length := by
  unfold ofDigits
  split
  · rw [length_ofNumeral _ (by simp), List.length_append]
    exact Nat.le_add_right _ _
  · rw [length_ofNumeral _ nonempty]

end Recognition

/-- What the lexer recognizes is at least as long as every lexeme at the place. -/
theorem IsLexeme.length_le {piece : List Char} {token : Token} (lexeme : IsLexeme piece token)
    (rest : List Char) : piece.length ≤ (Recognition.ofChars (piece ++ rest)).length := by
  cases lexeme with
  | whole nonempty inside =>
      rcases List.exists_cons_of_ne_nil nonempty with ⟨first, more, rfl⟩
      have run : ((first :: more) ++ rest).takeWhile Char.isDigit =
          (first :: more) ++ rest.takeWhile Char.isDigit :=
        List.takeWhile_append_of_pos inside
      have recognized :=
        Recognition.length_ofDigits (run ▸ List.append_ne_nil_of_left_ne_nil nonempty _)
      rw [run, List.length_append] at recognized
      rw [List.cons_append, Recognition.ofChars_digit _ (inside first (List.mem_cons_self ..)),
        ← List.cons_append]
      exact Nat.le_of_add_right_le recognized
  | @decimal digits fraction nonempty inside =>
      rcases exists_run Char.isDigit rest with ⟨run, after, rfl, further, halts⟩
      have longer : forall digit, digit ∈ digits ++ (fraction ++ run) -> digit.isDigit = true := by
        rw [← List.append_assoc]
        exact List.forall_mem_append.mpr ⟨inside, further⟩
      have recognized := Recognition.ofDigits_decimal longer halts
      rcases List.exists_cons_of_ne_nil nonempty with ⟨first, more, rfl⟩
      have shape : ((first :: more) ++ '.' :: fraction) ++ (run ++ after) =
          first :: (more ++ '.' :: ((fraction ++ run) ++ after)) := by simp
      rw [shape, Recognition.ofChars_digit _ (inside first (List.mem_cons_self ..)),
        ← List.cons_append, recognized, Recognition.length_ofNumeral _ (by simp)]
      simp only [List.length_append, List.length_cons]
      omega
  | @fraction fraction nonempty inside =>
      rcases exists_run Char.isDigit rest with ⟨run, after, rfl, further, halts⟩
      have longer := Recognition.ofPoint_fraction (List.append_ne_nil_of_left_ne_nil nonempty run)
        (List.forall_mem_append.mpr ⟨inside, further⟩) halts
      rw [List.cons_append, Recognition.ofChars_point, ← List.append_assoc, longer,
        Recognition.length_ofNumeral _ (List.cons_ne_nil _ _)]
      simp only [List.length_append, List.length_cons]
      omega
  | name nonempty inside =>
      rcases exists_run Char.isAlpha rest with ⟨run, after, rfl, further, halts⟩
      have recognized := Recognition.ofLetters_name (List.forall_mem_append.mpr ⟨inside, further⟩)
        halts
      rcases List.exists_cons_of_ne_nil nonempty with ⟨first, more, rfl⟩
      rw [List.cons_append, Recognition.ofChars_letter _ (inside first (List.mem_cons_self ..)),
        ← List.cons_append, ← List.append_assoc, recognized]
      simp only [Recognition.length, List.length_append, List.length_cons]
      omega
  | operator op =>
      cases op with
      | power => exact Nat.le_refl 2
      | _ => exact Recognition.length_symbol rest rfl
  | openParen | closeParen | comma => exact Recognition.length_symbol rest rfl

/-- A run of a kind that goes on can be prolonged by a character. -/
theorem haltsAt_of_isLongest {piece rest : List Char} {kind : Char -> Bool}
    (longest : IsLongest piece rest)
    (prolongs : forall next : Char, kind next = true ->
      Exists fun token : Token => IsLexeme (piece ++ [next]) token) : HaltsAt kind rest := by
  by_contra goesOn
  rcases exists_of_not_haltsAt goesOn with ⟨next, more, rfl, further⟩
  rcases prolongs next further with ⟨token, lexeme⟩
  have short := longest (piece ++ [next]) more token (by simp) lexeme
  rw [List.length_append] at short
  exact absurd short (Nat.not_succ_le_self _)

theorem IsLexeme.ofSymbol {character : Char} {token : Token}
    (found : Recognition.symbol? character = some token) : IsLexeme [character] token := by
  revert found
  unfold Recognition.symbol?
  split <;> intro found <;> cases found
  · exact .operator .add
  · exact .operator .subtract
  · exact .operator .multiply
  · exact .operator .divide
  · exact .operator .modulo
  · exact .openParen
  · exact .closeParen
  · exact .comma

theorem Begins.isLexeme {piece rest : List Char} {token : Token}
    (begins : Begins piece rest token) : IsLexeme piece token ∧ token.IsFinite := by
  cases begins with
  | whole nonempty inside _ finite => exact ⟨.whole nonempty inside, finite⟩
  | @decimal digits fraction _ nonempty inside _ finite =>
      cases digits with
      | nil => exact ⟨.fraction (by simpa using nonempty) inside, finite⟩
      | cons first more => exact ⟨.decimal (List.cons_ne_nil _ _) inside, finite⟩
  | name nonempty inside _ => exact ⟨.name nonempty inside, trivial⟩
  | symbol found _ =>
      refine ⟨.ofSymbol found, ?_⟩
      rcases symbol?_cases found with ⟨_, rfl⟩ | ⟨_, rfl⟩ | ⟨_, rfl⟩ | ⟨_, rfl⟩
      all_goals trivial
  | power => exact ⟨.operator .power, trivial⟩

theorem IsMunch.begins {piece rest : List Char} {token : Token}
    (munch : IsMunch piece rest token) : Begins piece rest token := by
  rcases munch with ⟨lexeme, longest, finite⟩
  cases lexeme with
  | whole nonempty inside =>
      refine .whole nonempty inside (haltsAt_of_isLongest longest fun next further => ?_) finite
      rcases Bool.or_eq_true_iff.mp further with digit | point
      · exact ⟨_, .whole (by simp) (List.forall_mem_append.mpr ⟨inside, by simpa using digit⟩)⟩
      · rw [beq_iff_eq.mp point]
        exact ⟨_, .decimal nonempty (by simpa using inside)⟩
  | @decimal digits fraction nonempty inside =>
      refine .decimal (.inl nonempty) inside
        (haltsAt_of_isLongest longest fun next digit => ?_) finite
      rw [List.append_assoc, List.cons_append]
      refine ⟨_, .decimal nonempty ?_⟩
      rw [← List.append_assoc]
      exact List.forall_mem_append.mpr ⟨inside, by simpa using digit⟩
  | fraction nonempty inside =>
      refine @Begins.decimal [] _ _ (.inr nonempty) inside
        (haltsAt_of_isLongest longest fun next digit => ?_) finite
      exact ⟨_, .fraction (by simp) (List.forall_mem_append.mpr ⟨inside, by simpa using digit⟩)⟩
  | name nonempty inside =>
      refine .name nonempty inside (haltsAt_of_isLongest longest fun next letter => ?_)
      exact ⟨_, .name (by simp) (List.forall_mem_append.mpr ⟨inside, by simpa using letter⟩)⟩
  | operator op =>
      cases op with
      | power => exact .power
      | multiply =>
          refine .symbol rfl fun _ => haltsAt_of_isLongest longest fun next star => ?_
          rw [beq_iff_eq.mp star]
          exact ⟨_, .operator .power⟩
      | _ => exact .symbol rfl (fun star => absurd star (by decide))
  | openParen | closeParen | comma => exact .symbol rfl (fun star => absurd star (by decide))

/-- The two descriptions of a longest lexeme agree. -/
theorem begins_iff_isMunch {piece rest : List Char} {token : Token} :
    Begins piece rest token ↔ IsMunch piece rest token := by
  constructor
  · intro begins
    refine ⟨begins.isLexeme.1, ?_, begins.isLexeme.2⟩
    intro longer after other same lexeme
    have bounded := lexeme.length_le after
    have positive := List.length_pos_iff.mpr begins.ne_nil
    rw [← same, begins.ofChars] at bounded
    exact Nat.le_trans bounded (Nat.le_of_eq (Nat.sub_add_cancel positive))
  · exact IsMunch.begins

/-! ## Where the lexer refuses to go on -/

namespace Recognition

variable {numeral : Numeral} {literal characters : List Char}

theorem ofNumeral_unreadable {other : List Char}
    (recognized : ofNumeral numeral other = .unreadable literal) :
    literal = other ∧ numeral.toFloat.isFinite = false := by
  unfold ofNumeral at recognized
  by_cases finite : numeral.toFloat.isFinite = true
  · rw [if_pos finite] at recognized
    cases recognized
  · rw [if_neg finite] at recognized
    cases recognized
    exact ⟨rfl, Bool.of_not_eq_true finite⟩

/-- The literal is a number at the start of the characters, and too large. -/
def IsTooLarge (literal characters : List Char) : Prop :=
  Exists fun rest : List Char => Exists fun value : Float =>
    characters = literal ++ rest ∧ IsLexeme literal (.number value) ∧ value.isFinite = false

theorem ofDigits_unreadable (nonempty : characters.takeWhile Char.isDigit ≠ [])
    (recognized : ofDigits characters = .unreadable literal) :
    IsTooLarge literal characters := by
  have digits : forall run : List Char, forall digit, digit ∈ run.takeWhile Char.isDigit ->
      digit.isDigit = true := fun run => List.all_eq_true.mp List.all_takeWhile
  have whole := @List.takeWhile_append_dropWhile _ Char.isDigit characters
  unfold ofDigits at recognized
  split at recognized
  · next rest point =>
      rcases ofNumeral_unreadable recognized with ⟨rfl, infinite⟩
      refine ⟨rest.dropWhile Char.isDigit, _, ?_, .decimal nonempty ?_, infinite⟩
      · rw [List.append_assoc, List.cons_append, List.takeWhile_append_dropWhile, ← point, whole]
      · exact List.forall_mem_append.mpr ⟨digits characters, digits rest⟩
  · rcases ofNumeral_unreadable recognized with ⟨rfl, infinite⟩
    exact ⟨_, _, whole.symm, .whole nonempty (digits characters), infinite⟩

theorem ofPoint_unreadable (recognized : ofPoint characters = .unreadable literal) :
    IsTooLarge literal ('.' :: characters) := by
  unfold ofPoint at recognized
  by_cases noDigits : (characters.takeWhile Char.isDigit).isEmpty = true
  · rw [if_pos noDigits] at recognized
    cases recognized
  · rw [if_neg noDigits] at recognized
    rcases ofNumeral_unreadable recognized with ⟨rfl, infinite⟩
    refine ⟨characters.dropWhile Char.isDigit, _, ?_, .fraction ?_ ?_, infinite⟩
    · rw [List.cons_append, List.takeWhile_append_dropWhile]
    · simpa using noDigits
    · exact List.all_eq_true.mp List.all_takeWhile

theorem ofChars_unreadable (recognized : ofChars characters = .unreadable literal) :
    IsTooLarge literal characters := by
  unfold ofChars at recognized
  split at recognized
  · cases recognized
  · cases recognized
  · next first rest _ =>
      split at recognized
      · cases recognized
      · split_ifs at recognized with digit letter point
        · exact ofDigits_unreadable (by simp [digit]) recognized
        · cases recognized
        · subst point
          exact ofPoint_unreadable recognized

theorem ofNumeral_ne_unexpected {other : List Char} : ofNumeral numeral other ≠ .unexpected := by
  unfold ofNumeral
  split <;> exact nofun

theorem haltsAt_of_ofPoint_unexpected (recognized : ofPoint characters = .unexpected) :
    HaltsAt Char.isDigit characters := by
  by_contra goesOn
  rcases exists_of_not_haltsAt goesOn with ⟨next, more, rfl, digit⟩
  rw [ofPoint, if_neg (by simp [digit])] at recognized
  exact ofNumeral_ne_unexpected recognized

/-- Nothing starts with a character only if it is foreign, or a point that no
digit follows. -/
theorem ofChars_unexpected {first : Char} {rest : List Char} (visible : isBlank first = false)
    (recognized : ofChars (first :: rest) = .unexpected) :
    isPlainChar first = false ∨ first = '.' ∧ HaltsAt Char.isDigit rest := by
  unfold ofChars at recognized
  split at recognized
  · contradiction
  · cases recognized
  · next opening =>
      rcases List.cons.inj opening with ⟨rfl, rfl⟩
      split at recognized
      · cases recognized
      · next unlisted =>
          split_ifs at recognized with digit letter point
          · unfold ofDigits at recognized
            split at recognized <;> exact absurd recognized ofNumeral_ne_unexpected
          · cases recognized
          · exact .inr ⟨point, haltsAt_of_ofPoint_unexpected recognized⟩
          · have notSymbol : first ∉ symbolChars := by
              intro member
              have listed : symbolChars.all (fun other => (symbol? other).isSome) = true := by
                decide
              have found := List.all_eq_true.mp listed first member
              rw [unlisted] at found
              cases found
            exact .inl (by simp [isPlainChar, digit, letter, point, notSymbol, visible])

end Recognition

/-- A lexeme that starts a text is a longest one if the lexer recognizes all of
its length. -/
theorem isLongest_of_length_eq {piece rest : List Char}
    (recognized : (Recognition.ofChars (piece ++ rest)).length = piece.length) :
    IsLongest piece rest := by
  intro longer after token same lexeme
  have bounded := lexeme.length_le after
  rw [← same, recognized] at bounded
  exact bounded

theorem Refuses.ofRecognition {first : Char} {rest : List Char} (position : Nat)
    {error : LexicalError} (visible : isBlank first = false)
    (failed : scan 0 position (first :: rest) = .error error)
    (unlexed : forall (token : Token) (more : Nat),
      Recognition.ofChars (first :: rest) ≠ .lexeme token more) :
    Refuses (first :: rest) position error := by
  rw [scan, if_neg (by simp [visible])] at failed
  cases recognized : Recognition.ofChars (first :: rest) with
  | lexeme token more => exact absurd recognized (unlexed token more)
  | unreadable literal =>
      rw [recognized] at failed
      cases failed
      rcases Recognition.ofChars_unreadable recognized with ⟨after, value, shape, lexeme, infinite⟩
      have longest : IsLongest literal after := by
        apply isLongest_of_length_eq
        rw [← shape, recognized]
        rfl
      rw [shape]
      exact .tooLarge lexeme longest infinite
  | unexpected =>
      rw [recognized] at failed
      cases failed
      rcases Recognition.ofChars_unexpected visible recognized with foreign | ⟨rfl, halts⟩
      · exact .foreign foreign
      · exact .point halts

/-! ## Scanning is munching -/

theorem IsLongest.cutOff {piece rest more : List Char} (longest : IsLongest piece (rest ++ more)) :
    IsLongest piece rest := by
  intro longer after token same lexeme
  apply longest longer (after ++ more) token _ lexeme
  rw [← List.append_assoc, same, List.append_assoc]

/-- What is munched stays munched where the text ends after it. -/
theorem Munches.cutOff {ahead : List Char} {position : Nat} {characters : List Char}
    {lexemes : List Lexeme} (munches : Munches ahead position characters lexemes) :
    Munches [] position characters lexemes := by
  induction munches with
  | nothing position => exact .nothing position
  | blanks nonempty allBlank _ ih => exact .blanks nonempty allBlank ih
  | lexeme munch _ ih =>
      refine .lexeme ⟨munch.lexeme, ?_, munch.finite⟩ ih
      rw [List.append_nil]
      exact munch.longest.cutOff

theorem Splits.blanks {position : Nat} {run rest : List Char} {lexemes : List Lexeme}
    (allBlank : forall blank, blank ∈ run -> isBlank blank = true)
    (splits : Splits (position + byteCount run) rest lexemes) :
    Splits position (run ++ rest) lexemes := by
  induction run generalizing position with
  | nil => exact splits
  | cons first more ih =>
      refine .blank (allBlank first (List.mem_cons_self ..)) ?_
      apply ih (fun blank member => allBlank blank (List.mem_cons_of_mem _ member))
      rw [byteCount_cons, ← Nat.add_assoc] at splits
      exact splits

theorem Munches.splits {position : Nat} {characters : List Char} {lexemes : List Lexeme}
    (munches : Munches [] position characters lexemes) :
    Splits position characters
      (lexemes ++ [⟨.endOfInput, position + byteCount characters⟩]) := by
  induction munches with
  | nothing position => exact .nothing position
  | blanks _ allBlank _ ih =>
      rw [byteCount_append, ← Nat.add_assoc]
      exact ih.blanks allBlank
  | lexeme munch _ ih =>
      rw [List.append_nil] at munch
      rw [byteCount_append, ← Nat.add_assoc]
      exact .lexeme munch.begins ih

theorem Splits.munches {position : Nat} {characters : List Char} {lexemes : List Lexeme}
    (splits : Splits position characters lexemes) :
    Exists fun front : List Lexeme => Munches [] position characters front ∧
      lexemes = front ++ [⟨.endOfInput, position + byteCount characters⟩] := by
  induction splits with
  | nothing position => exact ⟨[], .nothing position, rfl⟩
  | @blank position character rest _ blank _ ih =>
      rcases ih with ⟨front, munches, rfl⟩
      refine ⟨front, ?_, by rw [byteCount_cons, Nat.add_assoc]⟩
      refine @Munches.blanks [] position [character] rest front (List.cons_ne_nil _ _) ?_ munches
      intro other member
      exact List.mem_singleton.mp member ▸ blank
  | @lexeme position piece rest token _ begins _ ih =>
      rcases ih with ⟨front, munches, rfl⟩
      refine ⟨⟨token, position⟩ :: front, .lexeme ?_ munches, ?_⟩
      · rw [List.append_nil]
        exact begins_iff_isMunch.mp begins
      · rw [byteCount_append, Nat.add_assoc]
        rfl

/-- A text that is refused is munched up to the place of the error.  The
induction is on the number of characters, as for a text that splits. -/
theorem munches_of_scan_error (count : Nat) : forall (position : Nat) (characters : List Char)
    (error : LexicalError), characters.length ≤ count ->
      scan 0 position characters = .error error ->
      Exists fun before : List Char => Exists fun ahead : List Char =>
        Exists fun lexemes : List Lexeme => characters = before ++ ahead ∧
          Munches ahead position before lexemes ∧
            Refuses ahead (position + byteCount before) error := by
  induction count with
  | zero =>
      intro position characters error short failed
      rw [List.eq_nil_of_length_eq_zero (Nat.le_zero.mp short)] at failed
      cases failed
  | succ count ih =>
      intro position characters error short failed
      cases characters with
      | nil => cases failed
      | cons first rest =>
          by_cases blank : isBlank first = true
          · rw [scan_blank blank] at failed
            rcases ih _ rest error (Nat.le_of_succ_le_succ short) failed with
              ⟨before, ahead, lexemes, rfl, munches, refuses⟩
            refine ⟨first :: before, ahead, lexemes, rfl, ?_, ?_⟩
            · refine @Munches.blanks ahead position [first] before lexemes
                (List.cons_ne_nil _ _) ?_ munches
              intro other member
              exact List.mem_singleton.mp member ▸ blank
            · rw [byteCount_cons, ← Nat.add_assoc]
              exact refuses
          · by_cases lexed : Exists fun token : Token => Exists fun more : Nat =>
                Recognition.ofChars (first :: rest) = .lexeme token more
            · rcases lexed with ⟨token, more, recognized⟩
              rcases Recognition.ofChars_sound (first :: rest) token more recognized with
                ⟨piece, remainder, split, size, begins⟩
              rw [split, scan_lexeme begins] at failed
              rw [split, List.length_append] at short
              rcases ih _ remainder error (by omega) (Outcome.map_eq_error_iff.mp failed) with
                ⟨before, ahead, lexemes, rfl, munches, refuses⟩
              refine ⟨piece ++ before, ahead, ⟨token, position⟩ :: lexemes, ?_, ?_, ?_⟩
              · rw [split, List.append_assoc]
              · exact .lexeme (begins_iff_isMunch.mp begins) munches
              · rw [byteCount_append, ← Nat.add_assoc]
                exact refuses
            · refine ⟨[], first :: rest, [], rfl, .nothing position, ?_⟩
              refine .ofRecognition position (Bool.of_not_eq_true blank) failed ?_
              intro token more recognized
              exact lexed ⟨token, more, recognized⟩

/-! ## Where the lexemes stand -/

/-- The first lexeme stands right here, and the others are those of the rest. -/
inductive Opens (position : Nat) : List Char -> List Lexeme -> Prop
  | ends : Opens position [] [⟨.endOfInput, position⟩]
  | lexeme {piece rest : List Char} {token : Token} {later : List Lexeme} :
      IsMunch piece rest token -> Splits (position + byteCount piece) rest later ->
      Opens position (piece ++ rest) (⟨token, position⟩ :: later)

namespace Splits

variable {position : Nat} {characters : List Char} {lexemes : List Lexeme}

/-- Only blanks stand before the first lexeme. -/
theorem opens (splits : Splits position characters lexemes) :
    Exists fun blanks : List Char => Exists fun ahead : List Char =>
      characters = blanks ++ ahead ∧ (forall blank, blank ∈ blanks -> isBlank blank = true) ∧
        Opens (position + byteCount blanks) ahead lexemes := by
  induction splits with
  | nothing position => exact ⟨[], [], rfl, nofun, .ends⟩
  | @blank position character _ _ blank _ ih =>
      rcases ih with ⟨blanks, ahead, rfl, allBlank, opens⟩
      refine ⟨character :: blanks, ahead, rfl, List.forall_mem_cons.mpr ⟨blank, allBlank⟩, ?_⟩
      rw [byteCount_cons, ← Nat.add_assoc]
      exact opens
  | lexeme begins splits _ =>
      exact ⟨[], _, rfl, nofun, .lexeme (begins_iff_isMunch.mp begins) splits⟩

/-- The lexemes from some place on are those of the characters from there on. -/
theorem drop (splits : Splits position characters lexemes) {front back : List Lexeme}
    (cut : lexemes = front ++ back) (nonempty : back ≠ []) :
    Exists fun before : List Char => Exists fun ahead : List Char =>
      characters = before ++ ahead ∧ Splits (position + byteCount before) ahead back := by
  induction splits generalizing front with
  | nothing position =>
      cases front with
      | nil =>
          cases cut
          exact ⟨[], [], rfl, .nothing position⟩
      | cons first front =>
          rcases List.append_eq_nil_iff.mp (List.cons.inj cut).2.symm with ⟨_, empty⟩
          exact absurd empty nonempty
  | @blank position character _ _ _ _ ih =>
      rcases ih cut with ⟨before, ahead, rfl, splits⟩
      refine ⟨character :: before, ahead, rfl, ?_⟩
      rw [byteCount_cons, ← Nat.add_assoc]
      exact splits
  | @lexeme position piece rest token lexemes begins splits ih =>
      cases front with
      | nil =>
          cases cut
          exact ⟨[], piece ++ rest, rfl, .lexeme begins splits⟩
      | cons first front =>
          rcases ih (List.cons.inj cut).2 with ⟨before, ahead, rfl, splitsBack⟩
          refine ⟨piece ++ before, ahead, (List.append_assoc _ _ _).symm, ?_⟩
          rw [byteCount_append, ← Nat.add_assoc]
          exact splitsBack

theorem le_position (splits : Splits position characters lexemes) {lexeme : Lexeme}
    (member : lexeme ∈ lexemes) : position ≤ lexeme.position := by
  induction splits with
  | nothing position => exact Nat.le_of_eq (List.mem_singleton.mp member ▸ rfl)
  | blank _ _ ih => exact Nat.le_trans (Nat.le_add_right _ _) (ih member)
  | lexeme _ _ ih =>
      rcases List.mem_cons.mp member with rfl | later
      · exact Nat.le_refl _
      · exact Nat.le_trans (Nat.le_add_right _ _) (ih later)

/-- The positions of the lexemes increase, that of the end included. -/
theorem increasing (splits : Splits position characters lexemes) :
    lexemes.Pairwise fun earlier later => earlier.position < later.position := by
  induction splits with
  | nothing position => exact List.pairwise_singleton _ _
  | blank _ _ ih => exact ih
  | lexeme begins splits ih =>
      refine List.pairwise_cons.mpr ⟨fun later member => ?_, ih⟩
      have positive := byteCount_pos begins.ne_nil
      exact Nat.lt_of_lt_of_le (Nat.lt_add_of_pos_right positive) (splits.le_position member)

end Splits

/-- Between the end of the first lexeme and the start of the second there are
only blanks. -/
def Adjoins (characters : List Char) (first second : Lexeme) : Prop :=
  Exists fun before : List Char => Exists fun piece : List Char =>
    Exists fun blanks : List Char => Exists fun after : List Char =>
      characters = before ++ (piece ++ (blanks ++ after)) ∧
        first.position = byteCount before ∧ IsLexeme piece first.token ∧
        (forall blank, blank ∈ blanks -> isBlank blank = true) ∧
        second.position = byteCount (before ++ (piece ++ blanks))

theorem Splits.adjoins {characters : List Char} {front back : List Lexeme}
    {first second : Lexeme} (splits : Splits 0 characters (front ++ first :: second :: back)) :
    Adjoins characters first second := by
  rcases splits.drop rfl (List.cons_ne_nil _ _) with ⟨before, ahead, rfl, splitsFirst⟩
  rcases splitsFirst.opens with ⟨skipped, _, rfl, _, opensFirst⟩
  cases opensFirst with
  | @lexeme piece _ _ _ munch splitsRest =>
      rcases splitsRest.opens with ⟨blanks, after, rfl, allBlank, opensSecond⟩
      refine ⟨before ++ skipped, piece, blanks, after, by simp, ?_, munch.lexeme, allBlank, ?_⟩
      · simp only [byteCount_append, Nat.zero_add]
      · cases opensSecond <;> simp only [byteCount_append] <;> omega

/-- The lexer is exact.  It succeeds on the texts that can be cut into blanks and
longest lexemes, with these lexemes and the end of the text; their positions
increase, and only blanks lie between them.  Where it fails, everything before
the error can be cut like this, as the part of the text that it is and as a text
of its own, and nothing goes on at the error for the cause that is given. -/
theorem tokenize_maximal_munch (text : String) :
    (forall lexemes : List Lexeme, tokenize text = .ok lexemes ↔
      Exists fun front : List Lexeme => Munches [] 0 text.toList front ∧
        lexemes = front ++ [⟨.endOfInput, text.utf8ByteSize⟩]) ∧
    (forall lexemes : List Lexeme, tokenize text = .ok lexemes ->
      (lexemes.Pairwise fun earlier later => earlier.position < later.position) ∧
      forall (front back : List Lexeme) (first second : Lexeme),
        lexemes = front ++ first :: second :: back -> Adjoins text.toList first second) ∧
    (forall error : LexicalError, tokenize text = .error error ->
      Exists fun before : List Char => Exists fun ahead : List Char =>
        Exists fun front : List Lexeme => text.toList = before ++ ahead ∧
          error.position = byteCount before ∧ Munches ahead 0 before front ∧
          tokenize (String.ofList before) = .ok (front ++ [⟨.endOfInput, error.position⟩]) ∧
          Refuses ahead error.position error) := by
  refine ⟨fun lexemes => ?_, fun lexemes split => ?_, fun error failed => ?_⟩
  · rw [tokenize_eq_ok_iff, ← byteCount_toList]
    constructor
    · intro splits
      have munches := splits.munches
      rw [Nat.zero_add] at munches
      exact munches
    · rintro ⟨front, munches, rfl⟩
      have splits := munches.splits
      rw [Nat.zero_add] at splits
      exact splits
  · have splits := (tokenize_eq_ok_iff text lexemes).mp split
    refine ⟨splits.increasing, ?_⟩
    rintro front back first second rfl
    exact splits.adjoins
  · rcases munches_of_scan_error _ 0 text.toList error (Nat.le_refl _) failed with
      ⟨before, ahead, front, same, munches, refuses⟩
    rw [Nat.zero_add] at refuses
    have place : error.position = byteCount before := by cases refuses <;> rfl
    refine ⟨before, ahead, front, same, place, munches, ?_, place ▸ refuses⟩
    have splits := munches.cutOff.splits
    rw [Nat.zero_add, ← place] at splits
    rw [tokenize_eq_ok_iff, String.toList_ofList]
    exact splits

/-- A second point starts a number of its own if a digit follows it, and three
stars are a power first.  Without the digit the second point is refused, and
what is before it is a number. -/
theorem tokenize_maximal_munch_points :
    tokenize "1..5***x" = .ok [⟨.number 1, 0⟩, ⟨.number 0.5, 2⟩, ⟨.operator .power, 4⟩,
      ⟨.operator .multiply, 6⟩, ⟨.identifier "x", 7⟩, ⟨.endOfInput, 8⟩] ∧
    Adjoins "1..5***x".toList ⟨.number 0.5, 2⟩ ⟨.operator .power, 4⟩ ∧
    tokenize "1.." = .error (.unexpectedCharacter '.' 2) ∧
    Exists fun before : List Char => Exists fun ahead : List Char =>
      "1..".toList = before ++ ahead ∧ 2 = byteCount before ∧
        Refuses ahead 2 (.unexpectedCharacter '.' 2) := by
  have split : tokenize "1..5***x" = .ok [⟨.number 1, 0⟩, ⟨.number 0.5, 2⟩,
      ⟨.operator .power, 4⟩, ⟨.operator .multiply, 6⟩, ⟨.identifier "x", 7⟩,
      ⟨.endOfInput, 8⟩] := rfl
  have failed : tokenize "1.." = .error (.unexpectedCharacter '.' 2) := rfl
  have adjoins := ((tokenize_maximal_munch "1..5***x").2.1 _ split).2
  rcases (tokenize_maximal_munch "1..").2.2 _ failed with
    ⟨before, ahead, _, same, place, _, _, refuses⟩
  exact ⟨split, adjoins [_] _ _ _ rfl, failed, before, ahead, same, place, refuses⟩

end DeskCalculator

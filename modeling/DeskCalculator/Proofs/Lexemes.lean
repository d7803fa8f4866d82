import DeskCalculator.Proofs.Outcome
import DeskCalculator.Token.Lexer

namespace DeskCalculator

/-!
# The lexemes of a text

What it means that a text splits into lexemes, as a relation and without any
lexer in view: the text is blanks and pieces, every piece is the longest lexeme
at its place, and every lexeme carries the number of bytes before it.  The
lexer finds this splitting whenever there is one.
-/

/-- Number of bytes of some characters. -/
def byteCount (characters : List Char) : Nat :=
  (characters.map Char.utf8Size).sum

/-- The characters do not go on with one of a kind. -/
def HaltsAt (kind : Char -> Bool) (characters : List Char) : Prop :=
  forall next, next ∈ characters.head? -> kind next = false

theorem haltsAt_cons {kind : Char -> Bool} {first : Char} (rest : List Char)
    (other : kind first = false) : HaltsAt kind (first :: rest) := by
  intro next found
  exact Option.mem_some.mp found ▸ other

/-- Where the characters do not halt, one of the kind comes first. -/
theorem exists_of_not_haltsAt {kind : Char -> Bool} {characters : List Char}
    (goesOn : ¬ HaltsAt kind characters) :
    Exists fun first : Char => Exists fun rest : List Char =>
      characters = first :: rest ∧ kind first = true := by
  cases characters with
  | nil => exact absurd nofun goesOn
  | cons first rest =>
      refine ⟨first, rest, rfl, ?_⟩
      apply Bool.of_not_eq_false
      intro other
      exact goesOn (haltsAt_cons rest other)

/-- What does not start with a single star, but with a star, starts with two. -/
theorem exists_of_doubled {first : Char} {rest : List Char}
    (doubled : ¬ (first = '*' -> HaltsAt (· == '*') rest)) :
    first = '*' ∧ Exists fun more : List Char => rest = '*' :: more := by
  rcases Classical.not_imp.mp doubled with ⟨isStar, goesOn⟩
  rcases exists_of_not_haltsAt goesOn with ⟨next, more, rfl, star⟩
  exact ⟨isStar, more, by rw [beq_iff_eq.mp star]⟩

/-- The piece is the longest lexeme at the start of `piece ++ rest`. -/
inductive Begins : (piece rest : List Char) -> Token -> Prop
  | whole {digits rest : List Char} :
      digits ≠ [] -> (forall digit, digit ∈ digits -> digit.isDigit = true) ->
      HaltsAt (fun next => next.isDigit || next == '.') rest ->
      (Numeral.ofDigitChars digits []).toFloat.isFinite = true ->
      Begins digits rest (.number (Numeral.ofDigitChars digits []).toFloat)
  | decimal {digits fraction rest : List Char} :
      (digits ≠ [] ∨ fraction ≠ []) ->
      (forall digit, digit ∈ digits ++ fraction -> digit.isDigit = true) ->
      HaltsAt Char.isDigit rest ->
      (Numeral.ofDigitChars digits fraction).toFloat.isFinite = true ->
      Begins (digits ++ '.' :: fraction) rest
        (.number (Numeral.ofDigitChars digits fraction).toFloat)
  | name {letters rest : List Char} :
      letters ≠ [] -> (forall letter, letter ∈ letters -> letter.isAlpha = true) ->
      HaltsAt Char.isAlpha rest ->
      Begins letters rest (.identifier (String.ofList letters))
  | symbol {character : Char} {token : Token} {rest : List Char} :
      Recognition.symbol? character = some token ->
      (character = '*' -> HaltsAt (· == '*') rest) ->
      Begins [character] rest token
  | power {rest : List Char} : Begins ['*', '*'] rest (.operator .power)

/-- The characters from byte `position` on are blanks and the given lexemes,
and the last lexeme marks the end of the text. -/
inductive Splits : (position : Nat) -> List Char -> List Lexeme -> Prop
  | nothing (position : Nat) : Splits position [] [⟨.endOfInput, position⟩]
  | blank {position : Nat} {character : Char} {rest : List Char} {lexemes : List Lexeme} :
      isBlank character = true -> Splits (position + character.utf8Size) rest lexemes ->
      Splits position (character :: rest) lexemes
  | lexeme {position : Nat} {piece rest : List Char} {token : Token} {lexemes : List Lexeme} :
      Begins piece rest token -> Splits (position + byteCount piece) rest lexemes ->
      Splits position (piece ++ rest) (⟨token, position⟩ :: lexemes)

/-! ## What the lexer does at each kind of character -/

theorem symbol?_cases {character : Char} {token : Token}
    (found : Recognition.symbol? character = some token) :
    (Exists fun op : Operator => token = .operator op) ∨ (character = '(' ∧ token = .openParen) ∨
      (character = ')' ∧ token = .closeParen) ∨ (character = ',' ∧ token = .comma) := by
  revert found
  unfold Recognition.symbol?
  split <;> intro found <;> cases found <;> simp

/-- The characters that are tokens by themselves. -/
def symbolChars : List Char :=
  ['+', '-', '*', '/', '%', '(', ')', ',']

theorem mem_symbolChars {character : Char} {token : Token}
    (found : Recognition.symbol? character = some token) : character ∈ symbolChars := by
  revert found
  unfold Recognition.symbol?
  split <;> simp [symbolChars]

theorem symbolChars_kind {character : Char} (member : character ∈ symbolChars) :
    character.isDigit = false ∧ character.isAlpha = false ∧ isBlank character = false ∧
      character ≠ '.' := by
  have kinds : symbolChars.all (fun other =>
      !other.isDigit && !other.isAlpha && !isBlank other && other != '.') = true := by decide
  simpa [and_assoc] using List.all_eq_true.mp kinds character member

theorem symbol?_eq_none {character : Char}
    (other : character.isDigit = true ∨ character.isAlpha = true ∨ isBlank character = true ∨
      character = '.') : Recognition.symbol? character = none := by
  cases found : Recognition.symbol? character with
  | none => rfl
  | some token =>
      have kind := symbolChars_kind (mem_symbolChars found)
      simp [kind] at other

theorem isDigit_eq_false_of_isAlpha {character : Char} (letter : character.isAlpha = true) :
    character.isDigit = false := by
  simp only [Char.isAlpha, Char.isUpper, Char.isLower, Char.isDigit, Bool.or_eq_true,
    Bool.and_eq_true, decide_eq_true_eq, ge_iff_le, Bool.and_eq_false_iff, decide_eq_false_iff_not,
    UInt32.le_iff_toNat_le, Char.reduceVal, UInt32.reduceToNat] at letter ⊢
  omega

/-- The characters that are blanks. -/
def blankChars : List Char :=
  [' ', '\t', '\n', '\r', '\x0c']

theorem isBlank_eq_true_iff (character : Char) :
    isBlank character = true ↔ character ∈ blankChars := by
  simp [isBlank, blankChars, or_assoc]

theorem isBlank_kind {character : Char} (blank : isBlank character = true) :
    character.isDigit = false ∧ character.isAlpha = false ∧ character ≠ '.' := by
  have kinds : blankChars.all (fun other =>
      !other.isDigit && !other.isAlpha && other != '.') = true := by decide
  have member := (isBlank_eq_true_iff character).mp blank
  simpa [and_assoc] using List.all_eq_true.mp kinds character member

theorem takeWhile_of_haltsAt {kind : Char -> Bool} {piece rest : List Char}
    (inside : forall character, character ∈ piece -> kind character = true)
    (halts : HaltsAt kind rest) :
    (piece ++ rest).takeWhile kind = piece ∧ (piece ++ rest).dropWhile kind = rest := by
  rw [List.takeWhile_append_of_pos inside, List.dropWhile_append_of_pos inside]
  cases rest with
  | nil => simp
  | cons next rest => simp [halts next rfl]

/-- Characters start with a longest run of a kind. -/
theorem exists_run (kind : Char -> Bool) (characters : List Char) :
    Exists fun run : List Char => Exists fun rest : List Char =>
      characters = run ++ rest ∧ (forall character, character ∈ run -> kind character = true) ∧
        HaltsAt kind rest := by
  refine ⟨characters.takeWhile kind, characters.dropWhile kind,
    List.takeWhile_append_dropWhile.symm, ?_, ?_⟩
  · intro character member
    exact List.all_eq_true.mp List.all_takeWhile character member
  · intro next first
    have stops := List.head?_dropWhile_not kind characters
    rw [Option.mem_def.mp first] at stops
    simpa using stops

namespace Recognition

theorem ofChars_cons {first : Char} {rest : List Char}
    (single : first = '*' -> HaltsAt (· == '*') rest) :
    ofChars (first :: rest) =
      match symbol? first with
      | some token => .lexeme token 0
      | none =>
          if first.isDigit then ofDigits (first :: rest)
          else if first.isAlpha then ofLetters (first :: rest)
          else if first = '.' then ofPoint rest
          else .unexpected := by
  unfold ofChars
  split
  · contradiction
  · next opening =>
      rcases List.cons.inj opening with ⟨rfl, rfl⟩
      exact absurd (single rfl '*' rfl) (by decide)
  · next opening =>
      rcases List.cons.inj opening with ⟨rfl, rfl⟩
      rfl

theorem ofChars_symbol {first : Char} {rest : List Char} {token : Token}
    (found : symbol? first = some token) (single : first = '*' -> HaltsAt (· == '*') rest) :
    ofChars (first :: rest) = .lexeme token 0 := by
  rw [ofChars_cons single, found]

theorem ofChars_of_symbol?_eq_none {first : Char} (rest : List Char)
    (noSymbol : symbol? first = none) :
    ofChars (first :: rest) =
      if first.isDigit then ofDigits (first :: rest)
      else if first.isAlpha then ofLetters (first :: rest)
      else if first = '.' then ofPoint rest
      else .unexpected := by
  have single : first = '*' -> HaltsAt (· == '*') rest := by
    rintro rfl
    exact absurd noSymbol (by decide)
  rw [ofChars_cons single, noSymbol]

theorem ofChars_digit {first : Char} (rest : List Char) (digit : first.isDigit = true) :
    ofChars (first :: rest) = ofDigits (first :: rest) := by
  rw [ofChars_of_symbol?_eq_none rest (symbol?_eq_none (.inl digit)), if_pos digit]

theorem ofChars_letter {first : Char} (rest : List Char) (letter : first.isAlpha = true) :
    ofChars (first :: rest) = ofLetters (first :: rest) := by
  rw [ofChars_of_symbol?_eq_none rest (symbol?_eq_none (.inr (.inl letter))), if_pos letter,
    if_neg (by simp [isDigit_eq_false_of_isAlpha letter])]

theorem ofChars_point (rest : List Char) : ofChars ('.' :: rest) = ofPoint rest :=
  ofChars_of_symbol?_eq_none rest rfl

theorem ofNumeral_eq_lexeme_iff {numeral : Numeral} {literal : List Char} {token : Token}
    {more : Nat} :
    ofNumeral numeral literal = .lexeme token more ↔
      numeral.toFloat.isFinite = true ∧ token = .number numeral.toFloat ∧
        more = literal.length - 1 := by
  unfold ofNumeral
  by_cases finite : numeral.toFloat.isFinite = true
  · rw [if_pos finite]
    simp [finite, eq_comm]
  · rw [if_neg finite]
    simp [finite]

variable {digits fraction rest : List Char}

theorem ofDigits_whole (inside : forall digit, digit ∈ digits -> digit.isDigit = true)
    (halts : HaltsAt (fun next => next.isDigit || next == '.') rest) :
    ofDigits (digits ++ rest) = ofNumeral (Numeral.ofDigitChars digits []) digits := by
  have haltsDigits : HaltsAt Char.isDigit rest := fun next first =>
    (Bool.or_eq_false_iff.mp (halts next first)).1
  rcases takeWhile_of_haltsAt inside haltsDigits with ⟨taken, left⟩
  unfold ofDigits
  rw [taken, left]
  split
  · exact absurd (halts '.' rfl) (by decide)
  · rfl

theorem ofDigits_decimal
    (inside : forall digit, digit ∈ digits ++ fraction -> digit.isDigit = true)
    (halts : HaltsAt Char.isDigit rest) :
    ofDigits (digits ++ '.' :: (fraction ++ rest)) =
      ofNumeral (Numeral.ofDigitChars digits fraction) (digits ++ '.' :: fraction) := by
  have haltsPoint : HaltsAt Char.isDigit ('.' :: (fraction ++ rest)) := haltsAt_cons _ rfl
  rcases takeWhile_of_haltsAt
    (fun digit member => inside digit (List.mem_append_left _ member)) haltsPoint with
    ⟨taken, left⟩
  unfold ofDigits
  rw [taken, left]
  simp only [(takeWhile_of_haltsAt
    (fun digit member => inside digit (List.mem_append_right _ member)) halts).1]

theorem ofPoint_fraction (nonempty : fraction ≠ [])
    (inside : forall digit, digit ∈ fraction -> digit.isDigit = true)
    (halts : HaltsAt Char.isDigit rest) :
    ofPoint (fraction ++ rest) =
      ofNumeral (Numeral.ofDigitChars [] fraction) ('.' :: fraction) := by
  unfold ofPoint
  rw [(takeWhile_of_haltsAt inside halts).1]
  exact if_neg (by simpa using nonempty)

theorem ofLetters_name {letters : List Char}
    (inside : forall letter, letter ∈ letters -> letter.isAlpha = true)
    (halts : HaltsAt Char.isAlpha rest) :
    ofLetters (letters ++ rest) =
      .lexeme (.identifier (String.ofList letters)) (letters.length - 1) := by
  unfold ofLetters
  rw [(takeWhile_of_haltsAt inside halts).1]

end Recognition

/-! ## Recognizing is finding the longest lexeme -/

theorem Begins.token_ne_endOfInput {piece rest : List Char} {token : Token}
    (begins : Begins piece rest token) : token ≠ .endOfInput := by
  cases begins with
  | symbol found _ =>
      rcases symbol?_cases found with ⟨_, rfl⟩ | ⟨_, rfl⟩ | ⟨_, rfl⟩ | ⟨_, rfl⟩
      all_goals exact nofun
  | _ => exact nofun

theorem Begins.ofChars {piece rest : List Char} {token : Token}
    (begins : Begins piece rest token) :
    Recognition.ofChars (piece ++ rest) = .lexeme token (piece.length - 1) := by
  cases begins with
  | whole nonempty inside halts finite =>
      rcases List.exists_cons_of_ne_nil nonempty with ⟨first, more, rfl⟩
      rw [List.cons_append, Recognition.ofChars_digit _ (inside first (List.mem_cons_self ..)),
        ← List.cons_append, Recognition.ofDigits_whole inside halts]
      exact Recognition.ofNumeral_eq_lexeme_iff.mpr ⟨finite, rfl, rfl⟩
  | @decimal digits fraction _ nonempty inside halts finite =>
      refine Eq.trans ?_ (Recognition.ofNumeral_eq_lexeme_iff.mpr ⟨finite, rfl, rfl⟩)
      rw [List.append_assoc, List.cons_append]
      cases digits with
      | nil =>
          have fractional : fraction ≠ [] := by simpa using nonempty
          rw [List.nil_append, Recognition.ofChars_point,
            Recognition.ofPoint_fraction fractional inside halts]
          rfl
      | cons first more =>
          rw [List.cons_append, Recognition.ofChars_digit _ (inside first (List.mem_cons_self ..)),
            ← List.cons_append, Recognition.ofDigits_decimal inside halts]
  | name nonempty inside halts =>
      rcases List.exists_cons_of_ne_nil nonempty with ⟨first, more, rfl⟩
      rw [List.cons_append, Recognition.ofChars_letter _ (inside first (List.mem_cons_self ..)),
        ← List.cons_append, Recognition.ofLetters_name inside halts]
  | symbol found single => exact Recognition.ofChars_symbol found single
  | power => rfl

/-- A recognized token is that of a longest lexeme. -/
def Recognition.Sound (recognition : Recognition) (characters : List Char) : Prop :=
  forall (token : Token) (more : Nat), recognition = .lexeme token more ->
    Exists fun piece : List Char => Exists fun rest : List Char =>
      characters = piece ++ rest ∧ piece.length = more + 1 ∧ Begins piece rest token

theorem Recognition.ofNumeral_sound {numeral : Numeral} {literal rest : List Char}
    (nonempty : literal ≠ [])
    (begins : numeral.toFloat.isFinite = true -> Begins literal rest (.number numeral.toFloat)) :
    (ofNumeral numeral literal).Sound (literal ++ rest) := by
  intro token more recognized
  rcases ofNumeral_eq_lexeme_iff.mp recognized with ⟨finite, rfl, rfl⟩
  have positive : 0 < literal.length := List.length_pos_iff.mpr nonempty
  exact ⟨literal, rest, rfl, by omega, begins finite⟩

theorem Recognition.ofDigits_sound (first : Char) (rest : List Char)
    (digit : first.isDigit = true) : (ofDigits (first :: rest)).Sound (first :: rest) := by
  rcases exists_run Char.isDigit rest with ⟨digits, after, rfl, inside, halts⟩
  have allDigits : forall other, other ∈ first :: digits -> other.isDigit = true :=
    List.forall_mem_cons.mpr ⟨digit, inside⟩
  have nonempty : first :: digits ≠ [] := List.cons_ne_nil _ _
  by_cases point : HaltsAt (fun next => next.isDigit || next == '.') after
  · have shape := ofDigits_whole allDigits point
    rw [List.cons_append] at shape
    rw [shape, ← List.cons_append]
    exact ofNumeral_sound nonempty (fun finite => .whole nonempty allDigits point finite)
  · rcases exists_of_not_haltsAt point with ⟨next, more, rfl, goesOn⟩
    have isPoint : next = '.' := by simpa [halts next rfl] using goesOn
    subst isPoint
    rcases exists_run Char.isDigit more with ⟨fraction, remainder, rfl, decimals, ends⟩
    have bothDigits : forall other, other ∈ (first :: digits) ++ fraction ->
        other.isDigit = true := List.forall_mem_append.mpr ⟨allDigits, decimals⟩
    have shape := ofDigits_decimal bothDigits ends
    rw [List.cons_append] at shape
    rw [shape]
    have split : first :: (digits ++ '.' :: (fraction ++ remainder)) =
        (first :: digits ++ '.' :: fraction) ++ remainder := by simp
    rw [split]
    exact ofNumeral_sound (by simp) (fun finite => .decimal (.inl nonempty) bothDigits ends finite)

theorem Recognition.ofPoint_sound (rest : List Char) : (ofPoint rest).Sound ('.' :: rest) := by
  rcases exists_run Char.isDigit rest with ⟨fraction, remainder, rfl, decimals, ends⟩
  by_cases empty : fraction = []
  · have nothing : ofPoint (fraction ++ remainder) = .unexpected := by
      unfold ofPoint
      rw [(takeWhile_of_haltsAt decimals ends).1]
      exact if_pos (by simpa using empty)
    rw [nothing]
    intro token more recognized
    cases recognized
  · rw [ofPoint_fraction empty decimals ends, ← List.cons_append]
    exact ofNumeral_sound (by simp) (fun finite =>
      @Begins.decimal [] fraction remainder (Or.inr empty) decimals ends finite)

theorem Recognition.ofLetters_sound (first : Char) (rest : List Char)
    (letter : first.isAlpha = true) : (ofLetters (first :: rest)).Sound (first :: rest) := by
  rcases exists_run Char.isAlpha rest with ⟨letters, after, rfl, inside, halts⟩
  have allLetters : forall other, other ∈ first :: letters -> other.isAlpha = true :=
    List.forall_mem_cons.mpr ⟨letter, inside⟩
  rw [← List.cons_append, ofLetters_name allLetters halts]
  intro token more recognized
  cases recognized
  exact ⟨_, after, rfl, rfl, .name (List.cons_ne_nil _ _) allLetters halts⟩

theorem Recognition.ofChars_sound (characters : List Char) :
    (ofChars characters).Sound characters := by
  cases characters with
  | nil => intro token more recognized; cases recognized
  | cons first rest =>
      by_cases single : first = '*' -> HaltsAt (· == '*') rest
      · cases found : symbol? first with
        | some token =>
            rw [ofChars_symbol found single]
            intro token more recognized
            cases recognized
            exact ⟨[first], rest, rfl, rfl, .symbol found single⟩
        | none =>
            rw [ofChars_of_symbol?_eq_none rest found]
            by_cases digit : first.isDigit = true
            · rw [if_pos digit]
              exact ofDigits_sound first rest digit
            · rw [if_neg digit]
              by_cases letter : first.isAlpha = true
              · rw [if_pos letter]
                exact ofLetters_sound first rest letter
              · rw [if_neg letter]
                by_cases point : first = '.'
                · subst point
                  exact ofPoint_sound rest
                · rw [if_neg point]
                  intro token more recognized
                  cases recognized
      · rcases exists_of_doubled single with ⟨rfl, more, rfl⟩
        intro token count recognized
        cases recognized
        exact ⟨['*', '*'], more, rfl, rfl, .power⟩

/-- The characters of a lexeme are digits, letters, points or tokens by
themselves. -/
theorem Begins.kind_of_mem {piece rest : List Char} {token : Token}
    (begins : Begins piece rest token) {character : Char} (member : character ∈ piece) :
    character.isDigit = true ∨ character.isAlpha = true ∨ character = '.' ∨
      character ∈ symbolChars := by
  cases begins with
  | whole _ inside _ _ => exact .inl (inside character member)
  | decimal _ inside _ _ =>
      rcases List.mem_append.mp member with inDigits | inRest
      · exact .inl (inside character (List.mem_append_left _ inDigits))
      · rcases List.mem_cons.mp inRest with point | inFraction
        · exact .inr (.inr (.inl point))
        · exact .inl (inside character (List.mem_append_right _ inFraction))
  | name _ inside _ => exact .inr (.inl (inside character member))
  | symbol found _ =>
      rw [List.mem_singleton.mp member]
      exact .inr (.inr (.inr (mem_symbolChars found)))
  | power =>
      have star : character = '*' := by simpa using member
      subst star
      exact .inr (.inr (.inr (by decide)))

theorem Begins.not_blank {piece rest : List Char} {token : Token}
    (begins : Begins piece rest token) {character : Char} (member : character ∈ piece) :
    isBlank character = false := by
  cases blank : isBlank character with
  | false => rfl
  | true =>
      rcases begins.kind_of_mem member with digit | letter | point | symbol
      · rw [(isBlank_kind blank).1] at digit
        cases digit
      · rw [(isBlank_kind blank).2.1] at letter
        cases letter
      · exact absurd point (isBlank_kind blank).2.2
      · rw [(symbolChars_kind symbol).2.2.1] at blank
        cases blank

theorem Begins.ne_nil {piece rest : List Char} {token : Token}
    (begins : Begins piece rest token) : piece ≠ [] := by
  cases begins with
  | whole nonempty _ _ _ => exact nonempty
  | name nonempty _ _ => exact nonempty
  | _ => simp

theorem Begins.first_not_blank {piece rest : List Char} {token : Token}
    (begins : Begins piece rest token) :
    Exists fun first : Char => Exists fun more : List Char =>
      piece = first :: more ∧ isBlank first = false := by
  rcases List.exists_cons_of_ne_nil begins.ne_nil with ⟨first, more, rfl⟩
  exact ⟨first, more, rfl, begins.not_blank (List.mem_cons_self ..)⟩

/-! ## Scanning is splitting -/

theorem scan_blank {position : Nat} {character : Char} {rest : List Char}
    (blank : isBlank character = true) :
    scan 0 position (character :: rest) = scan 0 (position + character.utf8Size) rest := by
  simp [scan, blank]

theorem scan_lexeme {position : Nat} {piece rest : List Char} {token : Token}
    (begins : Begins piece rest token) :
    scan 0 position (piece ++ rest) =
      (scan 0 (position + byteCount piece) rest).map (⟨token, position⟩ :: ·) := by
  rcases begins.first_not_blank with ⟨first, more, rfl, visible⟩
  have recognized := begins.ofChars
  simp only [List.cons_append, List.length_cons, Nat.add_sub_cancel] at recognized
  rw [List.cons_append, scan]
  simp only [visible, Bool.false_eq_true, if_false, recognized, scan_append_inside, byteCount,
    List.map_cons, List.sum_cons, Nat.add_assoc]

theorem Splits.scan_eq {position : Nat} {characters : List Char} {lexemes : List Lexeme}
    (splits : Splits position characters lexemes) :
    scan 0 position characters = .ok lexemes := by
  induction splits with
  | nothing position => rfl
  | blank blank _ ih => rw [scan_blank blank, ih]
  | lexeme begins _ ih =>
      rw [scan_lexeme begins, ih]
      rfl

/-- The induction is on the number of characters, because a lexeme takes
several of them at once. -/
theorem splits_of_scan_eq (count : Nat) : forall (position : Nat) (characters : List Char)
    (lexemes : List Lexeme), characters.length ≤ count ->
      scan 0 position characters = .ok lexemes -> Splits position characters lexemes := by
  induction count with
  | zero =>
      intro position characters lexemes short scanned
      have empty := List.eq_nil_of_length_eq_zero (Nat.le_zero.mp short)
      subst empty
      cases scanned
      exact .nothing position
  | succ count ih =>
      intro position characters lexemes short scanned
      cases characters with
      | nil =>
          cases scanned
          exact .nothing position
      | cons character rest =>
          by_cases blank : isBlank character = true
          · rw [scan_blank blank] at scanned
            exact .blank blank (ih _ rest lexemes (Nat.le_of_succ_le_succ short) scanned)
          · cases recognized : Recognition.ofChars (character :: rest) with
            | lexeme token more =>
                rcases Recognition.ofChars_sound (character :: rest) token more recognized with
                  ⟨piece, remainder, split, size, begins⟩
                rw [split, scan_lexeme begins] at scanned
                rcases Outcome.map_eq_ok_iff.mp scanned with ⟨later, scannedLater, rfl⟩
                rw [split] at short ⊢
                rw [List.length_append] at short
                exact .lexeme begins (ih _ remainder later (by omega) scannedLater)
            | unreadable literal =>
                rw [scan, if_neg blank, recognized] at scanned
                cases scanned
            | unexpected =>
                rw [scan, if_neg blank, recognized] at scanned
                cases scanned

/-- The lexer succeeds exactly on the texts that split into lexemes. -/
theorem tokenize_eq_ok_iff (text : String) (lexemes : List Lexeme) :
    tokenize text = .ok lexemes ↔ Splits 0 text.toList lexemes :=
  ⟨splits_of_scan_eq text.toList.length 0 text.toList lexemes (Nat.le_refl _), Splits.scan_eq⟩

/-! ## The characters of a text that splits -/

/-- The characters of lexemes and blanks. -/
def isPlainChar (character : Char) : Bool :=
  character.isDigit || character == '.' || character.isAlpha || symbolChars.contains character ||
    isBlank character

theorem Begins.isPlainChar {piece rest : List Char} {token : Token}
    (begins : Begins piece rest token) {character : Char} (member : character ∈ piece) :
    isPlainChar character = true := by
  unfold DeskCalculator.isPlainChar
  rcases begins.kind_of_mem member with digit | letter | point | symbol
  · simp [digit]
  · simp [letter]
  · simp [point]
  · simp [symbol]

theorem Splits.isPlainChar {position : Nat} {characters : List Char}
    {lexemes : List Lexeme} (splits : Splits position characters lexemes) {character : Char}
    (member : character ∈ characters) : isPlainChar character = true := by
  induction splits with
  | nothing _ => cases member
  | blank blank _ ih =>
      rcases List.mem_cons.mp member with rfl | later
      · simp [DeskCalculator.isPlainChar, blank]
      · exact ih later
  | lexeme begins _ ih =>
      rcases List.mem_append.mp member with inPiece | later
      · exact begins.isPlainChar inPiece
      · exact ih later

end DeskCalculator

import DeskCalculator.Proofs.Endings
import DeskCalculator.Proofs.MaximalMunch
import DeskCalculator.Proofs.Relocation

namespace DeskCalculator

/-!
# White space around a text

Trimming takes all white space of Unicode off the ends of a text, whereas the
lexer skips the five blank characters and refuses every other white one.  So the
lexemes of a text are those of the trimmed text, later by the bytes in front,
provided that all the white space at its ends is blank.  If it is not, the lexer
stops at the first white character that is foreign to it.

No lexeme reaches over an end: white characters are part of none, so what is
recognized before them is the same with them and without them.
-/

/-! ## White characters -/

/-- The white characters before the first visible one. -/
def leadingWhite (characters : List Char) : List Char :=
  characters.takeWhile isWhiteSpace

/-- The white characters after the last visible one. -/
def trailingWhite (characters : List Char) : List Char :=
  (characters.dropWhile isWhiteSpace).rtakeWhile isWhiteSpace

/-- All characters are skipped by the lexer. -/
def AllBlank (characters : List Char) : Prop :=
  forall character, character ∈ characters -> isBlank character = true

/-- The first of the white characters that the lexer does not skip, and the
blanks before it. -/
def FirstForeign (white blanks : List Char) (character : Char) : Prop :=
  AllBlank blanks ∧ isBlank character = false ∧
    Exists fun more : List Char => white = blanks ++ character :: more

/-- What is cut off by trimming is the white space at the ends. -/
theorem white_around_trimChars (characters : List Char) :
    leadingWhite characters ++ (trimChars characters ++ trailingWhite characters) =
      characters := by
  have closing : trimChars characters ++ trailingWhite characters =
      characters.dropWhile isWhiteSpace := by
    rw [trimChars, trailingWhite, List.rtakeWhile, ← List.reverse_append,
      List.takeWhile_append_dropWhile, List.reverse_reverse]
  rw [closing, leadingWhite, List.takeWhile_append_dropWhile]

theorem isWhiteSpace_of_mem_leadingWhite {characters : List Char} {character : Char}
    (member : character ∈ leadingWhite characters) : isWhiteSpace character = true :=
  List.all_eq_true.mp List.all_takeWhile character member

theorem isWhiteSpace_of_mem_trailingWhite {characters : List Char} {character : Char}
    (member : character ∈ trailingWhite characters) : isWhiteSpace character = true :=
  List.mem_rtakeWhile_imp member

/-- The last character of a trimmed text is visible. -/
theorem isWhiteSpace_eq_false_of_getLast? {characters : List Char} {last : Char}
    (found : (trimChars characters).getLast? = some last) : isWhiteSpace last = false := by
  rcases List.getLast?_eq_some_iff.mp found with ⟨front, shape⟩
  have opening : last ∈ ((characters.dropWhile isWhiteSpace).reverse.dropWhile
      isWhiteSpace).head? := by
    rw [← List.reverse_reverse (List.dropWhile _ _), ← trimChars, shape, List.reverse_append]
    rfl
  have stops := List.head?_dropWhile_not isWhiteSpace (characters.dropWhile isWhiteSpace).reverse
  rw [Option.mem_def.mp opening] at stops
  simpa using stops

/-- A white character is skipped, or it is no character of any lexeme. -/
theorem isPlainChar_eq_false_of_white {character : Char} (white : isWhiteSpace character = true)
    (foreign : isBlank character = false) : isPlainChar character = false := by
  apply Bool.eq_false_iff.mpr
  intro plain
  rw [isWhiteSpace_eq_false_of_plain plain foreign] at white
  cases white

/-- Respelling leaves white space as it is. -/
theorem normalizeChars_white {white : List Char}
    (allWhite : forall character, character ∈ white -> isWhiteSpace character = true) :
    normalizeChars white = white := by
  apply normalizeChars_of_plain
  intro character member glyph
  have visible : glyphs.all (fun other => !isWhiteSpace other) = true := by decide
  have kind := List.all_eq_true.mp visible character glyph
  simp [allWhite character member] at kind

/-! ## White space after a lexeme -/

/-- White space does not go on with a kind of visible characters. -/
theorem haltsAt_of_white {kind : Char -> Bool} {white : List Char}
    (visible : forall character, kind character = true -> isWhiteSpace character = false)
    (allWhite : forall character, character ∈ white -> isWhiteSpace character = true) :
    HaltsAt kind white := by
  intro next found
  apply Bool.eq_false_iff.mpr
  intro isKind
  have white := allWhite next (List.mem_of_mem_head? found)
  rw [visible next isKind] at white
  cases white

theorem HaltsAt.append {kind : Char -> Bool} {first second : List Char}
    (halts : HaltsAt kind first) (haltsAfter : HaltsAt kind second) :
    HaltsAt kind (first ++ second) := by
  cases first with
  | nil => exact haltsAfter
  | cons next rest => exact haltsAt_cons _ (halts next rfl)

/-- A run of a kind ends where it did if what is appended does not go on with
it. -/
theorem takeWhile_append_of_haltsAt {kind : Char -> Bool} {after : List Char}
    (halts : HaltsAt kind after) (characters : List Char) :
    (characters ++ after).takeWhile kind = characters.takeWhile kind ∧
      (characters ++ after).dropWhile kind = characters.dropWhile kind ++ after := by
  rcases exists_run kind characters with ⟨run, rest, rfl, inside, haltsRest⟩
  rw [(takeWhile_of_haltsAt inside haltsRest).1, (takeWhile_of_haltsAt inside haltsRest).2,
    List.append_assoc]
  exact takeWhile_of_haltsAt inside (haltsRest.append halts)

namespace Recognition

variable {after : List Char}

theorem ofDigits_append (digits : HaltsAt Char.isDigit after) (point : HaltsAt (· == '.') after)
    (characters : List Char) : ofDigits (characters ++ after) = ofDigits characters := by
  rcases takeWhile_append_of_haltsAt digits characters with ⟨taken, left⟩
  unfold ofDigits
  rw [taken, left]
  by_cases halts : HaltsAt (· == '.') (characters.dropWhile Char.isDigit)
  · have noPoint {more : List Char} (other : HaltsAt (· == '.') more) :
        forall rest : List Char, more ≠ '.' :: rest := by
      rintro rest rfl
      exact absurd (other '.' rfl) (by decide)
    split
    · next rest shape => exact absurd shape (noPoint (halts.append point) rest)
    · split
      · next rest shape => exact absurd shape (noPoint halts rest)
      · rfl
  · rcases exists_of_not_haltsAt halts with ⟨first, rest, shape, isPoint⟩
    rw [shape, beq_iff_eq.mp isPoint, List.cons_append]
    simp only [(takeWhile_append_of_haltsAt digits rest).1]

/-- What is recognized before white space is recognized without it. -/
theorem ofChars_append
    (allWhite : forall character, character ∈ after -> isWhiteSpace character = true)
    (first : Char) (rest : List Char) :
    ofChars (first :: rest ++ after) = ofChars (first :: rest) := by
  have digits : HaltsAt Char.isDigit after := haltsAt_of_white (fun character digit =>
    isWhiteSpace_eq_false_of_range (range_of_isAlpha (.inl digit)).1
      (range_of_isAlpha (.inl digit)).2) allWhite
  have letters : HaltsAt Char.isAlpha after := haltsAt_of_white (fun character letter =>
    isWhiteSpace_eq_false_of_range (range_of_isAlpha (.inr letter)).1
      (range_of_isAlpha (.inr letter)).2) allWhite
  have point : HaltsAt (· == '.') after := haltsAt_of_white (fun character same => by
    rw [beq_iff_eq.mp same]; decide) allWhite
  have star : HaltsAt (· == '*') after := haltsAt_of_white (fun character same => by
    rw [beq_iff_eq.mp same]; decide) allWhite
  by_cases single : first = '*' -> HaltsAt (· == '*') rest
  · have numbers := ofDigits_append digits point (first :: rest)
    have names : ofLetters (first :: rest ++ after) = ofLetters (first :: rest) := by
      unfold ofLetters
      rw [(takeWhile_append_of_haltsAt letters _).1]
    have fractions : ofPoint (rest ++ after) = ofPoint rest := by
      unfold ofPoint
      rw [(takeWhile_append_of_haltsAt digits _).1]
    rw [List.cons_append] at numbers names ⊢
    rw [ofChars_cons single, ofChars_cons fun isStar => (single isStar).append star, numbers,
      names, fractions]
  · rcases exists_of_doubled single with ⟨rfl, more, rfl⟩
    rfl

theorem more_le_length {first : Char} {rest : List Char} {token : Token} {more : Nat}
    (recognized : ofChars (first :: rest) = .lexeme token more) : more ≤ rest.length := by
  rcases ofChars_sound (first :: rest) token more recognized with ⟨piece, _, shape, size, _⟩
  have total := congrArg List.length shape
  rw [List.length_append, List.length_cons] at total
  omega

/-- Nothing starts with a character that no lexeme has. -/
theorem ofChars_foreign {character : Char} (foreign : isPlainChar character = false)
    (rest : List Char) : ofChars (character :: rest) = .unexpected := by
  simp only [isPlainChar, Bool.or_eq_false_iff, beq_eq_false_iff_ne] at foreign
  rcases foreign with ⟨⟨⟨⟨notDigit, notPoint⟩, notLetter⟩, notSymbol⟩, _⟩
  have noSymbol : symbol? character = none := by
    cases found : symbol? character with
    | none => rfl
    | some token =>
        rw [List.contains_iff_mem.mpr (mem_symbolChars found)] at notSymbol
        cases notSymbol
  rw [ofChars_of_symbol?_eq_none rest noSymbol, notDigit, notLetter, if_neg Bool.false_ne_true,
    if_neg Bool.false_ne_true, if_neg notPoint]

end Recognition

/-! ## Scanning through white space -/

theorem scan_ne_nil {inside position : Nat} {characters : List Char} {found : List Lexeme}
    (scanned : scan inside position characters = .ok found) : found ≠ [] := by
  induction characters generalizing inside position found with
  | nil =>
      cases inside <;> cases scanned <;> exact List.cons_ne_nil _ _
  | cons first rest ih =>
      cases inside with
      | succ inside => exact ih scanned
      | zero =>
          rw [scan] at scanned
          split at scanned
          · exact ih scanned
          · split at scanned
            · rcases Outcome.map_eq_ok_iff.mp scanned with ⟨later, _, rfl⟩
              exact List.cons_ne_nil _ _
            · cases scanned
            · cases scanned

/-- White space after some characters is scanned after them. -/
theorem scan_append_white {after : List Char}
    (allWhite : forall character, character ∈ after -> isWhiteSpace character = true)
    {inside : Nat} (position : Nat) {characters : List Char} (ends : inside ≤ characters.length) :
    scan inside position (characters ++ after) =
      scan inside position characters >>= fun found =>
        (scan 0 (position + byteCount characters) after).map (found.dropLast ++ ·) := by
  induction characters generalizing inside position with
  | nil =>
      rw [Nat.le_zero.mp ends]
      change scan 0 position after = (scan 0 position after).map id
      cases scan 0 position after <;> rfl
  | cons first rest ih =>
      rw [byteCount_cons, ← Nat.add_assoc]
      cases inside with
      | succ inside => exact ih _ (Nat.le_of_succ_le_succ ends)
      | zero =>
          have recognition := Recognition.ofChars_append allWhite first rest
          rw [List.cons_append] at recognition ⊢
          rw [scan, scan, recognition]
          split
          · exact ih _ (Nat.zero_le _)
          · cases recognized : Recognition.ofChars (first :: rest) with
            | unreadable literal => rfl
            | unexpected => rfl
            | lexeme token more =>
                dsimp only
                rw [ih _ (Recognition.more_le_length recognized)]
                cases scanned : scan more (position + first.utf8Size) rest with
                | error cause => rfl
                | ok found =>
                    change ((scan 0 _ after).map _).map _ = (scan 0 _ after).map _
                    rw [List.dropLast_cons_of_ne_nil (scan_ne_nil scanned)]
                    cases scan 0 (position + first.utf8Size + byteCount rest) after <;> rfl

theorem scan_blanks {blanks : List Char} (allBlank : AllBlank blanks) (position : Nat)
    (rest : List Char) :
    scan 0 position (blanks ++ rest) = scan 0 (position + byteCount blanks) rest := by
  induction blanks generalizing position with
  | nil => rfl
  | cons first blanks ih =>
      rcases List.forall_mem_cons.mp allBlank with ⟨blank, others⟩
      rw [List.cons_append, scan_blank blank, ih others, byteCount_cons, Nat.add_assoc]

/-- White space that is not all blank is refused at its first foreign
character. -/
theorem scan_firstForeign {white blanks : List Char} {character : Char}
    (allWhite : forall other, other ∈ white -> isWhiteSpace other = true)
    (first : FirstForeign white blanks character) (position : Nat) (rest : List Char) :
    scan 0 position (white ++ rest) =
      .error (.unexpectedCharacter character (position + byteCount blanks)) := by
  rcases first with ⟨allBlank, notBlank, more, rfl⟩
  have foreign := isPlainChar_eq_false_of_white
    (allWhite character (List.mem_append_right _ (List.mem_cons_self ..))) notBlank
  rw [List.append_assoc, scan_blanks allBlank, List.cons_append, scan,
    if_neg (by simp [notBlank]), Recognition.ofChars_foreign foreign]

/-! ## The lexemes of a text and of the trimmed text -/

section Trimming

variable (text : String)

/-- Number of bytes before the first visible character. -/
def leadingBytes : Nat :=
  byteCount (leadingWhite text.toList)

/-- The place of the end of the trimmed text in the whole text, in bytes. -/
def trimmedEnd : Nat :=
  leadingBytes text + (normalize (trimText text)).utf8ByteSize

theorem toList_normalize_trimmed :
    (normalize text).toList = leadingWhite text.toList ++
      ((normalize (trimText text)).toList ++ trailingWhite text.toList) := by
  have shape := congrArg normalizeChars (white_around_trimChars text.toList)
  rw [normalizeChars_append, normalizeChars_append,
    normalizeChars_white fun _ => isWhiteSpace_of_mem_leadingWhite,
    normalizeChars_white fun _ => isWhiteSpace_of_mem_trailingWhite] at shape
  rw [normalize, normalize, trimText, String.toList_ofList, String.toList_ofList,
    String.toList_ofList, shape]

/-- Foreign white space before the first visible character is refused. -/
theorem tokenize_leading_foreign {blanks : List Char} {character : Char}
    (first : FirstForeign (leadingWhite text.toList) blanks character) :
    tokenize (normalize text) = .error (.unexpectedCharacter character (byteCount blanks)) := by
  have refused := scan_firstForeign (fun _ => isWhiteSpace_of_mem_leadingWhite) first 0
  rw [tokenize, toList_normalize_trimmed, refused, Nat.zero_add]

/-- After blanks the trimmed text is scanned, and then the white space after
it. -/
theorem tokenize_after_blanks (blank : AllBlank (leadingWhite text.toList)) :
    tokenize (normalize text) =
      Outcome.rename (LexicalError.relocate (leadingBytes text + ·))
          (List.map (Lexeme.relocate (leadingBytes text + ·)))
          (tokenize (normalize (trimText text))) >>= fun found =>
        (scan 0 (trimmedEnd text) (trailingWhite text.toList)).map (found.dropLast ++ ·) := by
  rw [tokenize, toList_normalize_trimmed, scan_blanks blank,
    scan_append_white (fun _ => isWhiteSpace_of_mem_trailingWhite) _ (Nat.zero_le _),
    byteCount_toList, Nat.zero_add, tokenize, ← scan_relocate]
  rfl

/-- An error of the trimmed text is one of the whole text. -/
theorem tokenize_trimmed_error (blank : AllBlank (leadingWhite text.toList))
    {error : LexicalError} (failed : tokenize (normalize (trimText text)) = .error error) :
    tokenize (normalize text) = .error (error.relocate (leadingBytes text + ·)) := by
  rw [tokenize_after_blanks text blank, failed]
  rfl

/-- Foreign white space after the last visible character is refused. -/
theorem tokenize_trailing_foreign (blank : AllBlank (leadingWhite text.toList))
    {found : List Lexeme} (split : tokenize (normalize (trimText text)) = .ok found)
    {blanks : List Char} {character : Char}
    (first : FirstForeign (trailingWhite text.toList) blanks character) :
    tokenize (normalize text) =
      .error (.unexpectedCharacter character (trimmedEnd text + byteCount blanks)) := by
  have refused := scan_firstForeign (fun _ => isWhiteSpace_of_mem_trailingWhite) first
    (trimmedEnd text) []
  rw [List.append_nil] at refused
  rw [tokenize_after_blanks text blank, split, refused]
  rfl

/-- The place in the whole text of a place in the trimmed text: the end is moved
over the blanks after it. -/
def untrimmed (position : Nat) : Nat :=
  if position < (normalize (trimText text)).utf8ByteSize then leadingBytes text + position
  else trimmedEnd text + byteCount (trailingWhite text.toList)

/-- The lexemes of the trimmed text are those of the whole text. -/
theorem tokenize_trimmed_ok (blank : AllBlank (leadingWhite text.toList))
    (blankAfter : AllBlank (trailingWhite text.toList)) {stretch : List Lexeme} {final : Nat}
    (split : tokenize (normalize (trimText text)) = .ok (stretch ++ [⟨.endOfInput, final⟩])) :
    final = (normalize (trimText text)).utf8ByteSize ∧
      (forall lexeme, lexeme ∈ stretch -> lexeme.position < final) ∧
      tokenize (normalize text) =
        .ok ((stretch ++ [Lexeme.mk .endOfInput final]).map
          (Lexeme.relocate (untrimmed text))) := by
  have splits := (tokenize_eq_ok_iff _ _).mp split
  have atEnd : final = (normalize (trimText text)).utf8ByteSize := by
    rcases splits.munches with ⟨front, _, same⟩
    have last := congrArg List.getLast? same
    rw [List.getLast?_concat, List.getLast?_concat, Nat.zero_add, byteCount_toList] at last
    exact (Lexeme.mk.inj (Option.some.inj last)).2
  have before : forall lexeme, lexeme ∈ stretch -> lexeme.position < final := fun lexeme member =>
    (List.pairwise_append.mp splits.increasing).2.2 lexeme member _ (List.mem_singleton_self _)
  refine ⟨atEnd, before, ?_⟩
  have trailing := scan_blanks blankAfter (trimmedEnd text) []
  rw [List.append_nil] at trailing
  have same : stretch.map (Lexeme.relocate (untrimmed text)) =
      stretch.map (Lexeme.relocate (leadingBytes text + ·)) := by
    refine List.map_congr_left fun lexeme member => ?_
    rw [Lexeme.relocate, untrimmed, if_pos (atEnd ▸ before lexeme member), Lexeme.relocate]
  have ending : untrimmed text final = trimmedEnd text + byteCount (trailingWhite text.toList) := by
    rw [untrimmed, if_neg (Nat.not_lt.mpr (Nat.le_of_eq atEnd.symm))]
  rw [tokenize_after_blanks text blank, split, trailing, List.map_append, same]
  simp only [Outcome.rename, List.map_append, List.map_cons, List.map_nil, Lexeme.relocate, ending,
    bind, Except.bind, scan, Except.map, List.dropLast_concat]

end Trimming

end DeskCalculator

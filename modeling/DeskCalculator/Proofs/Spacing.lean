import DeskCalculator.Proofs.WhiteSpace

namespace DeskCalculator

/-!
# Blanks between lexemes

Blanks may be put in wherever no lexeme is cut in two.  Every lexeme before the
seam ends there or earlier, so it is still the longest one at its place, and the
lexemes after the seam are found again later in the text.  Since the reader does
nothing with positions but report them, the tree and the value stay the same,
and an error stays the same up to its position.

In front of a text no lexeme is cut, so leading blanks move all positions by
their bytes, also where the text does not split into lexemes.
-/

/-- The place of `position` after `count` bytes have been put in at byte `seam`. -/
def pushed (seam count position : Nat) : Nat :=
  if position < seam then position else count + position

/-- The lexeme starts before byte `offset` of the text and ends after it. -/
def Lexeme.Straddles (characters : List Char) (offset : Nat) (lexeme : Lexeme) : Prop :=
  Exists fun before : List Char => Exists fun piece : List Char => Exists fun rest : List Char =>
    characters = before ++ (piece ++ rest) ∧ lexeme.position = byteCount before ∧
      IsMunch piece rest lexeme.token ∧ lexeme.position < offset ∧
      offset < lexeme.position + byteCount piece

/-! ## What ends before the blanks -/

/-- Blanks do not go on with a kind of visible characters. -/
theorem HaltsAt.spaced {kind : Char -> Bool} {rest after white : List Char}
    (visible : forall character, isBlank character = true -> kind character = false)
    (allBlank : AllBlank white) (halts : HaltsAt kind (rest ++ after)) :
    HaltsAt kind (rest ++ (white ++ after)) := by
  cases rest with
  | cons next rest => exact haltsAt_cons _ (halts next rfl)
  | nil =>
      cases white with
      | nil => exact halts
      | cons blank white =>
          exact haltsAt_cons _ (visible blank (allBlank blank (List.mem_cons_self ..)))

/-- The longest lexeme stays the longest one with blanks somewhere after it. -/
theorem Begins.spaced {piece rest after white : List Char} {token : Token}
    (allBlank : AllBlank white) (begins : Begins piece (rest ++ after) token) :
    Begins piece (rest ++ (white ++ after)) token := by
  have noDigit : forall character, isBlank character = true -> character.isDigit = false :=
    fun _ blank => (isBlank_kind blank).1
  have noStar : forall character, isBlank character = true -> (character == '*') = false := by
    intro character blank
    apply Bool.eq_false_iff.mpr
    intro star
    rw [beq_iff_eq.mp star] at blank
    exact absurd blank (by decide)
  cases begins with
  | whole nonempty inside halts finite =>
      refine .whole nonempty inside (halts.spaced ?_ allBlank) finite
      intro character blank
      simp [isBlank_kind blank]
  | decimal nonempty inside halts finite =>
      exact .decimal nonempty inside (halts.spaced noDigit allBlank) finite
  | name nonempty inside halts =>
      exact .name nonempty inside (halts.spaced (fun _ blank => (isBlank_kind blank).2.1) allBlank)
  | symbol found single =>
      exact .symbol found fun isStar => (single isStar).spaced noStar allBlank
  | power => exact .power

/-! ## The lexemes of the spaced text -/

namespace Splits

variable {position : Nat} {characters first second white : List Char} {found : List Lexeme}

/-- Later in a text the same characters are the same lexemes. -/
theorem relocate (splits : Splits position characters found) (offset : Nat) :
    Splits (offset + position) characters (found.map (Lexeme.relocate (offset + ·))) := by
  apply splits_of_scan_eq _ _ _ _ (Nat.le_refl _)
  rw [scan_relocate, splits.scan_eq]
  rfl

/-- Blanks in front of the characters move all their lexemes. -/
theorem spaced_front (allBlank : AllBlank white) (splits : Splits position characters found) :
    Splits position (white ++ characters)
      (found.map (Lexeme.relocate (pushed position (byteCount white)))) := by
  have same : found.map (Lexeme.relocate (pushed position (byteCount white))) =
      found.map (Lexeme.relocate (byteCount white + ·)) := by
    refine List.map_congr_left fun lexeme member => ?_
    have later := splits.le_position member
    rw [Lexeme.relocate, pushed, if_neg (by omega), Lexeme.relocate]
  rw [same]
  apply Splits.blanks allBlank
  rw [Nat.add_comm]
  exact splits.relocate (byteCount white)

/-- A piece that ends before a seam leaves a gap up to it. -/
theorem exists_gap {piece rest : List Char} (seam : piece ++ rest = first ++ second)
    (ends : byteCount piece ≤ byteCount first) :
    Exists fun gap : List Char => first = piece ++ gap ∧ rest = gap ++ second := by
  rcases List.append_eq_append_iff.mp seam with ⟨gap, before, after⟩ | ⟨gap, cut, after⟩
  · exact ⟨gap, before, after⟩
  · have noGap : gap = [] := by
      apply Classical.byContradiction
      intro nonempty
      have positive := byteCount_pos nonempty
      have size := congrArg byteCount cut
      rw [byteCount_append] at size
      omega
    subst noGap
    exact ⟨[], by rw [cut, List.append_nil, List.append_nil], after.symm⟩

/-- Blanks at a seam that cuts no lexeme move the lexemes after the seam.  The
induction is on the lexemes before the seam. -/
theorem spaced (allBlank : AllBlank white) (splits : Splits position characters found)
    (seam : characters = first ++ second)
    (apart : forall (before piece rest : List Char) (token : Token),
      characters = before ++ (piece ++ rest) -> ⟨token, position + byteCount before⟩ ∈ found ->
        Begins piece rest token -> byteCount before < byteCount first ->
        byteCount before + byteCount piece ≤ byteCount first) :
    Splits position (first ++ (white ++ second))
      (found.map (Lexeme.relocate (pushed (position + byteCount first) (byteCount white)))) := by
  induction splits generalizing first with
  | nothing position =>
      rcases List.append_eq_nil_iff.mp seam.symm with ⟨rfl, rfl⟩
      exact spaced_front allBlank (.nothing position)
  | @blank position character rest lexemes blank splits ih =>
      rcases first with _ | ⟨head, first⟩
      · rw [List.nil_append] at seam
        subst seam
        exact spaced_front allBlank (.blank blank splits)
      · rcases List.cons.inj seam with ⟨rfl, same⟩
        have later := ih same fun before piece more token cut member begins inside => by
          have whole := apart (character :: before) piece more token (by rw [cut]; rfl)
            (by rw [byteCount_cons, ← Nat.add_assoc]; exact member) begins
          simp only [byteCount_cons] at whole
          omega
        rw [Nat.add_assoc, ← byteCount_cons] at later
        exact .blank blank later
  | @lexeme position piece rest token lexemes begins splits ih =>
      rcases first with _ | ⟨head, first⟩
      · rw [List.nil_append] at seam
        subst seam
        exact spaced_front allBlank (.lexeme begins splits)
      · have nonempty := byteCount_pos (List.cons_ne_nil head first)
        have ends : 0 + byteCount piece ≤ byteCount (head :: first) :=
          apart [] piece rest token rfl (List.mem_cons_self ..) begins nonempty
        rw [Nat.zero_add] at ends
        rcases exists_gap seam ends with ⟨gap, before, rfl⟩
        have later := ih rfl fun front other more kind cut member begun inside => by
          have whole := apart (piece ++ front) other more kind
            (by rw [cut, List.append_assoc]) (List.mem_cons_of_mem _ (by
              rw [byteCount_append, ← Nat.add_assoc]; exact member)) begun
          rw [before, byteCount_append, byteCount_append] at whole
          omega
        have stays : pushed (position + byteCount (head :: first)) (byteCount white) position =
            position := if_pos (by omega)
        rw [List.map_cons, Lexeme.relocate, stays, before, List.append_assoc]
        rw [Nat.add_assoc, ← byteCount_append] at later
        exact .lexeme (begins.spaced allBlank) later

end Splits

section Texts

variable {first second white : String} {found : List Lexeme}

/-- Blanks where no lexeme is cut move the lexemes after them. -/
theorem tokenize_spaced (allBlank : AllBlank white.toList)
    (split : tokenize (normalize (first ++ second)) = .ok found)
    (apart : forall lexeme, lexeme ∈ found ->
      ¬ lexeme.Straddles (normalize (first ++ second)).toList (normalize first).utf8ByteSize) :
    tokenize (normalize (first ++ white ++ second)) =
      .ok (found.map
        (Lexeme.relocate (pushed (normalize first).utf8ByteSize white.utf8ByteSize))) := by
  have splits := (tokenize_eq_ok_iff _ _).mp split
  have whites : normalizeChars white.toList = white.toList :=
    normalizeChars_white fun character member => isWhiteSpace_of_isBlank (allBlank character member)
  rw [tokenize_eq_ok_iff]
  simp only [normalize, String.toList_ofList, String.toList_append, normalizeChars_append, whites,
    ← byteCount_toList, List.append_assoc] at splits apart ⊢
  rw [← Nat.zero_add (byteCount (normalizeChars first.toList))]
  apply splits.spaced allBlank rfl
  intro before piece rest token cut member begins inside
  apply Nat.le_of_not_lt
  intro beyond
  rw [Nat.zero_add] at member
  exact apart _ member
    ⟨before, piece, rest, cut, rfl, begins_iff_isMunch.mp begins, inside, beyond⟩

/-- Blanks in front of a text move everything by their bytes. -/
theorem tokenize_leading_blanks (allBlank : AllBlank white.toList) (text : String) :
    tokenize (normalize (white ++ text)) =
      Outcome.rename (LexicalError.relocate (white.utf8ByteSize + ·))
        (List.map (Lexeme.relocate (white.utf8ByteSize + ·))) (tokenize (normalize text)) := by
  have whites : normalizeChars white.toList = white.toList :=
    normalizeChars_white fun character member => isWhiteSpace_of_isBlank (allBlank character member)
  rw [tokenize, tokenize, ← scan_relocate, normalize, normalize, String.toList_ofList,
    String.toList_ofList, String.toList_append, normalizeChars_append, whites,
    scan_blanks allBlank, byteCount_toList, Nat.zero_add, Nat.add_zero]

end Texts

namespace Calculator

/-- Blanks between lexemes do not matter.  Put in at a seam that cuts no lexeme,
they leave the tree and the value as they are, and an error as it is but for its
position, which moves by their bytes if it is not before the seam.  In front of a
text they move every position, whatever the text is. -/
theorem evaluate_spaced :
    (forall (calculator : Calculator) (first second white : String) (found : List Lexeme),
      AllBlank white.toList -> tokenize (normalize (first ++ second)) = .ok found ->
      (forall lexeme, lexeme ∈ found -> ¬ lexeme.Straddles (normalize (first ++ second)).toList
        (normalize first).utf8ByteSize) ->
      let move := pushed (normalize first).utf8ByteSize white.utf8ByteSize
      calculator.parse (first ++ white ++ second) =
          Outcome.rename (CalculationError.relocate move) id
            (calculator.parse (first ++ second)) ∧
        calculator.evaluate (first ++ white ++ second) =
          Outcome.rename (CalculationError.relocate move) id
            (calculator.evaluate (first ++ second))) ∧
    (forall (calculator : Calculator) (white text : String), AllBlank white.toList ->
      let move := fun position => white.utf8ByteSize + position
      calculator.parse (white ++ text) =
          Outcome.rename (CalculationError.relocate move) id (calculator.parse text) ∧
        calculator.evaluate (white ++ text) =
          Outcome.rename (CalculationError.relocate move) id (calculator.evaluate text)) := by
  constructor
  · intro calculator first second white found allBlank split apart
    have renamed := tokenize_spaced allBlank split apart
    have read := @parse_relocate _ calculator (first ++ second) (first ++ white ++ second)
      (by rw [renamed, split]; rfl)
    exact ⟨read, evaluate_relocate read⟩
  · intro calculator white text allBlank
    have read := @parse_relocate _ calculator _ _ (tokenize_leading_blanks allBlank text)
    exact ⟨read, evaluate_relocate read⟩

/-- The error stands after the seam and moves by two bytes, and a foreign
character moves by the blank in front of it. -/
theorem evaluate_spaced_modulo :
    (⟨3⟩ : Calculator).evaluate ("7" ++ "%2 3") =
        .error (.syntactic (.trailingTokens (.number 3) 4)) ∧
      (⟨3⟩ : Calculator).evaluate ("7" ++ "\t " ++ "%2 3") =
        .error (.syntactic (.trailingTokens (.number 3) 6)) ∧
      (⟨3⟩ : Calculator).evaluate (" " ++ "§") =
        .error (.lexical (.unexpectedCharacter '§' 1)) := by
  have failed : (⟨3⟩ : Calculator).evaluate ("7" ++ "%2 3") =
      .error (.syntactic (.trailingTokens (.number 3) 4)) := rfl
  have foreign : (⟨3⟩ : Calculator).evaluate "§" =
      .error (.lexical (.unexpectedCharacter '§' 0)) := rfl
  have split : tokenize (normalize ("7" ++ "%2 3")) = .ok [⟨.number 7, 0⟩,
      ⟨.operator .modulo, 1⟩, ⟨.number 2, 2⟩, ⟨.number 3, 4⟩, ⟨.endOfInput, 5⟩] := rfl
  have apart : forall lexeme, lexeme ∈ [Lexeme.mk (.number 7) 0, ⟨.operator .modulo, 1⟩,
      ⟨.number 2, 2⟩, ⟨.number 3, 4⟩, ⟨.endOfInput, 5⟩] ->
        ¬ lexeme.Straddles (normalize ("7" ++ "%2 3")).toList (normalize "7").utf8ByteSize := by
    rintro lexeme member ⟨before, piece, rest, cut, place, munch, inside, beyond⟩
    change lexeme.position < 1 at inside
    change 1 < lexeme.position + byteCount piece at beyond
    have first : lexeme = ⟨.number 7, 0⟩ := by
      simp only [List.mem_cons, List.not_mem_nil, or_false] at member
      rcases member with rfl | rfl | rfl | rfl | rfl
      · rfl
      all_goals exact absurd inside (by decide)
    subst first
    have nothing : before = [] := by
      apply Classical.byContradiction
      intro nonempty
      have positive := byteCount_pos nonempty
      omega
    subst nothing
    have recognized := munch.begins.ofChars
    rw [List.nil_append] at cut
    rw [← cut] at recognized
    have size : 0 = piece.length - 1 := (Recognition.lexeme.inj recognized).2
    match piece with
    | [] => exact absurd beyond (by decide)
    | [digit] =>
        rcases List.cons.inj cut with ⟨rfl, _⟩
        exact absurd beyond (by decide)
    | _ :: _ :: _ => simp at size
  have blanks : AllBlank "\t ".toList :=
    List.forall_mem_cons.mpr ⟨rfl, List.forall_mem_singleton.mpr rfl⟩
  have spaced := (evaluate_spaced.1 ⟨3⟩ "7" "%2 3" "\t " _ blanks split apart).2
  have shifted := (evaluate_spaced.2 ⟨3⟩ " " "§" (List.forall_mem_singleton.mpr rfl)).2
  rw [failed] at spaced
  rw [foreign] at shifted
  exact ⟨failed, spaced, shifted⟩

end Calculator

end DeskCalculator

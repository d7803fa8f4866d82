import DeskCalculator.Proofs.Evaluation
import DeskCalculator.Proofs.Parsing

namespace DeskCalculator

/-!
# What a text can reach

A text that has a value consists of the characters of expressions alone, every
word in it is called as a function of the table, and every call in its tree
has as many arguments as the function takes.

The words of the text are followed through the stages.  A run of letters is a
lexeme of its own, because nothing but a name has letters in it.  A name in a
derivation opens its arguments and becomes the root of a call in the tree.  A
call in the tree is looked up on every evaluation that succeeds.
-/

/-- The characters of expressions, glyphs included. -/
def isExpressionChar (character : Char) : Bool :=
  character.isDigit || character == '.' || character.isAlpha ||
    ['+', '-', '*', '/', '%', '^', '(', ')', ',', '×', '÷'].contains character ||
    isBlank character

/-- The letters are a longest run of letters between two parts of a text. -/
structure IsWord (before letters after : List Char) : Prop where
  nonempty : letters ≠ []
  inside : forall letter, letter ∈ letters -> letter.isAlpha = true
  starts : forall last, last ∈ before.getLast? -> last.isAlpha = false
  halts : HaltsAt Char.isAlpha after

/-- A word stays one when a part of the text before it is left out. -/
theorem IsWord.drop {earlier before letters after : List Char}
    (word : IsWord (earlier ++ before) letters after) : IsWord before letters after where
  nonempty := word.nonempty
  inside := word.inside
  starts := by
    intro last found
    apply word.starts last
    rw [List.getLast?_append, Option.mem_def.mp found]
    rfl
  halts := word.halts

theorem isExpressionChar_of_plain {character : Char} (plain : isPlainChar character = true) :
    isExpressionChar character = true := by
  unfold isPlainChar at plain
  unfold isExpressionChar
  by_cases symbol : character ∈ symbolChars
  · have listed : symbolChars.all (fun other =>
        ['+', '-', '*', '/', '%', '^', '(', ')', ',', '×', '÷'].contains other) = true := by decide
    simp only [List.all_eq_true.mp listed character symbol, Bool.or_true, Bool.true_or]
  · have other : symbolChars.contains character = false := by simpa using symbol
    rw [other, Bool.or_false] at plain
    rcases Bool.or_eq_true_iff.mp plain with visible | blank
    · rw [visible, Bool.true_or, Bool.true_or]
    · rw [blank, Bool.or_true]

/-! ## Words are names -/

/-- A piece with a letter in it is a name. -/
theorem Begins.name_of_letter {piece rest : List Char} {token : Token}
    (begins : Begins piece rest token) {letter : Char} (member : letter ∈ piece)
    (isLetter : letter.isAlpha = true) :
    (forall other, other ∈ piece -> other.isAlpha = true) ∧ HaltsAt Char.isAlpha rest ∧
      token = .identifier (String.ofList piece) := by
  have notDigit : letter.isDigit = true -> False := by
    simp [isDigit_eq_false_of_isAlpha isLetter]
  cases begins with
  | whole _ inside _ _ => exact (notDigit (inside letter member)).elim
  | decimal _ inside _ _ =>
      rcases List.mem_append.mp member with inDigits | inRest
      · exact (notDigit (inside letter (List.mem_append_left _ inDigits))).elim
      · rcases List.mem_cons.mp inRest with rfl | inFraction
        · exact absurd isLetter (by decide)
        · exact (notDigit (inside letter (List.mem_append_right _ inFraction))).elim
  | name _ inside halts => exact ⟨inside, halts, rfl⟩
  | symbol found _ =>
      cases List.mem_singleton.mp member
      simp [symbolChars_kind (mem_symbolChars found)] at isLetter
  | power =>
      have star : letter = '*' := by simpa using member
      subst star
      exact absurd isLetter (by decide)

/-- Two longest runs of a kind at the start of the same characters are the same. -/
theorem run_unique {kind : Char -> Bool} {first second rest more : List Char}
    (insideFirst : forall character, character ∈ first -> kind character = true)
    (haltsFirst : HaltsAt kind rest)
    (insideSecond : forall character, character ∈ second -> kind character = true)
    (haltsSecond : HaltsAt kind more) (same : first ++ rest = second ++ more) :
    first = second ∧ rest = more := by
  have left := takeWhile_of_haltsAt insideFirst haltsFirst
  have right := takeWhile_of_haltsAt insideSecond haltsSecond
  rw [same] at left
  exact ⟨left.1.symm.trans right.1, left.2.symm.trans right.2⟩

/-- A piece that reaches into a word is the word. -/
theorem Begins.word_of_overlap {piece rest before letters after inner : List Char} {token : Token}
    {letter : Char} (begins : Begins piece rest token)
    (split : piece ++ rest = before ++ (letters ++ after)) (word : IsWord before letters after)
    (reaches : piece = before ++ letter :: inner) (isLetter : letter.isAlpha = true) :
    before = [] ∧ rest = after ∧ token = .identifier (String.ofList letters) := by
  have member : letter ∈ piece := reaches ▸ List.mem_append_right _ (List.mem_cons_self ..)
  rcases begins.name_of_letter member isLetter with ⟨named, halts, rfl⟩
  have atStart : before = [] := by
    cases found : before.getLast? with
    | none => exact List.getLast?_eq_none_iff.mp found
    | some last =>
        have inPiece : last ∈ piece :=
          reaches ▸ List.mem_append_left _ (List.mem_of_getLast? found)
        exact absurd (named last inPiece) (by simp [word.starts last found])
  subst atStart
  rcases run_unique named halts word.inside word.halts split with ⟨rfl, rfl⟩
  exact ⟨rfl, rfl, rfl⟩

/-- A word is a lexeme of its own, and what follows it splits by itself. -/
theorem Splits.word {position : Nat} {characters : List Char} {lexemes : List Lexeme}
    (splits : Splits position characters lexemes) {before letters after : List Char}
    (split : characters = before ++ (letters ++ after)) (word : IsWord before letters after) :
    Exists fun front : List Lexeme => Exists fun place : Nat => Exists fun next : Nat =>
      Exists fun back : List Lexeme =>
        lexemes = front ++ ⟨.identifier (String.ofList letters), place⟩ :: back ∧
          Splits next after back := by
  rcases List.exists_cons_of_ne_nil word.nonempty with ⟨letter, others, shape⟩
  have isLetter : letter.isAlpha = true := word.inside letter (shape ▸ List.mem_cons_self ..)
  induction splits generalizing before with
  | nothing _ => simp [shape] at split
  | @blank position character rest lexemes blank _ ih =>
      cases before with
      | nil =>
          rw [shape] at split
          cases (List.cons.inj split).1
          simp [isBlank_kind blank] at isLetter
      | cons first remaining =>
          exact ih (List.cons.inj split).2 (@IsWord.drop [first] remaining letters after word)
  | @lexeme position piece rest token lexemes begins splitsRest ih =>
      have passedOver : forall inner : List Char, before = piece ++ inner ->
          rest = inner ++ (letters ++ after) -> Exists fun front : List Lexeme =>
            Exists fun place : Nat => Exists fun next : Nat => Exists fun back : List Lexeme =>
              ⟨token, position⟩ :: lexemes =
                front ++ ⟨.identifier (String.ofList letters), place⟩ :: back ∧
                Splits next after back := by
        rintro inner rfl restSplit
        rcases ih restSplit word.drop with ⟨front, place, next, back, rfl, splitsAfter⟩
        exact ⟨⟨token, position⟩ :: front, place, next, back, rfl, splitsAfter⟩
      rcases List.append_eq_append_iff.mp split with
        ⟨inner, earlier, restSplit⟩ | ⟨inner, overlap, innerSplit⟩
      · exact passedOver inner earlier restSplit
      · cases inner with
        | nil =>
            rw [List.append_nil] at overlap
            exact passedOver [] (by rw [overlap, List.append_nil]) innerSplit.symm
        | cons first more =>
            rw [shape] at innerSplit
            rcases List.cons.inj innerSplit with ⟨rfl, -⟩
            rcases begins.word_of_overlap split word overlap isLetter with ⟨-, rfl, rfl⟩
            exact ⟨[], position, _, lexemes, rfl, splitsRest⟩

theorem Begins.openParen_iff {piece rest : List Char} :
    Begins piece rest .openParen ↔ piece = ['('] := by
  constructor
  · intro begins
    cases begins with
    | symbol found _ =>
        rcases symbol?_cases found with ⟨_, other⟩ | ⟨rfl, _⟩ | ⟨_, other⟩ | ⟨_, other⟩
        · cases other
        · rfl
        · cases other
        · cases other
  · rintro rfl
    exact .symbol rfl (fun star => absurd star (by decide))

/-- An opening parenthesis that comes next has only blanks before it. -/
theorem Splits.openParen {position opened : Nat} {characters : List Char}
    {lexemes later : List Lexeme} (splits : Splits position characters lexemes)
    (next : lexemes = ⟨.openParen, opened⟩ :: later) :
    Exists fun blanks : List Char => Exists fun rest : List Char =>
      characters = blanks ++ '(' :: rest ∧
        forall blank, blank ∈ blanks -> isBlank blank = true := by
  induction splits with
  | nothing _ => simp at next
  | @blank _ character _ _ blank _ ih =>
      rcases ih next with ⟨blanks, rest, rfl, allBlank⟩
      refine ⟨character :: blanks, rest, rfl, ?_⟩
      intro other member
      rcases List.mem_cons.mp member with rfl | later
      · exact blank
      · exact allBlank other later
  | @lexeme _ _ rest _ _ begins _ _ =>
      have token := congrArg Lexeme.token (List.cons.inj next).1
      subst token
      exact ⟨[], rest, by rw [Begins.openParen_iff.mp begins]; rfl, nofun⟩

/-! ## Names are calls -/

/-- Every name among the lexemes opens its arguments, and a property holds of
it. -/
inductive CallsOnly (called : String -> Prop) : List Lexeme -> Prop
  | nil : CallsOnly called []
  | name {name : String} {place opened : Nat} {rest : List Lexeme} :
      called name -> CallsOnly called rest ->
      CallsOnly called (⟨.identifier name, place⟩ :: ⟨.openParen, opened⟩ :: rest)
  | other {lexeme : Lexeme} {rest : List Lexeme} :
      (forall name, lexeme.token ≠ .identifier name) -> CallsOnly called rest ->
      CallsOnly called (lexeme :: rest)

namespace CallsOnly

variable {called wider : String -> Prop} {first second : List Lexeme}

theorem append (calls : CallsOnly called first) (more : CallsOnly called second) :
    CallsOnly called (first ++ second) := by
  induction calls with
  | nil => exact more
  | name holds _ ih => exact .name holds ih
  | other unnamed _ ih => exact .other unnamed ih

theorem mono (calls : CallsOnly called first) (implies : forall name, called name -> wider name) :
    CallsOnly wider first := by
  induction calls with
  | nil => exact .nil
  | name holds _ ih => exact .name (implies _ holds) ih
  | other unnamed _ ih => exact .other unnamed ih

theorem of_split (calls : CallsOnly called first) {front back : List Lexeme} {name : String}
    {place : Nat} (split : first = front ++ ⟨.identifier name, place⟩ :: back) :
    called name ∧ Exists fun opened : Nat => Exists fun rest : List Lexeme =>
      back = ⟨.openParen, opened⟩ :: rest := by
  induction calls generalizing front with
  | nil => simp at split
  | @name other _ opened rest holds _ ih =>
      cases front with
      | nil =>
          rcases List.cons.inj split with ⟨same, rfl⟩
          cases same
          exact ⟨holds, opened, rest, rfl⟩
      | cons lexeme front =>
          rcases List.cons.inj split with ⟨rfl, later⟩
          cases front with
          | nil => simp at later
          | cons lexeme front => exact ih (List.cons.inj later).2
  | other unnamed _ ih =>
      cases front with
      | nil => exact absurd (congrArg Lexeme.token (List.cons.inj split).1) (unnamed name)
      | cons lexeme front => exact ih (List.cons.inj split).2

end CallsOnly

/-- Some call of the name is among the trees. -/
def CalledIn (trees : List Expr) (name : String) : Prop :=
  Exists fun arguments : List Expr => .call name arguments ∈ trees

theorem CallsOnly.widen {few many : List Expr} {lexemes : List Lexeme}
    (calls : CallsOnly (CalledIn few) lexemes)
    (subset : forall tree, tree ∈ few -> tree ∈ many) : CallsOnly (CalledIn many) lexemes := by
  apply calls.mono
  intro name called
  rcases called with ⟨arguments, member⟩
  exact ⟨arguments, subset _ member⟩

mutual

/-- The names of a derivation are the calls of its tree. -/
theorem Derives.callsOnly {category : Category} {lexemes : List Lexeme} {tree : Expr}
    {descents : Nat} :
    Derives category lexemes tree descents -> CallsOnly (CalledIn tree.subtrees) lexemes
  | .number _ _ => .other nofun .nil
  | .emptyCall _ _ _ _ => .name ⟨[], List.mem_cons_self ..⟩ (.other nofun .nil)
  | .call _ _ _ _ inside => by
      refine .name ⟨_, List.mem_cons_self ..⟩ (.append ?_ (.other nofun .nil))
      exact inside.callsOnly.widen fun _ member => List.mem_cons_of_mem _ member
  | .group _ _ inside => .other nofun (inside.callsOnly.append (.other nofun .nil))
  | .signed _ _ operand =>
      .other nofun (operand.callsOnly.widen fun _ member => List.mem_cons_of_mem _ member)
  | .binary _ _ left right => by
      refine .append (left.callsOnly.widen ?_) (.other nofun (right.callsOnly.widen ?_))
      · intro part member
        exact List.mem_cons_of_mem _ (List.mem_append_left _ member)
      · intro part member
        exact List.mem_cons_of_mem _ (List.mem_append_right _ member)
  | .tighter _ narrow => narrow.callsOnly

theorem DerivesArguments.callsOnly {lexemes : List Lexeme} {arguments : List Expr}
    {descents : Nat} :
    DerivesArguments lexemes arguments descents ->
      CallsOnly (CalledIn (Expr.allSubtrees arguments)) lexemes
  | .first argument => by
      rw [Expr.allSubtrees_singleton]
      exact argument.callsOnly
  | .next _ before after => by
      rw [Expr.allSubtrees_append, Expr.allSubtrees_singleton]
      refine .append (before.callsOnly.widen ?_) (.other nofun (after.callsOnly.widen ?_))
      · exact fun _ member => List.mem_append_left _ member
      · exact fun _ member => List.mem_append_right _ member

end

/-! ## Through the glyphs -/

theorem isAlpha_eq_false_of_mem_glyphSpelling {character spelled : Char}
    (other : character.isAlpha = false) (member : spelled ∈ glyphSpelling character) :
    spelled.isAlpha = false := by
  rcases glyphSpelling_cases character with ⟨_, spelledBy⟩ | same
  · have kinds : ['*', '/'].all (fun other => !other.isAlpha) = true := by decide
    simpa using List.all_eq_true.mp kinds spelled (spelledBy spelled member)
  · rw [same] at member
    exact List.mem_singleton.mp member ▸ other

/-- A word of a text is one of the respelled text as well. -/
theorem IsWord.normalize {before letters after : List Char} (word : IsWord before letters after) :
    IsWord (normalizeChars before) letters (normalizeChars after) where
  nonempty := word.nonempty
  inside := word.inside
  starts := by
    intro last found
    rcases mem_glyphSpelling_of_getLast? found with ⟨final, ending, spelled⟩
    exact isAlpha_eq_false_of_mem_glyphSpelling (word.starts final ending) spelled
  halts := by
    intro next found
    rcases mem_glyphSpelling_of_head? found with ⟨first, opening, spelled⟩
    exact isAlpha_eq_false_of_mem_glyphSpelling (word.halts first opening) spelled

theorem isExpressionChar_of_normalizeChars {characters : List Char}
    (respelled : forall character, character ∈ normalizeChars characters ->
      isExpressionChar character = true) :
    forall character, character ∈ characters -> isExpressionChar character = true := by
  intro character member
  by_cases glyph : character ∈ glyphs
  · have accepted : glyphs.all isExpressionChar = true := by decide
    exact List.all_eq_true.mp accepted character glyph
  · apply respelled
    refine List.mem_flatMap.mpr ⟨character, member, ?_⟩
    rw [glyphSpelling_of_not_mem glyph]
    exact List.mem_cons_self ..

theorem openParen_of_normalizeChars {characters blanks rest : List Char}
    (respelled : normalizeChars characters = blanks ++ '(' :: rest)
    (allBlank : forall blank, blank ∈ blanks -> isBlank blank = true) :
    Exists fun more : List Char => characters = blanks ++ '(' :: more := by
  induction blanks generalizing characters with
  | nil =>
      rcases normalizeChars_eq_cons (by decide) respelled with ⟨more, rfl, _⟩
      exact ⟨more, rfl⟩
  | cons blank blanks ih =>
      have unspelled : blank ∉ ['*', '/'] := by
        have kinds : ['*', '/'].all (fun other => !isBlank other) = true := by decide
        intro member
        have visible := List.all_eq_true.mp kinds blank member
        simp [allBlank blank (List.mem_cons_self ..)] at visible
      rcases normalizeChars_eq_cons unspelled respelled with ⟨later, rfl, respelledLater⟩
      rcases ih respelledLater (fun other member => allBlank other (List.mem_cons_of_mem _ member))
        with ⟨more, rfl⟩
      exact ⟨more, rfl⟩

/-! ## The sandbox -/

theorem Function.mem_names {name : String} {function : Function}
    (found : Function.find? name = some function) : name ∈ Function.table.map Function.name := by
  have same : function.name = name := by
    have holds := List.find?_some found
    simpa using holds
  exact same ▸ List.mem_map_of_mem (List.mem_of_find?_eq_some found)

namespace Calculator

variable {calculator : Calculator} {text : String} {tree : Expr}

theorem isExpressionChar_of_parse (parsed : calculator.parse text = .ok tree) :
    forall character, character ∈ text.toList -> isExpressionChar character = true := by
  rcases parse_eq_ok_iff.mp parsed with ⟨lexemes, splits, _⟩
  exact isExpressionChar_of_normalizeChars fun _ member =>
    isExpressionChar_of_plain (splits.isPlainChar member)

/-- A word of a text that has a tree is called in the tree, and its argument
list opens right after it. -/
theorem word_of_parse (parsed : calculator.parse text = .ok tree)
    {before letters after : List Char} (split : text.toList = before ++ (letters ++ after))
    (word : IsWord before letters after) :
    CalledIn tree.subtrees (String.ofList letters) ∧
      Exists fun blanks : List Char => Exists fun rest : List Char =>
        after = blanks ++ '(' :: rest ∧
          forall blank, blank ∈ blanks -> isBlank blank = true := by
  rcases parse_derives parsed with ⟨stretch, final, descents, splits, _, derived, _, _⟩
  have same : normalizeChars letters = letters :=
    normalizeChars_of_plain fun letter member =>
      isPlainChar_not_mem_glyphs (by simp [isPlainChar, word.inside letter member])
  have respelled : normalizeChars text.toList =
      normalizeChars before ++ (letters ++ normalizeChars after) := by
    rw [split, normalizeChars_append, normalizeChars_append, same]
  rcases splits.word respelled word.normalize with
    ⟨front, place, next, back, placed, splitsAfter⟩
  have calls : CallsOnly (CalledIn tree.subtrees) (stretch ++ [⟨.endOfInput, final⟩]) :=
    derived.callsOnly.append (.other (by simp) .nil)
  rcases calls.of_split placed with ⟨called, opened, later, rfl⟩
  rcases splitsAfter.openParen rfl with ⟨blanks, rest, shape, allBlank⟩
  rcases openParen_of_normalizeChars shape allBlank with ⟨more, rfl⟩
  exact ⟨called, blanks, more, rfl, allBlank⟩

/-- A text with a value reaches nothing but the table: no character is foreign,
every word is a listed name in front of its arguments, and every call in the
tree has an admitted number of them. -/
theorem evaluate_confined (calculator : Calculator) (text : String) (value : Float)
    (evaluated : calculator.evaluate text = .ok value) :
    (forall character, character ∈ text.toList -> isExpressionChar character = true) ∧
    (forall before letters after : List Char,
      text.toList = before ++ (letters ++ after) -> IsWord before letters after ->
        String.ofList letters ∈ Function.table.map Function.name ∧
          Exists fun blanks : List Char => Exists fun rest : List Char =>
            after = blanks ++ '(' :: rest ∧
              forall blank, blank ∈ blanks -> isBlank blank = true) ∧
    Exists fun tree : Expr => calculator.parse text = .ok tree ∧
      forall (name : String) (arguments : List Expr), .call name arguments ∈ tree.subtrees ->
        Exists fun function : Function => Function.find? name = some function ∧
          function.arity.admits arguments.length = true := by
  rcases evaluate_eq_ok_iff.mp evaluated with ⟨tree, parsed, evaluatedTree⟩
  have valued := Expr.outcome_of_evaluate evaluatedTree
  refine ⟨isExpressionChar_of_parse parsed, ?_, tree, parsed, ?_⟩
  · intro before letters after split word
    rcases word_of_parse parsed split word with ⟨⟨arguments, member⟩, opens⟩
    rcases Expr.calls_of_outcome valued member with ⟨function, found, _⟩
    exact ⟨Function.mem_names found, opens⟩
  · intro name arguments member
    exact Expr.calls_of_outcome valued member

theorem evaluate_confined_absolute :
    (⟨4⟩ : Calculator).evaluate "2×abs (-1)" = .ok 2 ∧
      String.ofList ['a', 'b', 's'] ∈ Function.table.map Function.name := by
  have evaluated : (⟨4⟩ : Calculator).evaluate "2×abs (-1)" = .ok 2 := rfl
  have words := (evaluate_confined ⟨4⟩ "2×abs (-1)" 2 evaluated).2.1
  refine ⟨evaluated, (words ['2', '×'] ['a', 'b', 's'] [' ', '(', '-', '1', ')'] rfl ?_).1⟩
  exact ⟨by decide, List.all_eq_true.mp (by decide), fun _ found => by cases found; decide,
    fun _ found => by cases found; decide⟩

end Calculator

end DeskCalculator

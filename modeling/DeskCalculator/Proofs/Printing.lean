import DeskCalculator.Expr.Text
import DeskCalculator.Proofs.Parsing
import DeskCalculator.Proofs.Rereading

namespace DeskCalculator

/-!
# Printing is faithful

The text of a tree is read as the tree, apart from the signs of literals.  The
parentheses of the text are descents of their own.  Each node adds at most two
of them, one for the parentheses and one for its sign or its power, so twice
the height of the tree is enough for the limit.

What is printed for a tree is followed by something that ends a number, never
by a digit or a point.  Therefore the lexemes of the parts are the lexemes of
the whole.
-/

/-- The characters do not go on with a number. -/
def EndsNumber (rest : List Char) : Prop :=
  HaltsAt (fun next => next.isDigit || next == '.') rest

/-- Whatever ends a number may follow the characters; they split into lexemes
that are derived, and the derivation nests at most so many descents. -/
def Prints (derived : List Lexeme -> Nat -> Prop) (characters : List Char) (most : Nat) : Prop :=
  forall (position : Nat) (rest : List Char), EndsNumber rest ->
    Exists fun stretch : List Lexeme => Exists fun next : Nat => Exists fun descents : Nat =>
      derived stretch descents ∧ descents ≤ most ∧
        forall later : List Lexeme, Splits next rest later ->
          Splits position (characters ++ rest) (stretch ++ later)

theorem endsNumber_cons {first : Char} (rest : List Char) (notDigit : first.isDigit = false)
    (notPoint : first ≠ '.') : EndsNumber (first :: rest) := by
  apply haltsAt_cons
  simp [notDigit, notPoint]

namespace Splits

variable {position : Nat} {rest : List Char} {lexemes : List Lexeme}

theorem symbol {character : Char} {token : Token}
    (found : Recognition.symbol? character = some token) (single : character ≠ '*')
    (splits : Splits (position + byteCount [character]) rest lexemes) :
    Splits position (character :: rest) (⟨token, position⟩ :: lexemes) :=
  lexeme (Begins.symbol found fun star => absurd star single) splits

/-- An operator with a blank after it. -/
theorem operator (operator : Operator)
    (splits : Splits (position + byteCount operator.symbol.toList) (' ' :: rest) lexemes) :
    Splits position (operator.symbol.toList ++ ' ' :: rest)
      (⟨.operator operator, position⟩ :: lexemes) := by
  have single : HaltsAt (· == '*') (' ' :: rest) := haltsAt_cons rest rfl
  cases operator with
  | power => exact lexeme .power splits
  | _ => exact lexeme (.symbol rfl fun _ => single) splits

end Splits

/-- The operator that is written like the sign. -/
def Sign.operator : Sign -> Operator
  | plus => .add
  | minus => .subtract

theorem Sign.ofOperator?_operator (sign : Sign) : ofOperator? sign.operator = some sign := by
  cases sign <;> rfl

theorem Splits.sign {position : Nat} {rest : List Char} {lexemes : List Lexeme} (sign : Sign)
    (splits : Splits (position + byteCount sign.symbol.toList) rest lexemes) :
    Splits position (sign.symbol.toList ++ rest)
      (⟨.operator sign.operator, position⟩ :: lexemes) := by
  cases sign with
  | plus => exact .symbol rfl (by decide) splits
  | minus => exact .symbol rfl (by decide) splits

/-! ## Numerals -/

namespace Numeral

theorem isDigit_of_mem_digitChars {numeral : Numeral} {digit : Char}
    (member : digit ∈ numeral.digitChars) : digit.isDigit = true := by
  rw [digitChars, List.leftpad] at member
  rcases List.mem_append.mp member with padding | written
  · rw [List.eq_of_mem_replicate padding]
    decide
  · exact Nat.isDigit_of_mem_toDigits (by decide) (by decide) written

theorem wholeChars_ne_nil (numeral : Numeral) : numeral.wholeChars ≠ [] := by
  have enough : numeral.places + 1 ≤ numeral.digitChars.length := by
    simp only [digitChars, List.leftpad, List.length_append, List.length_replicate]
    omega
  intro empty
  have short := congrArg List.length empty
  rw [wholeChars, List.length_take, List.length_nil] at short
  omega

/-- A written numeral is one lexeme. -/
theorem begins_chars {numeral : Numeral} (finite : numeral.toFloat.isFinite = true)
    {rest : List Char} (ends : EndsNumber rest) :
    Begins numeral.chars rest (.number numeral.toFloat) := by
  have digits : forall digit, digit ∈ numeral.wholeChars ++ numeral.fractionChars ->
      digit.isDigit = true := by
    rw [wholeChars_append_fractionChars]
    exact fun digit member => isDigit_of_mem_digitChars member
  have reads := ofDigitChars_wholeChars_fractionChars numeral
  rw [chars]
  by_cases whole : numeral.places = 0
  · have noFraction : numeral.fractionChars = [] :=
      List.eq_nil_of_length_eq_zero (by rw [length_fractionChars, whole])
    rw [if_pos whole]
    rw [noFraction] at reads digits
    have begins := @Begins.whole numeral.wholeChars rest (wholeChars_ne_nil numeral)
      (fun digit member => digits digit (List.mem_append_left _ member)) ends
    rw [reads] at begins
    exact begins finite
  · rw [if_neg whole]
    have begins := @Begins.decimal numeral.wholeChars numeral.fractionChars rest
      (.inl (wholeChars_ne_nil numeral)) digits
      (fun next found => (Bool.or_eq_false_iff.mp (ends next found)).1)
    rw [reads] at begins
    exact begins finite

end Numeral

/-! ## The parts of a text -/

/-- The characters are read as an operand. -/
def PrintsTree (tree : Expr) : (characters : List Char) -> (most : Nat) -> Prop :=
  Prints fun stretch descents => Derives .unary stretch tree descents

/-- The characters are read as arguments with commas between them. -/
def PrintsArguments (arguments : List Expr) : (characters : List Char) -> (most : Nat) -> Prop :=
  Prints fun stretch descents => DerivesArguments stretch arguments descents

theorem Prints.mono {derived : List Lexeme -> Nat -> Prop} {characters : List Char}
    {most more : Nat} (printed : Prints derived characters most) (le : most ≤ more) :
    Prints derived characters more := by
  intro position rest ends
  rcases printed position rest ends with ⟨stretch, next, descents, derivation, room, splits⟩
  exact ⟨stretch, next, descents, derivation, Nat.le_trans room le, splits⟩

/-- A numeral with a minus sign or without a sign is read as its nearest float,
with or without this sign. -/
theorem prints_numeral {numeral : Numeral} (finite : numeral.toFloat.isFinite = true)
    (negative : Bool) :
    PrintsTree
      (if negative then .signed .minus (.literal numeral.toFloat) else .literal numeral.toFloat)
      (withSign negative numeral.text).toList 1 := by
  intro position rest ends
  have begins := Numeral.begins_chars finite ends
  cases negative with
  | true =>
      have text : (withSign true numeral.text).toList = '-' :: numeral.chars := by
        simp only [withSign, if_true, String.toList_append, Numeral.text, String.toList_ofList]
        rfl
      rw [text]
      refine ⟨[⟨.operator .subtract, position⟩,
          ⟨.number numeral.toFloat, position + byteCount ['-']⟩],
        position + byteCount ['-'] + byteCount numeral.chars, 1, ?_, Nat.le_refl 1,
        fun later splits => ?_⟩
      · exact .signed position rfl ((Derives.number _ _).loosen (by decide))
      · exact .symbol rfl (by decide) (.lexeme begins splits)
  | false =>
      have text : (withSign false numeral.text).toList = numeral.chars := by
        simp only [withSign, Bool.false_eq_true, if_false, Numeral.text, String.toList_ofList]
      rw [text]
      refine ⟨[⟨.number numeral.toFloat, position⟩], position + byteCount numeral.chars, 0, ?_,
        Nat.zero_le 1, fun later splits => ?_⟩
      · exact (Derives.number _ _).loosen (by decide)
      · exact .lexeme begins splits

theorem prints_literal {value : Float} (finite : value.isFinite = true) :
    PrintsTree (Expr.literal value).reread (plainText value).toList 1 := by
  rcases Expr.reread_literal finite with ⟨magnitude, canonical, absolute, cases⟩
  have reads : (Numeral.shortest magnitude).toFloat = value.abs :=
    (Numeral.toFloat_shortest canonical).trans absolute
  have finiteAbs : (Numeral.shortest magnitude).toFloat.isFinite = true := by
    rw [Numeral.toFloat_shortest canonical]
    exact Exact.isFinite_iff.mpr ⟨false, magnitude, Exact.ofFloat_toFloat canonical false⟩
  have printed := prints_numeral finiteAbs
  rw [reads] at printed
  rcases cases with ⟨read, _, rereads⟩ | ⟨read, same, rereads⟩
  · rw [rereads, plainText, read]
    exact printed true
  · rw [same] at printed
    rw [rereads, plainText, read]
    exact printed false

theorem prints_signed {tree : Expr} {characters : List Char} {most : Nat} (sign : Sign)
    (printed : PrintsTree tree characters most) :
    PrintsTree (.signed sign tree) ('(' :: (sign.symbol.toList ++ (characters ++ [')'])))
      (most + 2) := by
  intro position rest _
  rcases printed (position + byteCount ['('] + byteCount sign.symbol.toList) (')' :: rest)
    (endsNumber_cons rest rfl (by decide)) with
    ⟨stretch, next, descents, derived, room, splits⟩
  have inside := Derives.signed (position + byteCount ['(']) sign.ofOperator?_operator derived
  refine ⟨_, next + byteCount [')'], _,
    (Derives.group position next (inside.loosen (by decide))).loosen (by decide), by omega, ?_⟩
  intro later splitsLater
  have closed := splits _ (.symbol rfl (by decide) splitsLater)
  simp only [List.cons_append, List.append_assoc, List.nil_append]
  exact .symbol rfl (by decide) (.sign sign closed)

theorem prints_binary {left right : Expr} {before after : List Char} {most more : Nat}
    (operator : Operator) (printedLeft : PrintsTree left before most)
    (printedRight : PrintsTree right after more) :
    PrintsTree (.binary operator left right)
      ('(' :: (before ++ ' ' :: (operator.symbol.toList ++ ' ' :: (after ++ [')']))))
      (max most more + 2) := by
  intro position rest _
  rcases printedLeft (position + byteCount ['('])
    (' ' :: (operator.symbol.toList ++ ' ' :: (after ++ ')' :: rest)))
    (endsNumber_cons _ rfl (by decide)) with
    ⟨front, middle, leftDescents, derivedLeft, leftRoom, splitsLeft⟩
  rcases printedRight (middle + ' '.utf8Size + byteCount operator.symbol.toList + ' '.utf8Size)
    (')' :: rest) (endsNumber_cons rest rfl (by decide)) with
    ⟨back, next, rightDescents, derivedRight, rightRoom, splitsRight⟩
  have leftFits : Category.unary.rank ≤ operator.leftCategory.rank := by
    cases operator <;> decide
  have rightFits : Category.unary.rank ≤ operator.rightCategory.rank := by
    cases operator <;> decide
  have whole : operator.category.rank ≤ Category.expression.rank := by
    cases operator <;> decide
  have few : operator.descents ≤ 1 := by
    cases operator <;> decide
  have inside := Derives.binary operator (middle + ' '.utf8Size) (derivedLeft.loosen leftFits)
    (derivedRight.loosen rightFits)
  refine ⟨_, next + byteCount [')'], _,
    (Derives.group position next (inside.loosen whole)).loosen (by decide), by omega, ?_⟩
  intro later splitsLater
  have closed := splitsRight _ (.symbol rfl (by decide) splitsLater)
  have opened := splitsLeft _ (.blank rfl (.operator operator (.blank rfl closed)))
  simp only [List.cons_append, List.append_assoc, List.nil_append]
  exact .symbol rfl (by decide) opened

theorem printsArguments_first {tree : Expr} {characters : List Char} {most : Nat}
    (printed : PrintsTree tree characters most) : PrintsArguments [tree] characters most := by
  intro position rest ends
  rcases printed position rest ends with ⟨stretch, next, descents, derived, room, splits⟩
  exact ⟨stretch, next, descents, .first (derived.loosen (by decide)), room, splits⟩

theorem printsArguments_cons {tree : Expr} {trees : List Expr} {before after : List Char}
    {most more : Nat} (printedFirst : PrintsTree tree before most)
    (printedRest : PrintsArguments trees after more) :
    PrintsArguments (tree :: trees) (before ++ ',' :: ' ' :: after) (max most more) := by
  intro position rest ends
  rcases printedFirst position (',' :: ' ' :: (after ++ rest))
    (endsNumber_cons _ rfl (by decide)) with
    ⟨front, comma, firstDescents, derivedFirst, firstRoom, splitsFirst⟩
  rcases printedRest (comma + byteCount [','] + ' '.utf8Size) rest ends with
    ⟨back, next, restDescents, derivedRest, restRoom, splitsRest⟩
  refine ⟨_, next, _, .prepend comma (derivedFirst.loosen (by decide)) derivedRest, by omega, ?_⟩
  intro later splitsLater
  have spaced := splitsFirst _ (.symbol rfl (by decide) (.blank rfl (splitsRest _ splitsLater)))
  simp only [List.cons_append, List.append_assoc]
  exact spaced

/-- A name is a lexeme of its own where an argument list opens behind it. -/
theorem Splits.callee {position : Nat} {name : String} {rest : List Char} {lexemes : List Lexeme}
    (isName : IsName name)
    (splits : Splits (position + byteCount name.toList + byteCount ['(']) rest lexemes) :
    Splits position (name.toList ++ '(' :: rest)
      (⟨.identifier name, position⟩ :: ⟨.openParen, position + byteCount name.toList⟩ ::
        lexemes) := by
  have halts : HaltsAt Char.isAlpha ('(' :: rest) := haltsAt_cons rest rfl
  have begins := Begins.name isName.1 isName.2 halts
  rw [String.ofList_toList] at begins
  exact .lexeme begins (.symbol rfl (by decide) splits)

theorem prints_emptyCall {name : String} (isName : IsName name) :
    PrintsTree (.call name []) (name.toList ++ ['(', ')']) 1 := by
  intro position rest _
  refine ⟨_, position + byteCount name.toList + byteCount ['('] + byteCount [')'], 1,
    (Derives.emptyCall name position (position + byteCount name.toList)
      (position + byteCount name.toList + byteCount ['('])).loosen (by decide), Nat.le_refl 1, ?_⟩
  intro later splitsLater
  simp only [List.cons_append, List.append_assoc, List.nil_append]
  exact .callee isName (.symbol rfl (by decide) splitsLater)

theorem prints_call {name : String} {trees : List Expr} {characters : List Char} {most : Nat}
    (isName : IsName name) (printed : PrintsArguments trees characters most) :
    PrintsTree (.call name trees) (name.toList ++ '(' :: (characters ++ [')'])) (most + 1) := by
  intro position rest _
  rcases printed (position + byteCount name.toList + byteCount ['(']) (')' :: rest)
    (endsNumber_cons rest rfl (by decide)) with
    ⟨stretch, next, descents, derived, room, splits⟩
  refine ⟨_, next + byteCount [')'], descents + 1,
    (Derives.call name position (position + byteCount name.toList) next derived).loosen
      (by decide), by omega, ?_⟩
  intro later splitsLater
  have closed := splits _ (.symbol rfl (by decide) splitsLater)
  simp only [List.cons_append, List.append_assoc, List.nil_append]
  exact .callee isName closed

/-! ## The text of a tree -/

namespace Expr

theorem toList_text_signed (sign : Sign) (operand : Expr) :
    (Expr.signed sign operand).text.toList =
      '(' :: (sign.symbol.toList ++ (operand.text.toList ++ [')'])) := by
  simp only [text, String.toList_append, List.append_assoc]
  rfl

theorem toList_text_binary (operator : Operator) (left right : Expr) :
    (Expr.binary operator left right).text.toList =
      '(' :: (left.text.toList ++
        ' ' :: (operator.symbol.toList ++ ' ' :: (right.text.toList ++ [')']))) := by
  simp only [text, String.toList_append, List.append_assoc]
  rfl

theorem toList_text_call (name : String) (arguments : List Expr) :
    (Expr.call name arguments).text.toList =
      name.toList ++ '(' :: ((argumentsText arguments).toList ++ [')']) := by
  simp only [text, String.toList_append, List.append_assoc]
  rfl

theorem toList_argumentsText_cons (first second : Expr) (rest : List Expr) :
    (argumentsText (first :: second :: rest)).toList =
      first.text.toList ++ ',' :: ' ' :: (argumentsText (second :: rest)).toList := by
  simp only [argumentsText, String.toList_append, List.append_assoc]
  rfl

mutual

theorem prints_text (tree : Expr) (writable : tree.Writable) :
    PrintsTree tree.reread tree.text.toList (2 * tree.height) := by
  match tree with
  | .literal value =>
      exact (prints_literal (writable.finite value (mem_subtrees_self _))).mono (Nat.le_succ 1)
  | .signed sign operand =>
      rw [toList_text_signed]
      exact prints_signed sign (prints_text operand writable.operand)
  | .binary operator left right =>
      rw [toList_text_binary]
      apply (prints_binary operator (prints_text left writable.left)
        (prints_text right writable.right)).mono
      rw [height]
      omega
  | .call name arguments =>
      have isName := writable.named name arguments (mem_subtrees_self _)
      rw [toList_text_call]
      by_cases noArguments : arguments = []
      · subst noArguments
        exact (prints_emptyCall isName).mono (Nat.le_succ 1)
      · have printed := prints_argumentsText arguments noArguments writable.arguments
        apply (prints_call isName printed).mono
        rw [height]
        omega

theorem prints_argumentsText (trees : List Expr) (nonempty : trees ≠ [])
    (writable : forall tree, tree ∈ trees -> tree.Writable) :
    PrintsArguments (rereadAll trees) (argumentsText trees).toList (2 * tallest trees) := by
  match trees with
  | [] => exact absurd rfl nonempty
  | [only] =>
      apply (printsArguments_first (prints_text only (writable only (List.mem_cons_self ..)))).mono
      simp only [tallest]
      omega
  | first :: second :: others =>
      have printedFirst := prints_text first (writable first (List.mem_cons_self ..))
      have printedRest := prints_argumentsText (second :: others) (List.cons_ne_nil _ _)
        fun tree member => writable tree (List.mem_cons_of_mem _ member)
      rw [toList_argumentsText_cons]
      apply (printsArguments_cons printedFirst printedRest).mono
      rw [tallest.eq_def (first :: second :: others)]
      dsimp only
      omega

end

end Expr

/-! ## The trees of texts -/

/-- What a number and a name in a text are like. -/
def Token.IsWritable : Token -> Prop
  | .number value => value.isFinite = true ∧ isSigned value = false
  | .identifier name => IsName name
  | _ => True

theorem isSigned_toFloat {numeral : Numeral} (finite : numeral.toFloat.isFinite = true) :
    isSigned numeral.toFloat = false := by
  rcases Numeral.ofFloat_toFloat finite with ⟨magnitude, read⟩
  rw [isSigned, read]

theorem Begins.isWritable {piece rest : List Char} {token : Token}
    (begins : Begins piece rest token) : token.IsWritable := by
  cases begins with
  | whole _ _ _ finite => exact ⟨finite, isSigned_toFloat finite⟩
  | decimal _ _ _ finite => exact ⟨finite, isSigned_toFloat finite⟩
  | name nonempty inside _ =>
      constructor
      · rw [String.toList_ofList]
        exact nonempty
      · rw [String.toList_ofList]
        exact inside
  | symbol found _ =>
      rcases symbol?_cases found with ⟨_, rfl⟩ | ⟨_, rfl⟩ | ⟨_, rfl⟩ | ⟨_, rfl⟩
      all_goals trivial
  | power => trivial

theorem Splits.isWritable {position : Nat} {characters : List Char} {lexemes : List Lexeme}
    (splits : Splits position characters lexemes) {lexeme : Lexeme} (member : lexeme ∈ lexemes) :
    lexeme.token.IsWritable := by
  induction splits with
  | nothing _ =>
      cases List.mem_singleton.mp member
      trivial
  | blank _ _ ih => exact ih member
  | lexeme begins _ ih =>
      rcases List.mem_cons.mp member with rfl | later
      · exact begins.isWritable
      · exact ih later

/-- The number or the name of a node is one of the lexemes. -/
def Expr.WrittenIn (lexemes : List Lexeme) : Expr -> Prop
  | .literal value => Exists fun position : Nat => ⟨.number value, position⟩ ∈ lexemes
  | .call name _ => Exists fun position : Nat => ⟨.identifier name, position⟩ ∈ lexemes
  | _ => True

theorem Expr.WrittenIn.mono {few many : List Lexeme} {tree : Expr}
    (written : tree.WrittenIn few) (subset : forall lexeme, lexeme ∈ few -> lexeme ∈ many) :
    tree.WrittenIn many := by
  cases tree with
  | literal value =>
      rcases written with ⟨position, member⟩
      exact ⟨position, subset _ member⟩
  | call name arguments =>
      rcases written with ⟨position, member⟩
      exact ⟨position, subset _ member⟩
  | signed _ _ => trivial
  | binary _ _ _ => trivial

mutual

theorem Derives.writtenIn {category : Category} {lexemes : List Lexeme} {tree : Expr}
    {descents : Nat} : Derives category lexemes tree descents ->
      forall part, part ∈ tree.subtrees -> part.WrittenIn lexemes
  | .number value position => by
      intro part member
      rw [List.mem_singleton.mp member]
      exact ⟨position, List.mem_cons_self ..⟩
  | .emptyCall name position _ _ => by
      intro part member
      rw [List.mem_singleton.mp member]
      exact ⟨position, List.mem_cons_self ..⟩
  | .call name position _ _ arguments => by
      intro part member
      rcases List.mem_cons.mp member with same | inside
      · rw [same]
        exact ⟨position, List.mem_cons_self ..⟩
      · apply (arguments.writtenIn part inside).mono
        intro lexeme listed
        exact List.mem_cons_of_mem _ (List.mem_cons_of_mem _ (List.mem_append_left _ listed))
  | .group _ _ inner => by
      intro part member
      apply (inner.writtenIn part member).mono
      intro lexeme listed
      exact List.mem_cons_of_mem _ (List.mem_append_left _ listed)
  | .signed _ _ operand => by
      intro part member
      rcases List.mem_cons.mp member with same | inside
      · rw [same]
        trivial
      · exact (operand.writtenIn part inside).mono fun _ listed => List.mem_cons_of_mem _ listed
  | .binary _ _ left right => by
      intro part member
      rcases List.mem_cons.mp member with same | inside
      · rw [same]
        trivial
      · rcases List.mem_append.mp inside with inLeft | inRight
        · exact (left.writtenIn part inLeft).mono fun _ listed => List.mem_append_left _ listed
        · apply (right.writtenIn part inRight).mono
          intro lexeme listed
          exact List.mem_append_right _ (List.mem_cons_of_mem _ listed)
  | .tighter _ narrow => narrow.writtenIn

theorem DerivesArguments.writtenIn {lexemes : List Lexeme} {arguments : List Expr}
    {descents : Nat} : DerivesArguments lexemes arguments descents ->
      forall part, part ∈ Expr.allSubtrees arguments -> part.WrittenIn lexemes
  | .first argument => by
      intro part member
      rw [Expr.allSubtrees_singleton] at member
      exact argument.writtenIn part member
  | .next _ before after => by
      intro part member
      rw [Expr.allSubtrees_append, Expr.allSubtrees_singleton] at member
      rcases List.mem_append.mp member with earlier | last
      · exact (before.writtenIn part earlier).mono fun _ listed => List.mem_append_left _ listed
      · apply (after.writtenIn part last).mono
        intro lexeme listed
        exact List.mem_append_right _ (List.mem_cons_of_mem _ listed)

end

namespace Calculator

variable {calculator : Calculator} {text : String} {tree : Expr}

/-- The tree of a text can be written, and none of its literals has a sign. -/
theorem writable_of_parse (parsed : calculator.parse text = .ok tree) :
    tree.Writable ∧
      forall value : Float, .literal value ∈ tree.subtrees -> isSigned value = false := by
  rcases parse_derives parsed with ⟨stretch, final, descents, splits, _, derived, _, _⟩
  have literals : forall value : Float, .literal value ∈ tree.subtrees ->
      value.isFinite = true ∧ isSigned value = false := by
    intro value member
    rcases derived.writtenIn _ member with ⟨position, listed⟩
    exact splits.isWritable (List.mem_append_left _ listed)
  refine ⟨⟨fun value member => (literals value member).1, ?_⟩,
    fun value member => (literals value member).2⟩
  intro name arguments member
  rcases derived.writtenIn _ member with ⟨position, listed⟩
  exact splits.isWritable (List.mem_append_left _ listed)

/-- What is printed for a tree is read as the tree where the limit has room for it. -/
theorem parse_of_prints {most : Nat} (printed : PrintsTree tree text.toList most)
    (room : most ≤ calculator.maxDepth) (low : tree.height ≤ calculator.maxDepth) :
    calculator.parse text = .ok tree := by
  rcases printed 0 [] nofun with ⟨stretch, final, descents, derived, few, splits⟩
  have split := splits [⟨.endOfInput, final⟩] (.nothing final)
  rw [List.append_nil] at split
  have whole : Derives .expression stretch tree descents := derived.loosen (by decide)
  have bound : 1 ≤ calculator.maxDepth := Nat.le_trans tree.height_pos low
  have read := (whole.ofLexemes_within bound final []).1 ⟨Nat.le_trans few room, low⟩
  refine parse_eq_ok_iff.mpr ⟨_, ?_, read⟩
  rw [split.normalizeChars_eq]
  exact split

/-- The text of a tree is read as the tree, apart from the signs of literals. -/
theorem parse_text (writable : tree.Writable) (room : 2 * tree.height ≤ calculator.maxDepth) :
    calculator.parse tree.text = .ok tree.reread := by
  have positive := tree.height_pos
  have low := tree.height_reread
  exact parse_of_prints (Expr.prints_text tree writable) room (by omega)

/-- Printing is faithful: the text of a tree is read as the tree with the signs
of its literals as nodes, which has the same outcome; and the tree of a text is
read from its own text unchanged. -/
theorem text_reads_back :
    (forall (calculator : Calculator) (tree : Expr), tree.Writable ->
      2 * tree.height ≤ calculator.maxDepth ->
        calculator.parse tree.text = .ok tree.reread ∧
          calculator.evaluateTree tree.reread = calculator.evaluateTree tree) ∧
    (forall (calculator other : Calculator) (text : String) (tree : Expr),
      calculator.parse text = .ok tree -> 2 * tree.height ≤ other.maxDepth ->
        other.parse tree.text = .ok tree) := by
  constructor
  · intro calculator tree writable room
    have positive := tree.height_pos
    have low := tree.height_reread
    refine ⟨parse_text writable room, ?_⟩
    rw [evaluateTree, evaluateTree, Expr.evaluate_eq_outcome (by omega : tree.reread.height ≤ _),
      Expr.evaluate_eq_outcome (by omega : tree.height ≤ _), tree.outcome_reread writable]
  · intro calculator other text tree parsed room
    rcases writable_of_parse parsed with ⟨writable, unsigned⟩
    have read := parse_text writable room
    rw [tree.reread_eq_self unsigned] at read
    exact read

theorem text_reads_back_negative_base :
    (Expr.binary .power (.literal (-2)) (.literal 3)).text = "(-2 ** 3)" ∧
      (⟨4⟩ : Calculator).parse "(-2 ** 3)" =
        .ok (.binary .power (.signed .minus (.literal 2)) (.literal 3)) ∧
      (⟨6⟩ : Calculator).parse "((-2) ** 3)" =
        .ok (.binary .power (.signed .minus (.literal 2)) (.literal 3)) := by
  have text : (Expr.binary .power (.literal (-2)) (.literal 3)).text = "(-2 ** 3)" := rfl
  have writable : (Expr.binary .power (.literal (-2)) (.literal 3)).Writable := by
    constructor
    · intro value member
      simp only [Expr.subtrees, List.mem_cons, List.cons_append, List.nil_append,
        List.not_mem_nil, or_false, reduceCtorEq, false_or, Expr.literal.injEq] at member
      rcases member with rfl | rfl <;> rfl
    · intro name arguments member
      simp [Expr.subtrees] at member
  have read := (text_reads_back.1 ⟨4⟩ _ writable (by decide)).1
  rw [text] at read
  have parsed : (⟨3⟩ : Calculator).parse "-2^3" =
      .ok (.binary .power (.signed .minus (.literal 2)) (.literal 3)) := rfl
  have again := text_reads_back.2 ⟨3⟩ ⟨6⟩ "-2^3" _ parsed (by decide)
  have grouped : (Expr.binary .power (.signed .minus (.literal 2)) (.literal 3)).text =
      "((-2) ** 3)" := rfl
  rw [grouped] at again
  exact ⟨text, read, again⟩

end Calculator

end DeskCalculator

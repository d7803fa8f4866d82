import DeskCalculator.Proofs.Endings
import DeskCalculator.Proofs.MaximalMunch

namespace DeskCalculator

/-!
# Where errors point

Every error of the first two stages has a position, and what the text has there
is what the error names: the character, the literal, the name, the token or the
parenthesis.  An error of the end of the input points to the end of the text.

The reader keeps the positions of what is still open: of pending operators and
signs, of opening parentheses and of the names in front of them.  That these are
positions of such lexemes is preserved by every token, so that an error that
goes back to one of them finds it there.  Positions that are no position of a
lexeme are reported only where the end of the input is missing, which is never
the case for the lexemes of a text.

An error is about the end of the input only after a token that asks for more, or
if there is no token at all.
-/

/-- The tokens that take part in nesting: an opening parenthesis, an operator or
a sign, and a name. -/
def Token.isNesting : Token -> Bool
  | .openParen | .operator _ | .identifier _ => true
  | _ => false

/-- The lexeme is what an error with this cause and position is about. -/
inductive SyntaxError.IsAbout : SyntaxError -> Lexeme -> Prop
  | emptyExpression (position : Nat) :
      IsAbout (.emptyExpression position) ⟨.endOfInput, position⟩
  | unexpectedEnd (position : Nat) : IsAbout (.unexpectedEnd position) ⟨.endOfInput, position⟩
  | unexpectedToken {found : Token} (position : Nat) : found ≠ .endOfInput ->
      IsAbout (.unexpectedToken found position) ⟨found, position⟩
  | missingSeparator {found : Token} (position : Nat) : found ≠ .endOfInput ->
      IsAbout (.missingSeparator found position) ⟨found, position⟩
  | trailingTokens {first : Token} (position : Nat) : first ≠ .endOfInput ->
      IsAbout (.trailingTokens first position) ⟨first, position⟩
  | unclosedParen (position : Nat) : IsAbout (.unclosedParen position) ⟨.openParen, position⟩
  | unmatchedParen (position : Nat) : IsAbout (.unmatchedParen position) ⟨.closeParen, position⟩
  | bareIdentifier (name : String) (position : Nat) :
      IsAbout (.bareIdentifier name position) ⟨.identifier name, position⟩
  | tooDeep {token : Token} (limit position : Nat) : token.isNesting = true ->
      IsAbout (.tooDeep limit position) ⟨token, position⟩

/-- The error is about one of the lexemes. -/
def SyntaxError.IsAmong (lexemes : List Lexeme) (error : SyntaxError) : Prop :=
  Exists fun lexeme : Lexeme => lexeme ∈ lexemes ∧ error.IsAbout lexeme

/-! ## The positions that a reading keeps -/

/-- The operator or sign of a pending construct is one of the lexemes. -/
def Pending.IsPlaced (lexemes : List Lexeme) (pending : Pending) : Prop :=
  Exists fun operator : Operator => ⟨.operator operator, pending.position⟩ ∈ lexemes

/-- The name that is called is one of the lexemes. -/
def Callee.IsPlaced (lexemes : List Lexeme) (callee : Callee) : Prop :=
  ⟨.identifier callee.name, callee.position⟩ ∈ lexemes

/-- The opening parenthesis is one of the lexemes, and so is a name before it. -/
def Enclosure.IsPlaced (lexemes : List Lexeme) : Enclosure -> Prop
  | .group opened => ⟨.openParen, opened⟩ ∈ lexemes
  | .call callee opened _ => ⟨.openParen, opened⟩ ∈ lexemes ∧ callee.IsPlaced lexemes

/-- Everything that surrounds a place is about the lexemes. -/
structure Surroundings.IsPlaced (lexemes : List Lexeme) (around : Surroundings) : Prop where
  pending : forall pending, pending ∈ around.pending -> pending.IsPlaced lexemes
  enclosures : forall enclosed, enclosed ∈ around.enclosures ->
    enclosed.1.IsPlaced lexemes ∧
      forall pending, pending ∈ enclosed.2 -> pending.IsPlaced lexemes

/-- Everything that a reading keeps is about the lexemes. -/
def Reading.IsPlaced (lexemes : List Lexeme) : Reading -> Prop
  | .beforeOperand around | .afterOperand _ around => around.IsPlaced lexemes
  | .afterName callee around => callee.IsPlaced lexemes ∧ around.IsPlaced lexemes
  | .beforeArguments callee opened around =>
      ⟨.openParen, opened⟩ ∈ lexemes ∧ callee.IsPlaced lexemes ∧ around.IsPlaced lexemes

/-- There has to be more: an operand, or the end of the arguments. -/
def Reading.awaitsOperand : Reading -> Bool
  | .beforeOperand _ | .beforeArguments .. => true
  | .afterName .. | .afterOperand .. => false

/-- There has to be more after the lexemes, which the last of them tells, or the
reading if there are none. -/
def Reading.asksForMore (reading : Reading) (ahead : List Lexeme) : Bool :=
  match ahead.getLast? with
  | none => reading.awaitsOperand
  | some last => last.token.isUnfinished

theorem Enclosure.IsPlaced.opened {lexemes : List Lexeme} {enclosure : Enclosure}
    (placed : enclosure.IsPlaced lexemes) : ⟨.openParen, enclosure.opened⟩ ∈ lexemes := by
  cases enclosure with
  | group opened => exact placed
  | call callee opened reversed => exact placed.1

namespace Surroundings.IsPlaced

variable {lexemes : List Lexeme} {around : Surroundings}

theorem hold {pending : Pending} (placed : around.IsPlaced lexemes)
    (placedPending : pending.IsPlaced lexemes) : (around.hold pending).IsPlaced lexemes where
  pending := List.forall_mem_cons.mpr ⟨placedPending, placed.pending⟩
  enclosures := placed.enclosures

theorem enclose {enclosure : Enclosure} (placed : around.IsPlaced lexemes)
    (placedEnclosure : enclosure.IsPlaced lexemes) :
    (around.enclose enclosure).IsPlaced lexemes where
  pending := nofun
  enclosures := List.forall_mem_cons.mpr ⟨⟨placedEnclosure, placed.pending⟩, placed.enclosures⟩

end Surroundings.IsPlaced

/-! ## Every token keeps the positions -/

section Steps

variable {lexemes : List Lexeme} (limit : Nat)

/-- A failure is about one of the lexemes, and a success keeps to them. -/
abbrev KeepsTo {Result : Type} (lexemes : List Lexeme) (keeps : Result -> Prop)
    (outcome : Except SyntaxError Result) : Prop :=
  Outcome.Ensures (SyntaxError.IsAmong lexemes) keeps outcome

theorem Subtree.checked_keepsTo {token : Token} {position : Nat} (tree : Subtree)
    (nesting : token.isNesting = true) (member : ⟨token, position⟩ ∈ lexemes) :
    KeepsTo lexemes (fun _ => True) (checked limit position tree) := by
  unfold checked
  split
  · trivial
  · exact ⟨_, member, .tooDeep limit position nesting⟩

theorem Nesting.descend_keepsTo {token : Token} {position : Nat} (nesting : Nesting)
    (isNesting : token.isNesting = true) (member : ⟨token, position⟩ ∈ lexemes) :
    KeepsTo lexemes (fun _ => True) (nesting.descend position) := by
  unfold descend
  split
  · trivial
  · exact ⟨_, member, .tooDeep _ position isNesting⟩

theorem Pending.fill_keepsTo {pending : Pending} (operand : Subtree)
    (placed : pending.IsPlaced lexemes) :
    KeepsTo lexemes (fun _ => True) (pending.fill limit operand) := by
  rcases placed with ⟨operator, member⟩
  cases pending with
  | signed sign position => exact Subtree.checked_keepsTo limit _ rfl member
  | binary operator left position => exact Subtree.checked_keepsTo limit _ rfl member

theorem Pending.fillAll_keepsTo {several : List Pending} (operand : Subtree)
    (placed : forall pending, pending ∈ several -> pending.IsPlaced lexemes) :
    KeepsTo lexemes (fun _ => True) (fillAll limit operand several) := by
  induction several generalizing operand with
  | nil => trivial
  | cons innermost outer ih =>
      rw [fillAll_cons]
      have placedAll := List.forall_mem_cons.mp placed
      exact (fill_keepsTo limit operand placedAll.1).bind fun node _ => ih node placedAll.2

namespace Reading

variable {around : Surroundings} {token : Token} {position : Nat}

theorem await_keepsTo {pending : Pending} (placed : around.IsPlaced lexemes)
    (placedPending : pending.IsPlaced lexemes) :
    KeepsTo lexemes (IsPlaced lexemes) (await limit around pending) := by
  unfold await
  split
  · rcases placedPending with ⟨operator, member⟩
    exact (Nesting.descend_keepsTo _ rfl member).bind fun _ _ => placed.hold ⟨operator, member⟩
  · exact placed.hold placedPending

theorem readOperand_keepsTo (placed : around.IsPlaced lexemes) (goesOn : token ≠ .endOfInput)
    (member : ⟨token, position⟩ ∈ lexemes) :
    KeepsTo lexemes (IsPlaced lexemes) (readOperand limit around token position) := by
  cases token with
  | number value => exact placed
  | identifier name => exact ⟨member, placed⟩
  | openParen =>
      exact (Nesting.descend_keepsTo _ rfl member).bind fun _ _ => placed.enclose member
  | operator operator =>
      dsimp only [readOperand]
      split
      · exact await_keepsTo limit placed ⟨operator, member⟩
      · exact ⟨_, member, .unexpectedToken position goesOn⟩
  | closeParen | comma | endOfInput => exact ⟨_, member, .unexpectedToken position goesOn⟩

theorem closeArguments_keepsTo {callee : Callee} (arguments : List Subtree)
    (placedCallee : callee.IsPlaced lexemes) (placed : around.IsPlaced lexemes) :
    KeepsTo lexemes (IsPlaced lexemes) (closeArguments limit callee arguments around) :=
  (Subtree.checked_keepsTo limit _ rfl placedCallee).bind fun _ _ => placed

theorem readOperator_keepsTo (left : Subtree) {operator : Operator}
    (placed : around.IsPlaced lexemes) (member : ⟨.operator operator, position⟩ ∈ lexemes) :
    KeepsTo lexemes (IsPlaced lexemes) (readOperator limit left around operator position) := by
  have inner : forall pending, pending ∈ around.pending.takeWhile (Pending.yieldsTo operator) ->
      pending.IsPlaced lexemes := fun pending listed =>
    placed.pending pending ((List.takeWhile_prefix _).mem listed)
  refine (Pending.fillAll_keepsTo limit left inner).bind fun larger _ => ?_
  refine await_keepsTo limit ⟨fun pending listed => ?_, placed.enclosures⟩ ⟨operator, member⟩
  exact placed.pending pending ((List.dropWhile_suffix _).mem listed)

theorem readDelimiter_keepsTo (whole : Subtree) (placed : around.IsPlaced lexemes)
    (goesOn : token ≠ .endOfInput) (member : ⟨token, position⟩ ∈ lexemes) :
    KeepsTo lexemes (IsPlaced lexemes)
      (readDelimiter limit whole around.enclosures token position) := by
  rcases around with ⟨pending, enclosures⟩
  cases enclosures with
  | nil =>
      cases token with
      | closeParen => exact ⟨_, member, .unmatchedParen position⟩
      | _ => exact ⟨_, member, .trailingTokens position goesOn⟩
  | cons enclosed outer =>
      rcases enclosed with ⟨enclosure, outside⟩
      rcases List.forall_mem_cons.mp placed.enclosures with ⟨⟨opened, here⟩, further⟩
      cases enclosure with
      | group place =>
          cases token with
          | closeParen => exact ⟨here, further⟩
          | _ => exact ⟨_, opened, .unclosedParen place⟩
      | call callee place reversed =>
          cases token with
          | closeParen => exact closeArguments_keepsTo limit _ opened.2 ⟨here, further⟩
          | comma => exact ⟨nofun, List.forall_mem_cons.mpr ⟨⟨opened, here⟩, further⟩⟩
          | _ => exact ⟨_, member, .missingSeparator position goesOn⟩

/-- One token keeps the positions, or fails about one of the lexemes. -/
theorem step_keepsTo {reading : Reading} (placed : reading.IsPlaced lexemes)
    (goesOn : token ≠ .endOfInput) (member : ⟨token, position⟩ ∈ lexemes) :
    KeepsTo lexemes (IsPlaced lexemes) (reading.step limit token position) := by
  cases reading with
  | beforeOperand around => exact readOperand_keepsTo limit placed goesOn member
  | afterName callee around =>
      cases token with
      | openParen =>
          exact (Nesting.descend_keepsTo _ rfl member).bind fun _ _ =>
            ⟨member, placed.1, placed.2⟩
      | _ => exact ⟨_, placed.1, .bareIdentifier callee.name callee.position⟩
  | beforeArguments callee opened around =>
      rcases placed with ⟨opens, placedCallee, placedAround⟩
      by_cases closes : token = .closeParen
      · subst closes
        exact closeArguments_keepsTo limit [] placedCallee placedAround
      · rw [step_beforeArguments closes]
        exact readOperand_keepsTo limit (placedAround.enclose ⟨opens, placedCallee⟩) goesOn member
  | afterOperand operand around =>
      cases token with
      | operator operator => exact readOperator_keepsTo limit operand placed member
      | _ =>
          exact (Pending.fillAll_keepsTo limit operand placed.pending).bind fun whole _ =>
            readDelimiter_keepsTo limit whole placed goesOn member

/-- The outcome is no place where an operand has to come next. -/
abbrev IsSettled (outcome : Except SyntaxError Reading) : Prop :=
  Outcome.Ensures (fun _ => True) (fun next => next.awaitsOperand = false) outcome

theorem readOperand_isSettled (complete : token.isUnfinished = false) :
    IsSettled (readOperand limit around token position) := by
  cases token with
  | number value | identifier name => rfl
  | closeParen | endOfInput => trivial
  | operator operator | openParen | comma => cases complete

theorem closeArguments_isSettled (callee : Callee) (arguments : List Subtree) :
    IsSettled (closeArguments limit callee arguments around) :=
  Outcome.Ensures.ofLast _ fun _ => rfl

theorem readDelimiter_isSettled (whole : Subtree) (enclosures : List (Enclosure × List Pending))
    (complete : token.isUnfinished = false) :
    IsSettled (readDelimiter limit whole enclosures token position) := by
  unfold readDelimiter
  split
  · trivial
  · trivial
  · rfl
  · trivial
  · exact closeArguments_isSettled limit _ _
  · cases complete
  · trivial

/-- An operand has to come next only after a token that asks for more. -/
theorem step_isSettled (reading : Reading) (complete : token.isUnfinished = false) :
    IsSettled (reading.step limit token position) := by
  cases reading with
  | beforeOperand around => exact readOperand_isSettled limit complete
  | afterName callee around =>
      cases token with
      | openParen => cases complete
      | _ => trivial
  | beforeArguments callee opened around =>
      by_cases closes : token = .closeParen
      · subst closes
        exact closeArguments_isSettled limit callee []
      · rw [step_beforeArguments closes]
        exact readOperand_isSettled limit complete
  | afterOperand operand around =>
      cases token with
      | operator operator => cases complete
      | _ =>
          exact Outcome.Ensures.ofLast _ fun whole => readDelimiter_isSettled limit whole _ complete

theorem conclude_keepsTo {reading : Reading} (placed : reading.IsPlaced lexemes)
    (member : reading.awaitsOperand = true -> ⟨.endOfInput, position⟩ ∈ lexemes) :
    KeepsTo lexemes (fun _ => True) (reading.conclude limit position) := by
  cases reading with
  | beforeOperand around | beforeArguments callee opened around =>
      exact ⟨_, member rfl, .unexpectedEnd position⟩
  | afterName callee around =>
      exact ⟨_, placed.1, .bareIdentifier callee.name callee.position⟩
  | afterOperand operand around =>
      refine (Pending.fillAll_keepsTo limit operand placed.pending).bind fun whole _ => ?_
      cases outer : around.enclosures with
      | nil => trivial
      | cons enclosed outside =>
          have placedEnclosed := placed.enclosures enclosed (outer ▸ List.mem_cons_self ..)
          exact ⟨_, placedEnclosed.1.opened, .unclosedParen enclosed.1.opened⟩

/-- What asks for more after a token asked for more before it. -/
theorem asksForMore_of_step {reading next : Reading} {ahead : List Lexeme}
    (stepped : reading.step limit token position = .ok next)
    (asks : next.asksForMore ahead = true) :
    reading.asksForMore (⟨token, position⟩ :: ahead) = true := by
  cases ahead with
  | nil =>
      apply Bool.of_not_eq_false
      intro complete
      have settled : IsSettled (reading.step limit token position) :=
        step_isSettled limit reading complete
      rw [stepped] at settled
      exact absurd asks (Bool.eq_false_iff.mp settled)
  | cons later ahead => exact asks

/-- All tokens up to the end of the input: a failure is about one of them.  It is
not about the end unless the last token asks for more. -/
theorem run_keepsTo {reading : Reading} (placed : reading.IsPlaced lexemes) (last final : Nat)
    {ahead : List Lexeme} (inside : forall lexeme, lexeme ∈ ahead -> lexeme ∈ lexemes)
    (ends : reading.asksForMore ahead = true -> ⟨.endOfInput, final⟩ ∈ lexemes) :
    KeepsTo lexemes (fun _ => True) (reading.run limit last (ahead ++ [⟨.endOfInput, final⟩])) := by
  induction ahead generalizing reading last with
  | nil => exact conclude_keepsTo limit placed ends
  | cons lexeme ahead ih =>
      rcases lexeme with ⟨token, position⟩
      rcases List.forall_mem_cons.mp inside with ⟨member, later⟩
      by_cases early : token = .endOfInput
      · subst early
        exact conclude_keepsTo limit placed fun _ => member
      · rw [List.cons_append, run_cons early]
        have keeps := step_keepsTo limit placed early member
        cases stepped : reading.step limit token position with
        | error cause =>
            rw [stepped] at keeps
            exact keeps
        | ok next =>
            rw [stepped] at keeps
            exact ih keeps position later fun asks => ends (asksForMore_of_step limit stepped asks)

end Reading

/-- Where lexemes with an end are no expression, the error is about one of them.
It is not about the end unless the last one before it asks for more. -/
theorem Expr.ofLexemes_keepsTo (stretch : List Lexeme) (final : Nat)
    (inside : forall lexeme, lexeme ∈ stretch -> lexeme ∈ lexemes)
    (ends : Reading.start.asksForMore stretch = true -> ⟨.endOfInput, final⟩ ∈ lexemes) :
    KeepsTo lexemes (fun _ => True) (Expr.ofLexemes limit (stretch ++ [⟨.endOfInput, final⟩])) := by
  cases stretch with
  | nil => exact ⟨_, ends rfl, .emptyExpression final⟩
  | cons first rest =>
      rcases first with ⟨token, position⟩
      by_cases early : token = .endOfInput
      · subst early
        exact ⟨_, inside _ (List.mem_cons_self ..), .emptyExpression position⟩
      · have placed : Reading.start.IsPlaced lexemes := ⟨nofun, nofun⟩
        rw [List.cons_append, Expr.ofLexemes_cons early, ← List.cons_append]
        exact Reading.run_keepsTo limit placed 0 final inside ends

end Steps

/-! ## What the text has at the position of an error -/

/-- The token is the longest one at the start of the characters. -/
def Token.StartsAt (ahead : List Char) (token : Token) : Prop :=
  Exists fun piece : List Char => Exists fun rest : List Char =>
    ahead = piece ++ rest ∧ IsMunch piece rest token

/-- A part of the text is the other text. -/
def Mentions (message part : String) : Prop :=
  Exists fun opening : String => Exists fun closing : String =>
    message = opening ++ part ++ closing

/-- The characters from the position of an error on start with what it names. -/
def LexicalError.PointsAt (ahead : List Char) : LexicalError -> Prop
  | .unexpectedCharacter character _ => Exists fun rest : List Char => ahead = character :: rest
  | .invalidNumber literal _ =>
      Exists fun rest : List Char => Exists fun value : Float =>
        ahead = literal.toList ++ rest ∧ IsLexeme literal.toList (.number value) ∧
          IsLongest literal.toList rest

/-- The characters from the position of an error on start with what it names;
where it names a token, its message does as well. -/
def SyntaxError.PointsAt (ahead : List Char) (error : SyntaxError) : Prop :=
  match error with
  | .emptyExpression _ | .unexpectedEnd _ => ahead = []
  | .unexpectedToken found _ | .missingSeparator found _ | .trailingTokens found _ =>
      found.StartsAt ahead ∧ Mentions error.message found.text
  | .unclosedParen _ => Exists fun rest : List Char => ahead = '(' :: rest
  | .unmatchedParen _ => Exists fun rest : List Char => ahead = ')' :: rest
  | .bareIdentifier name _ =>
      Exists fun rest : List Char => ahead = name.toList ++ rest ∧
        IsLexeme name.toList (.identifier name) ∧ IsLongest name.toList rest
  | .tooDeep _ _ =>
      Exists fun token : Token => token.isNesting = true ∧ token.StartsAt ahead

/-- The characters from the position of an error on start with what it names. -/
def CalculationError.PointsAt (ahead : List Char) : CalculationError -> Prop
  | .lexical error => error.PointsAt ahead
  | .syntactic error => error.PointsAt ahead
  | .evaluation _ => False

theorem Mentions.prepend {message part : String} (mentions : Mentions message part)
    (before : String) : Mentions (before ++ message) part := by
  rcases mentions with ⟨opening, closing, rfl⟩
  exact ⟨before ++ opening, closing, by simp only [String.append_assoc]⟩

theorem SyntaxError.mentions_message {error : SyntaxError} {part : String}
    (mentions : Mentions error.details part) : Mentions error.message part :=
  mentions.prepend _

theorem IsLexeme.openParen_iff {piece : List Char} : IsLexeme piece .openParen ↔ piece = ['('] := by
  constructor
  · rintro ⟨⟩
    rfl
  · rintro rfl
    exact .openParen

theorem IsLexeme.closeParen_iff {piece : List Char} :
    IsLexeme piece .closeParen ↔ piece = [')'] := by
  constructor
  · rintro ⟨⟩
    rfl
  · rintro rfl
    exact .closeParen

theorem IsLexeme.eq_toList {piece : List Char} {name : String}
    (lexeme : IsLexeme piece (.identifier name)) : piece = name.toList := by
  cases lexeme
  exact String.toList_ofList.symm

theorem IsLexeme.ne_endOfInput {piece : List Char} {token : Token}
    (lexeme : IsLexeme piece token) : token ≠ .endOfInput := by
  cases lexeme <;> exact nofun

/-- A lexeme of a text stands at its position, the end of the input at the end
of the text. -/
theorem Splits.lexeme_at {position : Nat} {characters : List Char} {lexemes : List Lexeme}
    (splits : Splits position characters lexemes) {lexeme : Lexeme}
    (member : lexeme ∈ lexemes) :
    Exists fun before : List Char => Exists fun ahead : List Char =>
      characters = before ++ ahead ∧ lexeme.position = position + byteCount before ∧
        ((lexeme.token = .endOfInput ∧ ahead = []) ∨ lexeme.token.StartsAt ahead) := by
  rcases List.append_of_mem member with ⟨front, back, rfl⟩
  rcases splits.drop rfl (List.cons_ne_nil _ _) with ⟨before, _, rfl, splitsBack⟩
  rcases splitsBack.opens with ⟨blanks, ahead, rfl, _, opens⟩
  refine ⟨before ++ blanks, ahead, by simp, ?_⟩
  rw [byteCount_append, ← Nat.add_assoc]
  cases opens with
  | ends => exact ⟨rfl, .inl ⟨rfl, rfl⟩⟩
  | lexeme munch _ => exact ⟨rfl, .inr ⟨_, _, rfl, munch⟩⟩

/-- What stands at a lexeme is what an error about it points to. -/
theorem SyntaxError.IsAbout.pointsAt {error : SyntaxError} {lexeme : Lexeme}
    (about : error.IsAbout lexeme) {ahead : List Char}
    (stands : (lexeme.token = .endOfInput ∧ ahead = []) ∨ lexeme.token.StartsAt ahead) :
    error.PointsAt ahead := by
  have starts (goesOn : lexeme.token ≠ .endOfInput) : lexeme.token.StartsAt ahead :=
    stands.resolve_left fun ends => goesOn ends.1
  cases about with
  | emptyExpression position | unexpectedEnd position =>
      rcases stands with ⟨_, atEnd⟩ | ⟨_, _, _, munch⟩
      · exact atEnd
      · exact absurd rfl munch.lexeme.ne_endOfInput
  | unexpectedToken position goesOn =>
      exact ⟨starts goesOn, mentions_message ⟨"Unexpected token: ", ".", rfl⟩⟩
  | missingSeparator position goesOn =>
      exact ⟨starts goesOn, mentions_message
        ⟨"Unexpected token: expected ',' or ')', found ", ".", rfl⟩⟩
  | trailingTokens position goesOn =>
      exact ⟨starts goesOn, mentions_message
        ⟨"Extra tokens after expression, starting at ", ".", rfl⟩⟩
  | unclosedParen position =>
      rcases starts (by simp) with ⟨piece, rest, rfl, munch⟩
      exact ⟨rest, by rw [IsLexeme.openParen_iff.mp munch.lexeme]; rfl⟩
  | unmatchedParen position =>
      rcases starts (by simp) with ⟨piece, rest, rfl, munch⟩
      exact ⟨rest, by rw [IsLexeme.closeParen_iff.mp munch.lexeme]; rfl⟩
  | bareIdentifier name position =>
      rcases starts (by simp) with ⟨piece, rest, rfl, munch⟩
      have same := munch.lexeme.eq_toList
      subst same
      exact ⟨rest, rfl, munch.lexeme, munch.longest⟩
  | tooDeep limit position nesting =>
      refine ⟨_, nesting, starts ?_⟩
      rintro rfl
      cases nesting

theorem Refuses.pointsAt {ahead : List Char} {position : Nat} {error : LexicalError}
    (refuses : Refuses ahead position error) : error.PointsAt ahead := by
  cases refuses with
  | foreign _ => exact ⟨_, rfl⟩
  | point _ => exact ⟨_, rfl⟩
  | @tooLarge literal rest _ value lexeme longest _ =>
      rw [LexicalError.PointsAt, String.toList_ofList]
      exact ⟨rest, value, rfl, lexeme, longest⟩

theorem SyntaxError.IsAbout.position_eq {error : SyntaxError} {lexeme : Lexeme}
    (about : error.IsAbout lexeme) : error.position = lexeme.position := by
  cases about <;> rfl

/-- Where the lexer fails, the text goes on with what the error names. -/
theorem tokenize_error_points {text : String} {error : LexicalError}
    (failed : tokenize text = .error error) :
    Exists fun before : List Char => Exists fun ahead : List Char =>
      text.toList = before ++ ahead ∧ error.position = byteCount before ∧
        error.PointsAt ahead := by
  rcases munches_of_scan_error _ 0 text.toList error (Nat.le_refl _) failed with
    ⟨before, ahead, _, same, _, refuses⟩
  rw [Nat.zero_add] at refuses
  exact ⟨before, ahead, same, by cases refuses <;> rfl, refuses.pointsAt⟩

namespace Calculator

/-- An error of a text that is not read has a position in the respelled text, at
a character or at the end, and what it names is there. -/
theorem parse_error_points (calculator : Calculator) (text : String) (error : CalculationError)
    (failed : calculator.parse text = .error error) :
    Exists fun position : Nat => Exists fun before : List Char => Exists fun ahead : List Char =>
      error.position? = some position ∧ (normalize text).toList = before ++ ahead ∧
        position = byteCount before ∧ position ≤ (normalize text).utf8ByteSize ∧
        (ahead = [] -> position = (normalize text).utf8ByteSize) ∧ error.PointsAt ahead := by
  have inside {before ahead : List Char} (same : (normalize text).toList = before ++ ahead) :
      byteCount before ≤ (normalize text).utf8ByteSize ∧
        (ahead = [] -> byteCount before = (normalize text).utf8ByteSize) := by
    rw [← byteCount_toList, same, byteCount_append]
    refine ⟨Nat.le_add_right _ _, ?_⟩
    rintro rfl
    rfl
  rcases Outcome.bind_eq_error_iff.mp failed with splitting | ⟨lexemes, split, reading⟩
  · rcases Outcome.mapError_eq_error_iff.mp splitting with ⟨cause, unsplit, rfl⟩
    rcases tokenize_error_points unsplit with ⟨before, ahead, same, place, points⟩
    refine ⟨_, before, ahead, rfl, same, place, ?_, ?_, points⟩
    · exact place ▸ (inside same).1
    · exact place ▸ (inside same).2
  · rcases Outcome.mapError_eq_error_iff.mp reading with ⟨cause, unread, rfl⟩
    have splits := (tokenize_eq_ok_iff _ _).mp (Outcome.mapError_eq_ok_iff.mp split)
    rcases splits.ends with ⟨stretch, final, rfl, _⟩
    have keeps := Expr.ofLexemes_keepsTo calculator.maxDepth stretch final
      (fun _ member => List.mem_append_left _ member)
      (fun _ => List.mem_append_right stretch (List.mem_singleton_self _))
    rw [unread] at keeps
    rcases keeps with ⟨lexeme, member, about⟩
    rcases splits.lexeme_at member with ⟨before, ahead, same, place, stands⟩
    rw [Nat.zero_add, ← about.position_eq] at place
    refine ⟨_, before, ahead, rfl, same, place, ?_, ?_, about.pointsAt stands⟩
    · exact place ▸ (inside same).1
    · exact place ▸ (inside same).2

/-- The glyph has two bytes and its spelling one; positions are those of the
spelling. -/
theorem parse_error_points_separator :
    (⟨3⟩ : Calculator).parse "sin(2×3 4" =
        .error (.syntactic (.missingSeparator (.number 4) 8)) ∧
      Exists fun before : List Char => Exists fun ahead : List Char =>
        (normalize "sin(2×3 4").toList = before ++ ahead ∧ 8 = byteCount before ∧
          (Token.number 4).StartsAt ahead := by
  have failed : (⟨3⟩ : Calculator).parse "sin(2×3 4" =
      .error (.syntactic (.missingSeparator (.number 4) 8)) := rfl
  rcases parse_error_points ⟨3⟩ "sin(2×3 4" _ failed with
    ⟨_, before, ahead, place, same, bytes, _, _, points⟩
  cases place
  exact ⟨failed, before, ahead, same, bytes, points.1⟩

end Calculator

end DeskCalculator

import DeskCalculator.Proofs.Beginnings
import DeskCalculator.Proofs.Parsing

namespace DeskCalculator

/-!
# Expressions while they are typed

A beginning of a text that has a tree has a tree as well, or it fails as
something unfinished does; it never fails as something wrong.  Both readings
pass through the same places up to the cut.  What is pending there is filled in
the reading of the whole, and with an operand that is at least as tall as the
one that it is filled with at the cut.  So there is room for it under the same
limit, which is shown of every place by going back from the end of the lexemes.
-/

/-- The failures of lexemes that are unfinished. -/
def SyntaxError.IsUnfinished : SyntaxError -> Prop
  | .emptyExpression _ | .unexpectedEnd _ | .unclosedParen _ | .bareIdentifier _ _ => True
  | _ => False

/-- The failures of a text that is unfinished.  The last character of the text
may be a point that no digit follows yet. -/
def CalculationError.IsUnfinished (typed : List Char) : CalculationError -> Prop
  | .lexical error => Exists fun before : List Char => typed = before ++ ['.'] ∧
      error = .unexpectedCharacter '.' (byteCount (normalizeChars before))
  | .syntactic error => error.IsUnfinished
  | .evaluation _ => False

/-! ## Room for an operand -/

namespace Pending

variable {limit : Nat} {operand other whole : Subtree}

theorem fill_mono {pending : Pending} (filled : pending.fill limit operand = .ok whole)
    (low : other.height ≤ operand.height) :
    Exists fun smaller : Subtree =>
      pending.fill limit other = .ok smaller ∧ smaller.height ≤ whole.height := by
  cases pending with
  | signed sign position =>
      rcases Subtree.checked_eq_ok_iff.mp filled with ⟨rfl, fits⟩
      have lower := Nat.succ_le_succ low
      exact ⟨_, Subtree.checked_eq_ok_iff.mpr ⟨rfl, Nat.le_trans lower fits⟩, lower⟩
  | binary operator left position =>
      rcases Subtree.checked_eq_ok_iff.mp filled with ⟨rfl, fits⟩
      have lower : max left.height other.height + 1 ≤ max left.height operand.height + 1 := by
        omega
      exact ⟨_, Subtree.checked_eq_ok_iff.mpr ⟨rfl, Nat.le_trans lower fits⟩, lower⟩

/-- What can be filled with an operand can be filled with a lower one, and
becomes no taller. -/
theorem fillAll_mono {pending : List Pending} (filled : fillAll limit operand pending = .ok whole)
    (low : other.height ≤ operand.height) :
    Exists fun smaller : Subtree =>
      fillAll limit other pending = .ok smaller ∧ smaller.height ≤ whole.height := by
  induction pending generalizing operand other with
  | nil =>
      cases filled
      exact ⟨other, rfl, low⟩
  | cons innermost outer ih =>
      rw [fillAll_cons] at filled ⊢
      rcases Outcome.bind_eq_ok_iff.mp filled with ⟨node, filledNode, filledOuter⟩
      rcases fill_mono filledNode low with ⟨lower, filledLower, lowNode⟩
      rcases ih filledOuter lowNode with ⟨smaller, filledSmaller, lowWhole⟩
      exact ⟨smaller, Outcome.bind_eq_ok_iff.mpr ⟨lower, filledLower, filledSmaller⟩, lowWhole⟩

theorem fillAll_append (limit : Nat) (operand : Subtree) (inner outer : List Pending) :
    fillAll limit operand (inner ++ outer) =
      fillAll limit operand inner >>= fun node => fillAll limit node outer :=
  List.foldlM_append

/-- The constructs can be filled with any operand up to a height. -/
def HasRoom (limit height : Nat) (pending : List Pending) : Prop :=
  forall operand : Subtree, operand.height ≤ height ->
    Exists fun whole : Subtree => fillAll limit operand pending = .ok whole

theorem HasRoom.of_fillAll {pending : List Pending}
    (filled : fillAll limit operand pending = .ok whole) :
    HasRoom limit operand.height pending := by
  intro other low
  rcases fillAll_mono filled low with ⟨smaller, filledSmaller, _⟩
  exact ⟨smaller, filledSmaller⟩

theorem HasRoom.mono {height lower : Nat} {pending : List Pending}
    (room : HasRoom limit height pending) (le : lower ≤ height) : HasRoom limit lower pending :=
  fun operand low => room operand (Nat.le_trans low le)

/-- Room inside of a construct is room for what the construct becomes. -/
theorem HasRoom.outside {innermost : Pending} {outer : List Pending}
    (room : HasRoom limit 1 (innermost :: outer)) :
    Exists fun node : Subtree =>
      innermost.fill limit (.literal 0) = .ok node ∧ HasRoom limit node.height outer := by
  rcases room (.literal 0) (Nat.le_refl 1) with ⟨whole, filled⟩
  rw [fillAll_cons] at filled
  rcases Outcome.bind_eq_ok_iff.mp filled with ⟨node, filledNode, filledOuter⟩
  exact ⟨node, filledNode, .of_fillAll filledOuter⟩

end Pending

/-- What is pending at a place has room for an operand, and so has what is
pending around each enclosure. -/
structure Surroundings.HasRoom (limit height : Nat) (around : Surroundings) : Prop where
  here : Pending.HasRoom limit height around.pending
  outside : forall enclosed, enclosed ∈ around.enclosures -> Pending.HasRoom limit 1 enclosed.2

/-- The place has room for the operand that it has or that is missing there. -/
def Reading.HasRoom (limit : Nat) : Reading -> Prop
  | .beforeOperand around | .afterName _ around | .beforeArguments _ _ around =>
      around.HasRoom limit 1
  | .afterOperand operand around => around.HasRoom limit operand.height

namespace Surroundings

variable {limit height lower : Nat} {around : Surroundings}

theorem HasRoom.mono (room : around.HasRoom limit height) (le : lower ≤ height) :
    around.HasRoom limit lower :=
  ⟨room.here.mono le, room.outside⟩

theorem HasRoom.of_enclose {enclosure : Enclosure}
    (room : (around.enclose enclosure).HasRoom limit height) : around.HasRoom limit 1 :=
  ⟨room.outside _ (List.mem_cons_self ..),
    fun enclosed member => room.outside enclosed (List.mem_cons_of_mem _ member)⟩

theorem HasRoom.of_hold {pending : Pending} (room : (around.hold pending).HasRoom limit 1) :
    Exists fun node : Subtree =>
      pending.fill limit (.literal 0) = .ok node ∧ around.HasRoom limit node.height := by
  rcases room.here.outside with ⟨node, filled, outside⟩
  exact ⟨node, filled, outside, room.outside⟩

end Surroundings

theorem Subtree.height_pos (subtree : Subtree) : 1 ≤ subtree.height :=
  subtree.height_eq ▸ subtree.expr.height_pos

/-! ## Room before a token from room after it -/

namespace Reading

variable {limit position : Nat} {around : Surroundings} {token : Token} {next : Reading}

theorem readOperand_hasRoom (read : readOperand limit around token position = .ok next)
    (room : next.HasRoom limit) : around.HasRoom limit 1 := by
  cases token with
  | number value =>
      cases read
      exact room
  | identifier name =>
      cases read
      exact room
  | openParen =>
      rcases Outcome.bind_eq_ok_iff.mp read with ⟨inside, _, same⟩
      cases same
      exact Surroundings.HasRoom.of_enclose room
  | operator operator =>
      simp only [readOperand] at read
      cases written : Sign.ofOperator? operator with
      | none => rw [written] at read; cases read
      | some sign =>
          rw [written] at read
          rcases await_ok read with ⟨rfl, _⟩
          rcases Surroundings.HasRoom.of_hold room with ⟨node, _, outside⟩
          exact outside.mono node.height_pos
  | closeParen | comma | endOfInput => cases read

theorem closeArguments_hasRoom {callee : Callee} {arguments : List Subtree}
    (closed : closeArguments limit callee arguments around = .ok next)
    (room : next.HasRoom limit) : around.HasRoom limit 1 := by
  rcases Outcome.bind_eq_ok_iff.mp closed with ⟨call, _, same⟩
  cases same
  exact Surroundings.HasRoom.mono room call.height_pos

/-- An operator takes what yields to it as its left operand, and the result is
no lower than that. -/
theorem readOperator_hasRoom {operand : Subtree} {operator : Operator}
    (read : readOperator limit operand around operator position = .ok next)
    (room : next.HasRoom limit) : around.HasRoom limit operand.height := by
  rcases Outcome.bind_eq_ok_iff.mp read with ⟨larger, filled, awaited⟩
  rcases await_ok awaited with ⟨rfl, _⟩
  rcases Surroundings.HasRoom.of_hold room with ⟨node, filledNode, outside⟩
  rcases Subtree.checked_eq_ok_iff.mp filledNode with ⟨rfl, _⟩
  refine ⟨?_, outside.outside⟩
  intro other low
  rcases Pending.fillAll_mono filled low with ⟨smaller, filledSmaller, lowLarger⟩
  have fits : smaller.height ≤ max larger.height (Subtree.literal 0).height + 1 := by omega
  rcases outside.here smaller fits with ⟨whole, filledWhole⟩
  refine ⟨whole, ?_⟩
  rw [← @List.takeWhile_append_dropWhile _ (Pending.yieldsTo operator) around.pending,
    Pending.fillAll_append]
  exact Outcome.bind_eq_ok_iff.mpr ⟨smaller, filledSmaller, filledWhole⟩

theorem readDelimiter_hasRoom {enclosures : List (Enclosure × List Pending)} {whole : Subtree}
    (read : readDelimiter limit whole enclosures token position = .ok next)
    (room : next.HasRoom limit) :
    forall enclosed, enclosed ∈ enclosures -> Pending.HasRoom limit 1 enclosed.2 := by
  have closing {enclosure : Enclosure} {pending : List Pending}
      {outer : List (Enclosure × List Pending)}
      (outside : Surroundings.HasRoom limit 1 ⟨pending, outer⟩) :
      forall enclosed, enclosed ∈ (enclosure, pending) :: outer ->
        Pending.HasRoom limit 1 enclosed.2 :=
    List.forall_mem_cons.mpr ⟨outside.here, outside.outside⟩
  match enclosures, token with
  | [], _ => exact nofun
  | (.group _, pending) :: outer, .closeParen =>
      cases read
      exact closing (Surroundings.HasRoom.mono room whole.height_pos)
  | (.call callee _ reversed, pending) :: outer, .closeParen =>
      exact closing (closeArguments_hasRoom read room)
  | (.call callee opened reversed, pending) :: outer, .comma =>
      cases read
      exact List.forall_mem_cons.mpr (List.forall_mem_cons.mp room.outside)

/-- Where the place after a token has room, the place before it has. -/
theorem step_hasRoom {reading : Reading} (stepped : reading.step limit token position = .ok next)
    (room : next.HasRoom limit) : reading.HasRoom limit := by
  cases reading with
  | beforeOperand around => exact readOperand_hasRoom stepped room
  | afterName callee around =>
      cases token with
      | openParen =>
          rcases Outcome.bind_eq_ok_iff.mp stepped with ⟨inside, _, same⟩
          cases same
          exact room
      | _ => cases stepped
  | beforeArguments callee opened around =>
      by_cases closes : token = .closeParen
      · subst closes
        exact closeArguments_hasRoom stepped room
      · rw [step_beforeArguments closes] at stepped
        exact Surroundings.HasRoom.of_enclose (readOperand_hasRoom stepped room)
  | afterOperand operand around =>
      cases token with
      | operator operator => exact readOperator_hasRoom stepped room
      | _ =>
          rcases Outcome.bind_eq_ok_iff.mp stepped with ⟨whole, filled, read⟩
          exact ⟨.of_fillAll filled, readDelimiter_hasRoom read room⟩

theorem conclude_hasRoom {reading : Reading} {tree : Expr}
    (concluded : reading.conclude limit position = .ok tree) : reading.HasRoom limit := by
  cases reading with
  | beforeOperand around | afterName callee around | beforeArguments callee opened around =>
      cases concluded
  | afterOperand operand around =>
      rcases Outcome.bind_eq_ok_iff.mp concluded with ⟨whole, filled, alone⟩
      refine ⟨.of_fillAll filled, ?_⟩
      cases outer : around.enclosures with
      | nil => exact nofun
      | cons enclosed outside =>
          rw [outer] at alone
          cases alone

/-- Every place of a reading that ends with a tree has room. -/
theorem run_hasRoom {reading : Reading} {last : Nat} {ahead : List Lexeme} {tree : Expr}
    (read : reading.run limit last ahead = .ok tree) : reading.HasRoom limit := by
  induction ahead generalizing reading last with
  | nil =>
      rcases Outcome.bind_eq_ok_iff.mp read with ⟨_, _, missing⟩
      cases missing
  | cons lexeme rest ih =>
      rcases lexeme with ⟨token, position⟩
      by_cases ends : token = .endOfInput
      · subst ends
        exact conclude_hasRoom read
      · rw [run_cons ends] at read
        rcases Outcome.bind_eq_ok_iff.mp read with ⟨next, stepped, readRest⟩
        exact step_hasRoom stepped (ih readRest)

/-! ## Stopping early -/

/-- Where the input ends at the place, it is at most unfinished. -/
def Pauses (limit : Nat) (reading : Reading) : Prop :=
  forall (position : Nat) (error : SyntaxError),
    reading.conclude limit position = .error error -> error.IsUnfinished

theorem HasRoom.pauses {reading : Reading} (room : reading.HasRoom limit) :
    reading.Pauses limit := by
  intro position error failed
  cases reading with
  | beforeOperand around | afterName callee around | beforeArguments callee opened around =>
      cases failed
      trivial
  | afterOperand operand around =>
      rcases room.here operand (Nat.le_refl _) with ⟨whole, filled⟩
      simp only [conclude, filled] at failed
      cases outer : around.enclosures with
      | nil =>
          rw [outer] at failed
          cases failed
      | cons enclosed outside =>
          rw [outer] at failed
          cases failed
          trivial

theorem readDelimiter_delimits {enclosures : List (Enclosure × List Pending)} {whole : Subtree}
    (read : readDelimiter limit whole enclosures token position = .ok next) :
    token = .closeParen ∨ token = .comma := by
  unfold readDelimiter at read
  split at read
  · cases read
  · cases read
  · exact .inl rfl
  · cases read
  · exact .inl rfl
  · exact .inr rfl
  · cases read

/-- A number or a name is read where an operand has to start. -/
theorem step_operand {reading : Reading}
    (stepped : reading.step limit token position = .ok next)
    (operand : (Exists fun value : Float => token = .number value) ∨
      Exists fun name : String => token = .identifier name) :
    Exists fun around : Surroundings => forall other : Token, other ≠ .closeParen ->
      reading.step limit other position = readOperand limit around other position := by
  cases reading with
  | beforeOperand around => exact ⟨around, fun _ _ => rfl⟩
  | beforeArguments callee opened around =>
      exact ⟨around.enclose (.call callee opened []), fun _ => step_beforeArguments⟩
  | afterName callee around => rcases operand with ⟨_, rfl⟩ | ⟨_, rfl⟩ <;> cases stepped
  | afterOperand left around =>
      rcases operand with ⟨_, rfl⟩ | ⟨_, rfl⟩ <;>
      · rcases Outcome.bind_eq_ok_iff.mp stepped with ⟨whole, _, read⟩
        rcases readDelimiter_delimits read with impossible | impossible <;> cases impossible

/-- What is left of a token leads to a place as well, and the input may end
there.  What is pending is filled later on, so what yields to the star is
filled as well. -/
theorem step_cutOff {reading : Reading} {left : Token} (cutOff : token.CutOff left)
    (stepped : reading.step limit token position = .ok next) (room : next.HasRoom limit) :
    Exists fun other : Reading =>
      reading.step limit left position = .ok other ∧ other.Pauses limit := by
  cases cutOff with
  | number value shorter =>
      rcases step_operand stepped (.inl ⟨value, rfl⟩) with ⟨around, steps⟩
      rw [steps (.number value) nofun] at stepped
      cases stepped
      exact ⟨_, steps (.number shorter) nofun, HasRoom.pauses room⟩
  | identifier name shorter =>
      rcases step_operand stepped (.inr ⟨name, rfl⟩) with ⟨around, steps⟩
      rw [steps (.identifier name) nofun] at stepped
      cases stepped
      exact ⟨_, steps (.identifier shorter) nofun, HasRoom.pauses room⟩
  | power =>
      have before := step_hasRoom stepped room
      cases reading with
      | beforeOperand around | afterName callee around | beforeArguments callee opened around =>
          cases stepped
      | afterOperand operand around =>
          rcases before.here operand (Nat.le_refl _) with ⟨whole, filled⟩
          rw [← @List.takeWhile_append_dropWhile _ (Pending.yieldsTo .multiply) around.pending,
            Pending.fillAll_append] at filled
          rcases Outcome.bind_eq_ok_iff.mp filled with ⟨larger, filledInner, _⟩
          refine ⟨_, Outcome.bind_eq_ok_iff.mpr ⟨larger, filledInner, rfl⟩, ?_⟩
          intro place error failed
          cases failed
          trivial

/-- A reading that ends with a tree may end early, at any place and inside of
any token. -/
theorem run_begun {begun whole : List Lexeme} (begins : Begun begun whole) {reading : Reading}
    {last : Nat} {tree : Expr} (read : reading.run limit last whole = .ok tree) (final : Nat)
    (error : SyntaxError)
    (failed : reading.run limit last (begun ++ [⟨.endOfInput, final⟩]) = .error error) :
    error.IsUnfinished := by
  induction begins generalizing reading last with
  | nothing whole => exact (run_hasRoom read).pauses final error failed
  | @inside token left position later cutOff =>
      have goesOn := cutOff.goesOn
      rw [run_cons goesOn.1] at read
      rcases Outcome.bind_eq_ok_iff.mp read with ⟨next, stepped, readRest⟩
      rcases step_cutOff cutOff stepped (run_hasRoom readRest) with ⟨other, steppedLeft, pauses⟩
      rw [List.singleton_append, run_cons goesOn.2, steppedLeft] at failed
      exact pauses final error failed
  | @lexeme begun later lexeme _ ih =>
      rcases lexeme with ⟨token, position⟩
      rw [List.cons_append] at failed
      by_cases ends : token = .endOfInput
      · subst ends
        have same : reading.run limit last (⟨.endOfInput, position⟩ :: later) = .error error :=
          failed
        rw [read] at same
        cases same
      · rw [run_cons ends] at read failed
        rcases Outcome.bind_eq_ok_iff.mp read with ⟨next, stepped, readRest⟩
        rw [stepped] at failed
        exact ih readRest failed

end Reading

/-- Lexemes that have a tree may end early; without any of them there is
nothing to read. -/
theorem Expr.ofLexemes_begun {limit : Nat} {begun whole : List Lexeme} (begins : Begun begun whole)
    {tree : Expr} (read : Expr.ofLexemes limit whole = .ok tree) (final : Nat)
    (error : SyntaxError)
    (failed : Expr.ofLexemes limit (begun ++ [⟨.endOfInput, final⟩]) = .error error) :
    error.IsUnfinished := by
  have starts := begins
  cases begins with
  | nothing whole =>
      cases failed
      trivial
  | @inside token left position later cutOff =>
      have goesOn := cutOff.goesOn
      rw [Expr.ofLexemes_cons goesOn.1] at read
      rw [List.singleton_append, Expr.ofLexemes_cons goesOn.2] at failed
      exact Reading.run_begun starts read final error failed
  | @lexeme begun later lexeme _ =>
      rcases lexeme with ⟨token, position⟩
      by_cases ends : token = .endOfInput
      · subst ends
        cases read
      · rw [Expr.ofLexemes_cons ends] at read
        rw [List.cons_append, Expr.ofLexemes_cons ends] at failed
        exact Reading.run_begun starts read final error failed

namespace Calculator

/-- No beginning of an accepted text is wrong: cut off at any character, the
text is accepted under the same limit, or it fails as unfinished. -/
theorem parse_beginning (calculator : Calculator) (text : String) (tree : Expr)
    (parsed : calculator.parse text = .ok tree) (beginning remainder : List Char)
    (cut : text.toList = beginning ++ remainder) :
    (Exists fun part : Expr => calculator.parse (String.ofList beginning) = .ok part) ∨
      Exists fun error : CalculationError =>
        calculator.parse (String.ofList beginning) = .error error ∧
          error.IsUnfinished beginning := by
  rcases parse_eq_ok_iff.mp parsed with ⟨lexemes, splits, read⟩
  have respelled : normalizeChars text.toList =
      normalizeChars beginning ++ normalizeChars remainder := by
    rw [cut, normalizeChars_append]
  cases outcome : calculator.parse (String.ofList beginning) with
  | ok part => exact .inl ⟨part, rfl⟩
  | error error =>
      refine .inr ⟨error, rfl, ?_⟩
      rcases splits.cutOff respelled with ⟨begun, final, begins, splitsBegun⟩ |
        ⟨before, shape, failed⟩
      · have lexed : Calculator.lexemes (String.ofList beginning) =
            .ok (begun ++ [⟨.endOfInput, final⟩]) := by
          rw [lexemes_eq_ok_iff, String.toList_ofList]
          exact splitsBegun
        rw [parse, lexed] at outcome
        rcases Outcome.mapError_eq_error_iff.mp outcome with ⟨cause, failed, rfl⟩
        exact Expr.ofLexemes_begun begins read final cause failed
      · have lexed : Calculator.lexemes (String.ofList beginning) =
            .error (.lexical (.unexpectedCharacter '.' (0 + byteCount before))) := by
          rw [Calculator.lexemes, normalize, tokenize, String.toList_ofList, String.toList_ofList,
            failed]
          rfl
        rw [parse, lexed] at outcome
        cases outcome
        rcases normalizeChars_eq_concat (by decide) shape with ⟨front, rfl, rfl⟩
        exact ⟨front, rfl, by rw [Nat.zero_add]⟩

/-- The point of a number that starts with it, after a power and a parenthesis. -/
theorem parse_beginning_point :
    (Exists fun tree : Expr => (⟨2⟩ : Calculator).parse "2^(.5)" = .ok tree) ∧
      "2^(.5)".toList = ['2', '^', '(', '.'] ++ ['5', ')'] ∧
      (⟨2⟩ : Calculator).parse (String.ofList ['2', '^', '(', '.']) =
        .error (.lexical (.unexpectedCharacter '.' 4)) ∧
      (CalculationError.lexical (.unexpectedCharacter '.' 4)).IsUnfinished
        ['2', '^', '(', '.'] := by
  have parsed : Exists fun tree : Expr => (⟨2⟩ : Calculator).parse "2^(.5)" = .ok tree := ⟨_, rfl⟩
  have cut : "2^(.5)".toList = ['2', '^', '(', '.'] ++ ['5', ')'] := rfl
  have failed : (⟨2⟩ : Calculator).parse (String.ofList ['2', '^', '(', '.']) =
      .error (.lexical (.unexpectedCharacter '.' 4)) := rfl
  refine ⟨parsed, cut, failed, ?_⟩
  rcases parsed with ⟨tree, parsed⟩
  rcases parse_beginning ⟨2⟩ _ tree parsed _ _ cut with ⟨part, read⟩ | ⟨error, read, unfinished⟩
  · rw [failed] at read
    cases read
  · rw [failed] at read
    cases read
    exact unfinished

end Calculator

end DeskCalculator

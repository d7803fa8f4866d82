import DeskCalculator.Proofs.Grammar.Acceptance
import DeskCalculator.Proofs.LargerLimit
import DeskCalculator.Proofs.MaximalMunch
import DeskCalculator.Proofs.Parsing

namespace DeskCalculator

/-!
# The first token that is out of place

Some errors say that a token is out of place: an operand or a separator should
stand there, or nothing at all.  Such a token is the first one with which no
expression goes on.  Whatever follows it, the error is the same and no limit
helps, while the tokens before it can be completed to an expression.

The first half is about the reader, which goes on over one token at a time and
looks at no other: it reports a token as out of place only at the step over that
token.  The second half is about the grammar.  A place that has been reached
covers the lexemes before it, so an operand may be put there if one is due, and
then closing parentheses complete whatever is open, the innermost first.
-/

/-- The error says that a token is out of place. -/
def SyntaxError.isMisplaced : SyntaxError -> Bool
  | unexpectedToken _ _ | missingSeparator _ _ | unmatchedParen _ | trailingTokens _ _ => true
  | _ => false

section Depth

variable {failure : SyntaxError -> Prop} {limit : Nat}
  (deep : forall position : Nat, failure (.tooDeep limit position))
include deep

theorem Subtree.checked_ensures (position : Nat) (tree : Subtree) :
    Outcome.Ensures failure (fun _ => True) (checked limit position tree) := by
  unfold checked
  split
  · trivial
  · exact deep position

theorem Surroundings.descend_ensures (around : Surroundings) (position : Nat) :
    Outcome.Ensures failure (fun _ => True) ((around.nesting limit).descend position) := by
  unfold Nesting.descend
  split
  · trivial
  · exact deep position

theorem Pending.fillAll_ensures (operand : Subtree) (pending : List Pending) :
    Outcome.Ensures failure (fun _ => True) (fillAll limit operand pending) := by
  induction pending generalizing operand with
  | nil => trivial
  | cons innermost outer ih =>
      rw [fillAll_cons]
      have filled : Outcome.Ensures failure (fun _ => True) (innermost.fill limit operand) := by
        cases innermost <;> exact Subtree.checked_ensures deep _ _
      exact filled.bind fun node _ => ih node

theorem Reading.await_ensures (around : Surroundings) (pending : Pending) :
    Outcome.Ensures failure (fun _ => True) (await limit around pending) := by
  unfold await
  split
  · exact (around.descend_ensures deep _).bind fun _ _ => trivial
  · trivial

theorem Reading.closeArguments_ensures (callee : Callee) (arguments : List Subtree)
    (around : Surroundings) :
    Outcome.Ensures failure (fun _ => True) (closeArguments limit callee arguments around) :=
  (Subtree.checked_ensures deep _ _).bind fun _ _ => trivial

theorem Reading.readOperator_ensures (left : Subtree) (around : Surroundings)
    (operator : Operator) (position : Nat) :
    Outcome.Ensures failure (fun _ => True)
      (readOperator limit left around operator position) :=
  (Pending.fillAll_ensures deep left _).bind fun _ _ => await_ensures deep _ _

end Depth

/-! ## What a step reports as out of place -/

/-- If a failure says that a token is out of place, it is the one at this position;
without a position no failure says so. -/
abbrev Blames {Result : Type} (place : Option Nat) (outcome : Except SyntaxError Result) : Prop :=
  Outcome.Ensures (fun error => error.isMisplaced = true -> place = some error.position)
    (fun _ => True) outcome

namespace Reading

variable (limit : Nat) {token : Token} {position : Nat}

theorem readOperand_blames (around : Surroundings) :
    Blames (some position) (readOperand limit around token position) := by
  cases token with
  | number value | identifier name => trivial
  | openParen => exact (around.descend_ensures (fun _ => nofun) _).bind fun _ _ => trivial
  | operator operator =>
      dsimp only [readOperand]
      split
      · exact await_ensures (fun _ => nofun) around _
      · exact fun _ => rfl
  | closeParen | comma | endOfInput => exact fun _ => rfl

theorem readDelimiter_blames (whole : Subtree) (enclosures : List (Enclosure × List Pending)) :
    Blames (some position) (readDelimiter limit whole enclosures token position) := by
  unfold readDelimiter
  split
  · exact fun _ => rfl
  · exact fun _ => rfl
  · trivial
  · exact nofun
  · exact closeArguments_ensures (fun _ => nofun) _ _ _
  · trivial
  · exact fun _ => rfl

/-- A step says at most of its own token that it is out of place. -/
theorem step_blames (reading : Reading) :
    Blames (some position) (reading.step limit token position) := by
  cases reading with
  | beforeOperand around => exact readOperand_blames limit around
  | afterName callee around =>
      cases token with
      | openParen => exact (around.descend_ensures (fun _ => nofun) _).bind fun _ _ => trivial
      | _ => exact nofun
  | beforeArguments callee opened around =>
      by_cases closes : token = .closeParen
      · subst closes
        exact closeArguments_ensures (fun _ => nofun) callee [] around
      · rw [step_beforeArguments closes]
        exact readOperand_blames limit _
  | afterOperand operand around =>
      cases token with
      | operator operator =>
          exact readOperator_ensures (fun _ => nofun) operand around operator position
      | _ =>
          exact (Pending.fillAll_ensures (fun _ => nofun) operand _).bind fun whole _ =>
            readDelimiter_blames limit whole _

/-- At the end of the input nothing is out of place; something may be missing. -/
theorem conclude_blames (reading : Reading) : Blames none (reading.conclude limit position) := by
  cases reading with
  | beforeOperand around | afterName callee around | beforeArguments callee opened around =>
      exact nofun
  | afterOperand operand around =>
      refine (Pending.fillAll_ensures (fun _ => nofun) operand _).bind fun whole _ => ?_
      split
      · trivial
      · exact nofun

end Reading

/-! ## Runs cut into steps -/

namespace Reading

variable {limit : Nat}

/-- The place that some tokens lead to. -/
def walk (limit : Nat) (reading : Reading) (lexemes : List Lexeme) : Except SyntaxError Reading :=
  lexemes.foldlM (fun reading lexeme => reading.step limit lexeme.token lexeme.position) reading

theorem walk_cons (reading : Reading) (lexeme : Lexeme) (lexemes : List Lexeme) :
    reading.walk limit (lexeme :: lexemes) =
      reading.step limit lexeme.token lexeme.position >>= fun next => next.walk limit lexemes :=
  List.foldlM_cons

/-- The reading of a list that is cut somewhere before its end is the reading of
the second part from the place that the first part leads to. -/
theorem run_append {before : List Lexeme} (reading : Reading) (last : Nat) (ahead : List Lexeme)
    (inside : forall lexeme, lexeme ∈ before -> lexeme.token ≠ .endOfInput) :
    reading.run limit last (before ++ ahead) =
      reading.walk limit before >>= fun reached =>
        reached.run limit (lastPosition last before) ahead := by
  induction before generalizing reading last with
  | nil => rfl
  | cons lexeme before ih =>
      rcases List.forall_mem_cons.mp inside with ⟨goesOn, later⟩
      rw [List.cons_append, run_cons goesOn, walk_cons]
      cases reading.step limit lexeme.token lexeme.position with
      | error error => rfl
      | ok next => exact ih next lexeme.position later

/-- The step over the offending token fails like this, and the tokens before it
lead to the place of that step. -/
structure RefusesAt (limit : Nat) (reading : Reading) (before : List Lexeme)
    (offending : Lexeme) (error : SyntaxError) : Prop where
  inside : forall lexeme, lexeme ∈ before -> lexeme.token ≠ .endOfInput
  goesOn : offending.token ≠ .endOfInput
  refused : Exists fun reached : Reading => reading.walk limit before = .ok reached ∧
    reached.step limit offending.token offending.position = .error error

/-- What follows the offending token is not looked at. -/
theorem RefusesAt.run_eq {reading : Reading} {before : List Lexeme} {offending : Lexeme}
    {error : SyntaxError} (refuses : reading.RefusesAt limit before offending error)
    (last : Nat) (other : List Lexeme) :
    reading.run limit last (before ++ offending :: other) = .error error := by
  rcases refuses.refused with ⟨reached, walked, failed⟩
  rw [run_append reading last _ refuses.inside, walked]
  change reached.run limit _ (offending :: other) = _
  rw [run_cons refuses.goesOn, failed]
  rfl

/-- Where a reading ends with a token out of place, the step over that token has
failed. -/
theorem exists_refusesAt {reading : Reading} {last : Nat} {ahead : List Lexeme}
    {error : SyntaxError} (failed : reading.run limit last ahead = .error error)
    (misplaced : error.isMisplaced = true) :
    Exists fun before : List Lexeme => Exists fun offending : Lexeme =>
      Exists fun after : List Lexeme => ahead = before ++ offending :: after ∧
        error.position = offending.position ∧ reading.RefusesAt limit before offending error := by
  induction ahead generalizing reading last with
  | nil =>
      have blames : Blames none (reading.run limit last []) :=
        (conclude_blames limit reading).bind fun _ _ => nofun
      rw [failed] at blames
      cases blames misplaced
  | cons lexeme rest ih =>
      rcases lexeme with ⟨token, position⟩
      by_cases ends : token = .endOfInput
      · subst ends
        have blames : Blames none (reading.run limit last (⟨.endOfInput, position⟩ :: rest)) :=
          conclude_blames limit reading
        rw [failed] at blames
        cases blames misplaced
      · rw [run_cons ends] at failed
        rcases Outcome.bind_eq_error_iff.mp failed with refused | ⟨next, stepped, failedLater⟩
        · have blames : Blames (some position) (reading.step limit token position) :=
            step_blames limit reading
          rw [refused] at blames
          refine ⟨[], ⟨token, position⟩, rest, rfl, ?_, nofun, ends, reading, rfl, refused⟩
          exact (Option.some.inj (blames misplaced)).symm
        · rcases ih failedLater with ⟨before, offending, after, rfl, place, refuses⟩
          rcases refuses.refused with ⟨reached, walked, refused⟩
          refine ⟨⟨token, position⟩ :: before, offending, after, rfl, place, ?_, refuses.goesOn,
            reached, ?_, refused⟩
          · exact List.forall_mem_cons.mpr ⟨ends, refuses.inside⟩
          · rw [walk_cons, stepped]
            exact walked

/-- A place that tokens lead to covers them. -/
theorem walk_covers {reading reached : Reading} {lexemes more : List Lexeme}
    (covered : reading.Covers limit lexemes) (walked : reading.walk limit more = .ok reached) :
    reached.Covers limit (lexemes ++ more) := by
  induction more generalizing reading lexemes with
  | nil =>
      cases walked
      rw [List.append_nil]
      exact covered
  | cons lexeme more ih =>
      rw [walk_cons] at walked
      rcases Outcome.bind_eq_ok_iff.mp walked with ⟨next, stepped, walkedLater⟩
      have longer := ih (step_covers covered stepped) walkedLater
      rw [List.append_assoc] at longer
      exact longer

end Reading

/-! ## Completing what has been read -/

section Completion

variable {limit : Nat}

/-- An operand that fits its place makes an expression of everything pending. -/
theorem Pending.Covers.completes {base : Nat} {pending : List Pending} {lexemes : List Lexeme}
    (covered : Covers limit base pending lexemes) {category : Category} {stretch : List Lexeme}
    {tree : Expr} {descents : Nat} (derived : Derives category stretch tree descents)
    (fits : category.rank ≤ (innermostSlot pending).rank) :
    Exists fun whole : Expr => Exists fun more : Nat =>
      Derives .expression (lexemes ++ stretch) whole more := by
  induction covered generalizing category stretch tree descents with
  | nothing shallow => exact ⟨tree, descents, derived.loosen fits⟩
  | signed position covered written shallow ih =>
      rw [List.append_assoc]
      exact ih (.signed position written (derived.loosen fits)) (unary_fits _)
  | binary operator position covered leftDerived operatorFits leftShallow shallow ih =>
      rw [List.append_assoc, List.append_assoc]
      exact ih (.binary operator position leftDerived (derived.loosen fits)) operatorFits

/-- One more argument goes on with the argument list. -/
theorem Enclosure.CoversArguments.derives {level : Nat} {reversed : List Subtree}
    {lexemes stretch : List Lexeme} {tree : Expr} {descents : Nat}
    (covered : CoversArguments limit level reversed lexemes)
    (derived : Derives .expression stretch tree descents) :
    Exists fun arguments : List Expr => Exists fun more : Nat =>
      DerivesArguments (lexemes ++ stretch) arguments more := by
  cases reversed with
  | nil =>
      subst covered
      exact ⟨[tree], descents, .first derived⟩
  | cons previous earlier =>
      rcases covered with ⟨before, position, fewer, rfl, read, _⟩
      rw [List.append_assoc]
      exact ⟨_, _, .next position read derived⟩

/-- Closing parentheses make an expression of an expression in enclosures. -/
theorem Enclosure.Covers.completes {enclosures : List (Enclosure × List Pending)}
    {front : List Lexeme} (covered : Covers limit enclosures front) {stretch : List Lexeme}
    {tree : Expr} {descents : Nat} (derived : Derives .expression stretch tree descents) :
    Exists fun closing : List Lexeme => Exists fun whole : Expr => Exists fun more : Nat =>
      Derives .expression (front ++ stretch ++ closing) whole more := by
  induction covered generalizing stretch tree descents with
  | nothing =>
      refine ⟨[], tree, descents, ?_⟩
      rw [List.append_nil]
      exact derived
  | group opened enclosed held shallow ih =>
      rcases held.completes (.group opened 0 derived) (Nat.zero_le _) with ⟨inner, _, whole⟩
      rcases ih whole with ⟨closing, outer, more, all⟩
      refine ⟨⟨.closeParen, 0⟩ :: closing, outer, more, ?_⟩
      simpa using all
  | call callee opened enclosed held shallow read ih =>
      rcases read.derives derived with ⟨arguments, deepest, list⟩
      rcases held.completes (.call callee.name callee.position opened 0 list) (Nat.zero_le _) with
        ⟨inner, _, whole⟩
      rcases ih whole with ⟨closing, outer, more, all⟩
      refine ⟨⟨.closeParen, 0⟩ :: closing, outer, more, ?_⟩
      simpa using all

theorem Surroundings.Covers.completes {around : Surroundings} {lexemes stretch : List Lexeme}
    {tree : Expr} {descents : Nat} (covered : around.Covers limit lexemes)
    (derived : Derives .primary stretch tree descents) :
    Exists fun closing : List Lexeme => Exists fun whole : Expr => Exists fun more : Nat =>
      Derives .expression (lexemes ++ stretch ++ closing) whole more := by
  rcases covered with ⟨front, back, rfl, enclosed, held⟩
  rcases held.completes derived (Nat.zero_le _) with ⟨inner, _, whole⟩
  rcases enclosed.completes whole with ⟨closing, outer, more, all⟩
  refine ⟨closing, outer, more, ?_⟩
  rw [List.append_assoc front]
  exact all

/-- Every place can be completed: with an operand where one is due, the rest of a
call that has begun, and closing parentheses. -/
theorem Reading.Covers.completes {reading : Reading} {lexemes : List Lexeme}
    (covered : reading.Covers limit lexemes) :
    Exists fun completion : List Lexeme => Exists fun tree : Expr => Exists fun descents : Nat =>
      Derives .expression (lexemes ++ completion) tree descents := by
  cases reading with
  | beforeOperand around =>
      rcases Surroundings.Covers.completes covered (.number 0 0) with ⟨closing, all⟩
      refine ⟨⟨.number 0, 0⟩ :: closing, ?_⟩
      simpa using all
  | afterName callee around =>
      rcases covered with ⟨before, rfl, aroundCovered⟩
      rcases aroundCovered.completes (.emptyCall callee.name callee.position 0 0) with
        ⟨closing, all⟩
      refine ⟨⟨.openParen, 0⟩ :: ⟨.closeParen, 0⟩ :: closing, ?_⟩
      simpa using all
  | beforeArguments callee opened around =>
      rcases covered with ⟨before, rfl, aroundCovered, _⟩
      rcases aroundCovered.completes (.emptyCall callee.name callee.position opened 0) with
        ⟨closing, all⟩
      refine ⟨⟨.closeParen, 0⟩ :: closing, ?_⟩
      simpa using all
  | afterOperand operand around =>
      rcases covered with ⟨before, stretch, descents, rfl, aroundCovered, derived, _⟩
      exact aroundCovered.completes derived

/-- What the grammar derives is accepted under some limit. -/
theorem Derives.exists_accepted {lexemes : List Lexeme} {tree : Expr} {descents : Nat}
    (derived : Derives .expression lexemes tree descents) :
    Exists fun limit : Nat => Expr.ofLexemes limit (lexemes ++ [⟨.endOfInput, 0⟩]) = .ok tree := by
  have positive : 1 ≤ max descents tree.height :=
    Nat.le_trans tree.height_pos (Nat.le_max_right _ _)
  exact ⟨_, (derived.ofLexemes_within positive 0 []).1
    ⟨Nat.le_max_left _ _, Nat.le_max_right _ _⟩⟩

end Completion

/-! ## The offending token -/

/-- Where positions increase, a list is cut at a position in only one way. -/
theorem cut_unique {before earlier after later : List Lexeme} {offending other : Lexeme}
    (increasing : (before ++ offending :: after).Pairwise
      fun first second => first.position < second.position)
    (same : before ++ offending :: after = earlier ++ other :: later)
    (place : offending.position = other.position) : before = earlier ∧ offending = other := by
  induction before generalizing earlier with
  | nil =>
      cases earlier with
      | nil => exact ⟨rfl, (List.cons.inj same).1⟩
      | cons lexeme earlier =>
          rcases List.cons.inj same with ⟨rfl, rest⟩
          have further := (List.pairwise_cons.mp increasing).1 other (by simp [rest])
          exact absurd place (Nat.ne_of_lt further)
  | cons lexeme before ih =>
      rcases List.pairwise_cons.mp increasing with ⟨further, increasingRest⟩
      cases earlier with
      | nil =>
          rcases List.cons.inj same with ⟨rfl, rest⟩
          exact absurd place.symm (Nat.ne_of_lt (further offending (by simp)))
      | cons first earlier =>
          rcases List.cons.inj same with ⟨rfl, rest⟩
          rcases ih increasingRest rest with ⟨rfl, rfl⟩
          exact ⟨rfl, rfl⟩

namespace Expr

/-- The reader begins with any list that does not end at once. -/
theorem ofLexemes_eq_run {limit : Nat} {before : List Lexeme} {offending : Lexeme}
    (inside : forall lexeme, lexeme ∈ before -> lexeme.token ≠ .endOfInput)
    (goesOn : offending.token ≠ .endOfInput) (other : List Lexeme) :
    ofLexemes limit (before ++ offending :: other) =
      Reading.start.run limit 0 (before ++ offending :: other) := by
  cases before with
  | nil => exact ofLexemes_cons goesOn
  | cons first before => exact ofLexemes_cons (inside first (List.mem_cons_self ..))

/-- A token that is out of place is reported by the step over it. -/
theorem exists_refusesAt {limit : Nat} {lexemes : List Lexeme} {error : SyntaxError}
    (failed : ofLexemes limit lexemes = .error error) (misplaced : error.isMisplaced = true) :
    Exists fun before : List Lexeme => Exists fun offending : Lexeme =>
      Exists fun after : List Lexeme => lexemes = before ++ offending :: after ∧
        error.position = offending.position ∧
          Reading.start.RefusesAt limit before offending error := by
  unfold ofLexemes at failed
  split at failed
  · cases failed
    cases misplaced
  · cases failed
    cases misplaced
  · exact Reading.exists_refusesAt failed misplaced

/-- A token that is out of place is so under every limit. -/
theorem ofLexemes_ne_ok {limit : Nat} {lexemes : List Lexeme} {error : SyntaxError}
    (failed : ofLexemes limit lexemes = .error error) (misplaced : error.isMisplaced = true)
    (another : Nat) (tree : Expr) : ofLexemes another lexemes ≠ .ok tree := by
  intro accepted
  have agrees := ofLexemes_agrees (Nat.le_max_left limit another) lexemes
  have acceptedAbove := ofLexemes_agrees (Nat.le_max_right limit another) lexemes
  rw [accepted] at acceptedAbove
  rw [failed, acceptedAbove.eq_of_ok] at agrees
  rcases agrees with same | ⟨cause, ⟨position, rfl⟩, same⟩
  · cases same
  · cases same
    cases misplaced

/-- Where the lexemes of a text are refused because a token is out of place, the
position of the error is that of a token.  However one goes on after this token, the
error is the same under the limit, and under no limit is there a tree.  The tokens
before it begin a list that is accepted under some limit. -/
theorem misplaced_token_is_first (limit : Nat) (text : String) (lexemes : List Lexeme)
    (error : SyntaxError) (split : tokenize text = .ok lexemes)
    (failed : ofLexemes limit lexemes = .error error) (misplaced : error.isMisplaced = true) :
    (Exists fun before : List Lexeme => Exists fun offending : Lexeme =>
      Exists fun after : List Lexeme => lexemes = before ++ offending :: after ∧
        error.position = offending.position) ∧
    forall (before : List Lexeme) (offending : Lexeme) (after : List Lexeme),
      lexemes = before ++ offending :: after -> error.position = offending.position ->
        (forall other : List Lexeme,
          ofLexemes limit (before ++ offending :: other) = .error error) ∧
        (forall (another : Nat) (other : List Lexeme) (tree : Expr),
          ofLexemes another (before ++ offending :: other) ≠ .ok tree) ∧
        Exists fun completion : List Lexeme => Exists fun another : Nat =>
          Exists fun tree : Expr => ofLexemes another (before ++ completion) = .ok tree := by
  rcases exists_refusesAt failed misplaced with ⟨before, offending, after, rfl, place, refuses⟩
  refine ⟨⟨before, offending, after, rfl, place⟩, ?_⟩
  intro earlier other later same placeOther
  have increasing := ((tokenize_eq_ok_iff _ _).mp split).increasing
  rcases cut_unique increasing same (place.symm.trans placeOther) with ⟨rfl, rfl⟩
  have sameError (other : List Lexeme) :
      ofLexemes limit (before ++ offending :: other) = .error error := by
    rw [ofLexemes_eq_run refuses.inside refuses.goesOn]
    exact refuses.run_eq 0 other
  refine ⟨sameError, fun another other tree => ofLexemes_ne_ok (sameError other) misplaced another
    tree, ?_⟩
  rcases refuses.refused with ⟨reached, walked, _⟩
  rcases (Reading.walk_covers Reading.start_covers walked).completes with
    ⟨completion, tree, descents, derived⟩
  rcases derived.exists_accepted with ⟨another, accepted⟩
  rw [List.nil_append, List.append_assoc] at accepted
  exact ⟨_, another, tree, accepted⟩

/-- After the comma an argument is due, inside the call and the sign around it. -/
theorem misplaced_token_is_first_argument :
    let before : List Lexeme := [⟨.operator .subtract, 0⟩, ⟨.identifier "max", 1⟩, ⟨.openParen, 4⟩,
      ⟨.number 2, 5⟩, ⟨.comma, 6⟩]
    tokenize "-max(2,)3" =
        .ok (before ++ [⟨.closeParen, 7⟩, ⟨.number 3, 8⟩, ⟨.endOfInput, 9⟩]) ∧
      ofLexemes 2 (before ++ [⟨.closeParen, 7⟩, ⟨.number 3, 8⟩, ⟨.endOfInput, 9⟩]) =
        .error (.unexpectedToken .closeParen 7) ∧
      (SyntaxError.unexpectedToken .closeParen 7).isMisplaced = true ∧
      (forall other : List Lexeme, ofLexemes 2 (before ++ ⟨.closeParen, 7⟩ :: other) =
        .error (.unexpectedToken .closeParen 7)) ∧
      Exists fun completion : List Lexeme => Exists fun another : Nat =>
        Exists fun tree : Expr => ofLexemes another (before ++ completion) = .ok tree := by
  intro before
  have split : tokenize "-max(2,)3" =
      .ok (before ++ [⟨.closeParen, 7⟩, ⟨.number 3, 8⟩, ⟨.endOfInput, 9⟩]) := rfl
  have failed : ofLexemes 2 (before ++ [⟨.closeParen, 7⟩, ⟨.number 3, 8⟩, ⟨.endOfInput, 9⟩]) =
      .error (.unexpectedToken .closeParen 7) := rfl
  have first := (misplaced_token_is_first 2 _ _ _ split failed rfl).2 before ⟨.closeParen, 7⟩
    [⟨.number 3, 8⟩, ⟨.endOfInput, 9⟩] rfl rfl
  exact ⟨split, failed, rfl, first.1, first.2.2⟩

end Expr

end DeskCalculator

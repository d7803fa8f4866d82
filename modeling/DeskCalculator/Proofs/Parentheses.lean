import DeskCalculator.Proofs.ViablePrefix

namespace DeskCalculator

/-!
# Errors about parentheses

The parentheses of some lexemes match by the usual rule: an opening one is put on
a stack, and a closing one takes the topmost from it.  This looks at no other
token and knows nothing of expressions.

What the grammar derives is balanced, so the stack before a token consists of the
enclosures of the place that the reader has reached there.  A closing parenthesis
that is reported as unmatched meets an empty stack.  An opening one that is
reported as unclosed lies on top of the stack, at the end of the input or at a
token with which a group cannot go on.  In the second case a closing parenthesis
may still follow, and the report is wrong if it does.
-/

/-- The positions of the open parentheses after one more lexeme, the innermost
first. -/
def Lexeme.nest (opened : List Nat) (lexeme : Lexeme) : List Nat :=
  match lexeme.token with
  | .openParen => lexeme.position :: opened
  | .closeParen => opened.tail
  | _ => opened

/-- The positions of the open parentheses after some more lexemes, the innermost
first. -/
def openAfter (opened : List Nat) (lexemes : List Lexeme) : List Nat :=
  lexemes.foldl Lexeme.nest opened

/-- The positions of the parentheses that match, where some are open before the
lexemes. -/
def matchedParens (opened : List Nat) : List Lexeme -> List (Nat × Nat)
  | [] => []
  | lexeme :: rest =>
      let later := matchedParens (lexeme.nest opened) rest
      match lexeme.token, opened with
      | .closeParen, innermost :: _ => (innermost, lexeme.position) :: later
      | _, _ => later

/-- A closing parenthesis stands at the position, and it matches no opening one. -/
def IsUnmatched (lexemes : List Lexeme) (position : Nat) : Prop :=
  ⟨.closeParen, position⟩ ∈ lexemes ∧
    forall opened : Nat, (opened, position) ∉ matchedParens [] lexemes

/-- An opening parenthesis stands at the position, and no closing one matches it. -/
def IsUnclosed (lexemes : List Lexeme) (position : Nat) : Prop :=
  ⟨.openParen, position⟩ ∈ lexemes ∧
    forall closed : Nat, (position, closed) ∉ matchedParens [] lexemes

/-- Whether the last lexeme is a name, so that an opening parenthesis after it
begins an argument list and no group. -/
def endsWithName (lexemes : List Lexeme) : Bool :=
  match lexemes.getLast? with
  | some ⟨.identifier _, _⟩ => true
  | _ => false

/-- A group begins at the position, and behind a complete expression it has a token
with which it neither ends nor goes on, although the input does. -/
def IsCutShort (lexemes : List Lexeme) (position : Nat) : Prop :=
  Exists fun before : List Lexeme => Exists fun inside : List Lexeme =>
    Exists fun next : Lexeme => Exists fun after : List Lexeme =>
      lexemes = before ++ ⟨.openParen, position⟩ :: (inside ++ next :: after) ∧
        endsWithName before = false ∧
        (Exists fun tree : Expr => Exists fun descents : Nat =>
          Derives .expression inside tree descents) ∧
        next.token ≠ .closeParen ∧ next.token ≠ .endOfInput ∧ next.token.operator? = none

/-! ## Matching -/

section Matching

variable {opened : List Nat} {lexemes before after : List Lexeme} {position : Nat}

theorem openAfter_append (opened : List Nat) (first second : List Lexeme) :
    openAfter opened (first ++ second) = openAfter (openAfter opened first) second :=
  List.foldl_append

theorem matchedParens_append (opened : List Nat) (first second : List Lexeme) :
    matchedParens opened (first ++ second) =
      matchedParens opened first ++ matchedParens (openAfter opened first) second := by
  induction first generalizing opened with
  | nil => rfl
  | cons lexeme first ih =>
      simp only [List.cons_append, matchedParens, ih, openAfter, List.foldl_cons]
      split <;> rfl

/-- What is open after some lexemes was open before or is opened by one of them. -/
theorem mem_openAfter (member : position ∈ openAfter opened lexemes) :
    position ∈ opened ∨ position ∈ lexemes.map Lexeme.position := by
  induction lexemes generalizing opened with
  | nil => exact .inl member
  | cons lexeme rest ih =>
      rcases ih member with stacked | later
      · rw [Lexeme.nest] at stacked
        split at stacked
        · rcases List.mem_cons.mp stacked with rfl | earlier
          · exact .inr (List.mem_cons_self ..)
          · exact .inl earlier
        · exact .inl (List.mem_of_mem_tail stacked)
        · exact .inl stacked
      · exact .inr (List.mem_cons_of_mem _ later)

/-- The second of two matching parentheses is a closing one among the lexemes. -/
theorem closeParen_of_matched {closed : Nat}
    (matched : (position, closed) ∈ matchedParens opened lexemes) :
    ⟨.closeParen, closed⟩ ∈ lexemes := by
  induction lexemes generalizing opened with
  | nil => cases matched
  | cons lexeme rest ih =>
      rcases lexeme with ⟨token, place⟩
      simp only [matchedParens] at matched
      split at matched
      · next innermost outer =>
          rcases List.mem_cons.mp matched with same | later
          · cases same
            exact List.mem_cons_self ..
          · exact List.mem_cons_of_mem _ (ih later)
      · exact List.mem_cons_of_mem _ (ih matched)

/-- Where all positions differ, what stays open matches nothing. -/
theorem not_matched_of_openAfter (distinct : (opened ++ lexemes.map Lexeme.position).Nodup)
    (stays : position ∈ openAfter opened lexemes) (closed : Nat) :
    (position, closed) ∉ matchedParens opened lexemes := by
  induction lexemes generalizing opened with
  | nil => exact nofun
  | cons lexeme rest ih =>
      rcases lexeme with ⟨token, place⟩
      have fewer : (opened ++ rest.map Lexeme.position).Nodup :=
        distinct.sublist ((List.sublist_cons_self _ _).append_left opened)
      have later (nested : (Lexeme.nest opened ⟨token, place⟩ ++
          rest.map Lexeme.position).Nodup) := ih nested stays
      simp only [matchedParens]
      split
      · next innermost outer =>
          have shorter : (outer ++ rest.map Lexeme.position).Nodup :=
            (List.nodup_cons.mp fewer).2
          intro matched
          rcases List.mem_cons.mp matched with same | found
          · cases same
            have again : position ∈ outer ++ rest.map Lexeme.position :=
              List.mem_append.mpr (mem_openAfter stays)
            exact (List.nodup_cons.mp fewer).1 again
          · exact later shorter found
      · next other =>
          apply later
          cases token with
          | openParen =>
              exact (List.perm_middle.nodup_iff).mp distinct
          | closeParen =>
              cases opened with
              | nil => exact fewer
              | cons innermost outer => exact absurd rfl (other innermost outer rfl)
          | _ => exact fewer

end Matching

/-- The lexemes open and close parentheses among themselves only. -/
def IsBalanced (lexemes : List Lexeme) : Prop :=
  forall opened : List Nat, openAfter opened lexemes = opened

namespace IsBalanced

variable {first second inside : List Lexeme}

theorem append (balanced : IsBalanced first) (further : IsBalanced second) :
    IsBalanced (first ++ second) := by
  intro opened
  rw [openAfter_append, balanced, further]

theorem cons {lexeme : Lexeme} (flat : forall opened : List Nat, lexeme.nest opened = opened)
    (balanced : IsBalanced first) : IsBalanced (lexeme :: first) := by
  intro opened
  rw [openAfter, List.foldl_cons, flat]
  exact balanced opened

theorem enclosed (balanced : IsBalanced inside) (opened closed : Nat) :
    IsBalanced (⟨.openParen, opened⟩ :: (inside ++ [⟨.closeParen, closed⟩])) := by
  intro before
  rw [openAfter, List.foldl_cons, List.foldl_append]
  exact congrArg List.tail (balanced _)

end IsBalanced

mutual

theorem Derives.isBalanced {category : Category} {lexemes : List Lexeme} {tree : Expr}
    {descents : Nat} : Derives category lexemes tree descents -> IsBalanced lexemes
  | .number _ _ => fun _ => rfl
  | .emptyCall _ _ _ _ => fun _ => rfl
  | .call _ _ opened closed inside =>
      .cons (fun _ => rfl) (inside.isBalanced.enclosed opened closed)
  | .group opened closed inside => inside.isBalanced.enclosed opened closed
  | .signed _ _ operand => .cons (fun _ => rfl) operand.isBalanced
  | .binary _ _ left right => left.isBalanced.append (.cons (fun _ => rfl) right.isBalanced)
  | .tighter _ narrow => narrow.isBalanced

theorem DerivesArguments.isBalanced {lexemes : List Lexeme} {arguments : List Expr}
    {descents : Nat} : DerivesArguments lexemes arguments descents -> IsBalanced lexemes
  | .first argument => argument.isBalanced
  | .next _ before argument => before.isBalanced.append (.cons (fun _ => rfl) argument.isBalanced)

end

/-! ## What is open at a place -/

section Places

variable {limit : Nat}

theorem endsWithName_append (first second : List Lexeme) :
    endsWithName (first ++ second) =
      if second = [] then endsWithName first else endsWithName second := by
  rw [endsWithName, List.getLast?_append]
  cases last : second.getLast? with
  | none =>
      rw [if_pos (List.getLast?_eq_none_iff.mp last)]
      rfl
  | some lexeme =>
      rw [if_neg (by rintro rfl; cases last), endsWithName, last]
      rfl

/-- What is pending has opened no parenthesis that is still open, and its last
token is an operator or a sign. -/
theorem Pending.Covers.isBalanced {base : Nat} {pending : List Pending} {lexemes : List Lexeme}
    (covered : Covers limit base pending lexemes) :
    IsBalanced lexemes ∧ endsWithName lexemes = false := by
  induction covered with
  | nothing _ => exact ⟨fun _ => rfl, rfl⟩
  | signed position _ _ _ ih =>
      exact ⟨ih.1.append (.cons (fun _ => rfl) fun _ => rfl), endsWithName_append _ _⟩
  | binary operator position _ derived _ _ _ ih =>
      exact ⟨(ih.1.append derived.isBalanced).append (.cons (fun _ => rfl) fun _ => rfl),
        endsWithName_append _ _⟩

/-- The arguments before the last comma of a call are balanced. -/
theorem Enclosure.CoversArguments.isBalanced {level : Nat} {reversed : List Subtree}
    {lexemes : List Lexeme} (covered : CoversArguments limit level reversed lexemes) :
    IsBalanced lexemes ∧ endsWithName lexemes = false := by
  cases reversed with
  | nil =>
      cases covered
      exact ⟨fun _ => rfl, rfl⟩
  | cons previous earlier =>
      rcases covered with ⟨before, position, descents, rfl, read, _⟩
      exact ⟨read.isBalanced.append (.cons (fun _ => rfl) fun _ => rfl), endsWithName_append _ _⟩

/-- The positions of the opening parentheses of some enclosures. -/
def Enclosure.openedAt (enclosures : List (Enclosure × List Pending)) : List Nat :=
  enclosures.map fun enclosed => enclosed.1.opened

/-- The open parentheses are those of the enclosures. -/
theorem Enclosure.Covers.openAfter_eq {enclosures : List (Enclosure × List Pending)}
    {lexemes : List Lexeme} (covered : Covers limit enclosures lexemes) :
    openAfter [] lexemes = openedAt enclosures ∧ endsWithName lexemes = false := by
  induction covered with
  | nothing => exact ⟨rfl, rfl⟩
  | @group opened pending outer front back enclosed held shallow ih =>
      refine ⟨?_, endsWithName_append _ _⟩
      rw [openAfter_append, openAfter_append, ih.1, held.isBalanced.1]
      rfl
  | @call callee opened reversed pending outer front back arguments enclosed held shallow read ih =>
      constructor
      · rw [openAfter_append, openAfter_append, ih.1, held.isBalanced.1]
        exact read.isBalanced.1 _
      · rw [endsWithName_append, if_neg (List.cons_ne_nil _ _)]
        have behind := endsWithName_append
          [⟨.identifier callee.name, callee.position⟩, ⟨.openParen, opened⟩] arguments
        rw [read.isBalanced.2] at behind
        exact behind.trans (ite_self false)

end Places

/-! ## What a step tells about parentheses -/

/-- What an error about a parenthesis tells of the lexemes before the next one. -/
def SyntaxError.TellsOf (lexemes : List Lexeme) (next : Lexeme) : SyntaxError -> Prop
  | .unmatchedParen position => next = ⟨.closeParen, position⟩ ∧ openAfter [] lexemes = []
  | .unclosedParen position =>
      Exists fun before : List Lexeme => Exists fun inside : List Lexeme =>
        lexemes = before ++ ⟨.openParen, position⟩ :: inside ∧ IsBalanced inside ∧
          (next.token = .endOfInput ∨
            endsWithName before = false ∧
              (Exists fun tree : Expr => Exists fun descents : Nat =>
                Derives .expression inside tree descents) ∧
              next.token ≠ .closeParen ∧ next.token.operator? = none)
  | _ => True

/-- If a failure is about a parenthesis, it tells this of the lexemes. -/
abbrev Tells {Result : Type} (lexemes : List Lexeme) (next : Lexeme)
    (outcome : Except SyntaxError Result) : Prop :=
  Outcome.Ensures (SyntaxError.TellsOf lexemes next) (fun _ => True) outcome

namespace Reading

variable {limit : Nat} {lexemes front stretch : List Lexeme} {token : Token} {position : Nat}

theorem readOperand_tells (around : Surroundings) :
    Tells lexemes ⟨token, position⟩ (readOperand limit around token position) := by
  cases token with
  | openParen => exact (around.descend_ensures (fun _ => trivial) _).bind fun _ _ => trivial
  | operator operator =>
      dsimp only [readOperand]
      split
      · exact await_ensures (fun _ => trivial) around _
      · trivial
  | _ => trivial

/-- Behind a complete expression a closing parenthesis is unmatched only outside of
all parentheses, and only a group may be cut short. -/
theorem readDelimiter_tells {enclosures : List (Enclosure × List Pending)} {whole : Subtree}
    {descents : Nat} (enclosed : Enclosure.Covers limit enclosures front)
    (derived : Derives .expression stretch whole.expr descents) (other : token.operator? = none) :
    Tells (front ++ stretch) ⟨token, position⟩
      (readDelimiter limit whole enclosures token position) := by
  cases enclosed with
  | nothing =>
      cases token with
      | closeParen => exact ⟨rfl, derived.isBalanced []⟩
      | _ => trivial
  | @group opened pending outer before behind enclosed held shallow =>
      cases token with
      | closeParen => trivial
      | _ =>
          have noName : endsWithName (before ++ behind) = false := by
            rw [endsWithName_append, held.isBalanced.2, enclosed.openAfter_eq.2, ite_self]
          exact ⟨_, _, List.append_assoc .., derived.isBalanced,
            .inr ⟨noName, ⟨_, _, derived⟩, by simp, other⟩⟩
  | call callee opened enclosed held shallow read =>
      cases token with
      | closeParen => exact closeArguments_ensures (fun _ => trivial) _ _ _
      | _ => trivial

theorem step_tells {reading : Reading} (covered : reading.Covers limit lexemes) :
    Tells lexemes ⟨token, position⟩ (reading.step limit token position) := by
  cases reading with
  | beforeOperand around => exact readOperand_tells around
  | afterName callee around =>
      cases token with
      | openParen => exact (around.descend_ensures (fun _ => trivial) _).bind fun _ _ => trivial
      | _ => trivial
  | beforeArguments callee opened around =>
      by_cases closes : token = .closeParen
      · subst closes
        exact closeArguments_ensures (fun _ => trivial) callee [] around
      · rw [step_beforeArguments closes]
        exact readOperand_tells _
  | afterOperand operand around =>
      rcases covered with ⟨before, stretch, descents, rfl, aroundCovered, derived, shallow, low⟩
      cases token with
      | operator operator =>
          exact readOperator_ensures (fun _ => trivial) operand around operator position
      | _ =>
          refine (Pending.fillAll_ensures (fun _ => trivial) operand _).remember.bind
            fun whole filled => ?_
          rcases fillAll_covers aroundCovered derived shallow low filled with
            ⟨front, back, more, split, enclosed, wholeDerived, _⟩
          rw [split]
          exact readDelimiter_tells enclosed wholeDerived rfl

/-- At the end of the input the innermost parenthesis that is still open is unclosed. -/
theorem conclude_tells {reading : Reading} (covered : reading.Covers limit lexemes) :
    Tells lexemes ⟨.endOfInput, position⟩ (reading.conclude limit position) := by
  cases reading with
  | beforeOperand around | afterName callee around | beforeArguments callee opened around =>
      trivial
  | afterOperand operand around =>
      rcases covered with ⟨before, stretch, descents, rfl, aroundCovered, derived, shallow, low⟩
      refine (Pending.fillAll_ensures (fun _ => trivial) operand _).remember.bind
        fun whole filled => ?_
      rcases fillAll_covers aroundCovered derived shallow low filled with
        ⟨front, back, more, split, enclosed, wholeDerived, _⟩
      rw [split]
      generalize around.enclosures = enclosures at enclosed
      cases enclosed with
      | nothing => trivial
      | group opened enclosed held shallow =>
          exact ⟨_, _, List.append_assoc .., wholeDerived.isBalanced, .inl rfl⟩
      | @call callee opened reversed pending outer before behind arguments enclosed held _ read =>
          refine ⟨before ++ behind ++ [⟨.identifier callee.name, callee.position⟩],
            arguments ++ back, ?_, read.isBalanced.1.append wholeDerived.isBalanced, .inl rfl⟩
          simp [Enclosure.opened]

/-- An error about a parenthesis tells of the lexemes before some place. -/
theorem run_tells {reading : Reading} {last : Nat} {ahead : List Lexeme} {error : SyntaxError}
    (covered : reading.Covers limit lexemes)
    (failed : reading.run limit last ahead = .error error)
    (ends : Exists fun lexeme : Lexeme => lexeme ∈ ahead ∧ lexeme.token = .endOfInput) :
    Exists fun before : List Lexeme => Exists fun next : Lexeme =>
      Exists fun after : List Lexeme => ahead = before ++ next :: after ∧
        error.TellsOf (lexemes ++ before) next := by
  induction ahead generalizing reading last lexemes with
  | nil =>
      rcases ends with ⟨lexeme, member, _⟩
      cases member
  | cons lexeme rest ih =>
      rcases lexeme with ⟨token, position⟩
      by_cases isEnd : token = .endOfInput
      · subst isEnd
        have tells : Tells lexemes _ (reading.conclude limit position) := conclude_tells covered
        change reading.conclude limit position = _ at failed
        rw [failed] at tells
        exact ⟨[], _, rest, rfl, (List.append_nil lexemes).symm ▸ tells⟩
      · rw [run_cons isEnd] at failed
        rcases Outcome.bind_eq_error_iff.mp failed with refused | ⟨reached, stepped, failedLater⟩
        · have tells : Tells lexemes ⟨token, position⟩ (reading.step limit token position) :=
            step_tells covered
          rw [refused] at tells
          exact ⟨[], _, rest, rfl, (List.append_nil lexemes).symm ▸ tells⟩
        · have endsLater : Exists fun lexeme : Lexeme =>
              lexeme ∈ rest ∧ lexeme.token = .endOfInput := by
            rcases ends with ⟨lexeme, member, is_end⟩
            rcases List.mem_cons.mp member with rfl | later
            · exact absurd is_end isEnd
            · exact ⟨lexeme, later, is_end⟩
          rcases ih (step_covers covered stepped) failedLater endsLater with
            ⟨before, next, after, rfl, tells⟩
          rw [List.append_assoc] at tells
          exact ⟨⟨token, position⟩ :: before, next, after, rfl, tells⟩

end Reading

/-! ## What the errors about parentheses are worth -/

section Truth

variable {lexemes before inside after : List Lexeme} {position : Nat}

theorem nodup_positions
    (increasing : lexemes.Pairwise fun first second => first.position < second.position) :
    (lexemes.map Lexeme.position).Nodup :=
  List.pairwise_map.mpr (increasing.imp Nat.ne_of_lt)

/-- A closing parenthesis before which nothing is open matches nothing. -/
theorem isUnmatched_of_openAfter
    (increasing : (before ++ ⟨.closeParen, position⟩ :: after).Pairwise
      fun first second => first.position < second.position)
    (nothingOpen : openAfter [] before = []) :
    IsUnmatched (before ++ ⟨.closeParen, position⟩ :: after) position := by
  refine ⟨List.mem_append_right _ (List.mem_cons_self ..), fun opened matched => ?_⟩
  rcases List.pairwise_append.mp increasing with ⟨_, increasingAfter, apart⟩
  rw [matchedParens_append, nothingOpen] at matched
  rcases List.mem_append.mp matched with earlier | later
  · exact absurd (apart _ (closeParen_of_matched earlier) _ (List.mem_cons_self ..))
      (Nat.lt_irrefl _)
  · exact absurd ((List.pairwise_cons.mp increasingAfter).1 _ (closeParen_of_matched later))
      (Nat.lt_irrefl _)

/-- An opening parenthesis after which the rest is balanced matches nothing. -/
theorem isUnclosed_of_isBalanced
    (increasing : (before ++ ⟨.openParen, position⟩ :: inside).Pairwise
      fun first second => first.position < second.position)
    (balanced : IsBalanced inside) :
    IsUnclosed (before ++ ⟨.openParen, position⟩ :: inside) position := by
  refine ⟨List.mem_append_right _ (List.mem_cons_self ..), fun closed => ?_⟩
  apply not_matched_of_openAfter (nodup_positions increasing)
  rw [openAfter_append]
  exact Eq.mpr (congrArg (position ∈ ·) (balanced _)) (List.mem_cons_self ..)

end Truth

/-- A list with only one end of the input, the last lexeme, is cut before it in only one
way. -/
theorem after_eq_nil {stretch before after : List Lexeme} {final position : Nat}
    (inside : forall lexeme, lexeme ∈ stretch -> lexeme.token ≠ .endOfInput)
    (same : stretch ++ [⟨.endOfInput, final⟩] = before ++ ⟨.endOfInput, position⟩ :: after) :
    after = [] := by
  rcases List.eq_nil_or_concat after with rfl | ⟨shorter, last, rfl⟩
  · rfl
  · rw [List.concat_eq_append, ← List.cons_append, ← List.append_assoc] at same
    have cut := (List.append_inj' same rfl).1
    exact absurd rfl (inside ⟨.endOfInput, position⟩ (cut ▸ by simp))

namespace Expr

/-- An error about a parenthesis tells of the lexemes before one of them. -/
theorem ofLexemes_tells {limit : Nat} {lexemes : List Lexeme} {error : SyntaxError}
    (failed : ofLexemes limit lexemes = .error error)
    (ends : Exists fun lexeme : Lexeme => lexeme ∈ lexemes ∧ lexeme.token = .endOfInput) :
    Exists fun before : List Lexeme => Exists fun next : Lexeme =>
      Exists fun after : List Lexeme => lexemes = before ++ next :: after ∧
        error.TellsOf before next := by
  unfold ofLexemes at failed
  split at failed
  · rcases ends with ⟨lexeme, member, _⟩
    cases member
  · cases failed
    exact ⟨[], _, _, rfl, trivial⟩
  · exact Reading.run_tells Reading.start_covers failed ends

/-- Where the lexemes of a text are refused for a closing parenthesis that is said to
be unmatched, it matches no opening one.  Where they are refused for an opening
parenthesis that is said to be unclosed, it matches no closing one if it begins an
argument list; if it begins a group, either it matches none, or behind the complete
expression in the group there is a token with which no group goes on. -/
theorem paren_errors_tell (limit : Nat) (text : String) (lexemes : List Lexeme)
    (error : SyntaxError) (split : tokenize text = .ok lexemes)
    (failed : ofLexemes limit lexemes = .error error) :
    (forall position : Nat, error = .unmatchedParen position -> IsUnmatched lexemes position) ∧
    forall position : Nat, error = .unclosedParen position ->
      (IsUnclosed lexemes position ∨ IsCutShort lexemes position) ∧
        forall before rest : List Lexeme, lexemes = before ++ ⟨.openParen, position⟩ :: rest ->
          endsWithName before = true -> IsUnclosed lexemes position := by
  have splits := (tokenize_eq_ok_iff _ _).mp split
  have increasing := splits.increasing
  rcases splits.ends with ⟨stretch, final, rfl, inside⟩
  have ends : Exists fun lexeme : Lexeme =>
      lexeme ∈ stretch ++ [⟨.endOfInput, final⟩] ∧ lexeme.token = .endOfInput :=
    ⟨_, List.mem_append_right _ (List.mem_singleton_self _), rfl⟩
  rcases ofLexemes_tells failed ends with ⟨read, next, after, same, tells⟩
  rw [same] at increasing ⊢
  constructor
  · rintro position rfl
    rcases tells with ⟨rfl, nothingOpen⟩
    exact isUnmatched_of_openAfter increasing nothingOpen
  · rintro position rfl
    rcases tells with ⟨before, within, rfl, balanced, reason⟩
    rw [List.append_assoc, List.cons_append] at increasing ⊢
    rcases next with ⟨token, place⟩
    by_cases atEnd : token = .endOfInput
    · subst atEnd
      cases after_eq_nil inside same
      have unclosed := isUnclosed_of_isBalanced increasing
        (balanced.append (.cons (fun _ => rfl) fun _ => rfl))
      exact ⟨.inl unclosed, fun _ _ _ _ => unclosed⟩
    · rcases reason.resolve_left atEnd with ⟨noName, derived, notClosing, noOperator⟩
      refine ⟨.inr ⟨before, within, _, after, rfl, noName, derived, notClosing, atEnd,
        noOperator⟩, ?_⟩
      intro earlier rest sameCut named
      rw [(cut_unique increasing sameCut rfl).1, named] at noName
      cases noName

/-- Of two closing parentheses in a row only the second is unmatched; of two opening
ones in a call only that of the call is unclosed. -/
theorem paren_errors_tell_last :
    (Exists fun lexemes : List Lexeme => tokenize "2*(3))" = .ok lexemes ∧
      ofLexemes 9 lexemes = .error (.unmatchedParen 5) ∧ IsUnmatched lexemes 5) ∧
    Exists fun lexemes : List Lexeme => tokenize "-max((1),2" = .ok lexemes ∧
      ofLexemes 9 lexemes = .error (.unclosedParen 4) ∧ IsUnclosed lexemes 4 := by
  constructor
  · refine ⟨_, rfl, rfl, ?_⟩
    exact (paren_errors_tell 9 "2*(3))" _ (.unmatchedParen 5) rfl rfl).1 5 rfl
  · refine ⟨_, rfl, rfl, ?_⟩
    exact ((paren_errors_tell 9 "-max((1),2" _ (.unclosedParen 4) rfl rfl).2 4 rfl).2
      [⟨.operator .subtract, 0⟩, ⟨.identifier "max", 1⟩] _ rfl rfl

/-- The group of two numbers has its closing parenthesis, and yet it is reported as
unclosed, since the second number stands where the group should end. -/
theorem matched_paren_is_reported_unclosed :
    let lexemes : List Lexeme := [⟨.openParen, 0⟩, ⟨.number 1, 1⟩, ⟨.number 2, 3⟩,
      ⟨.closeParen, 4⟩, ⟨.endOfInput, 5⟩]
    tokenize "(1 2)" = .ok lexemes ∧ ofLexemes 128 lexemes = .error (.unclosedParen 0) ∧
      (0, 4) ∈ matchedParens [] lexemes ∧ ¬ IsUnclosed lexemes 0 := by
  intro lexemes
  have pair : (0, 4) ∈ matchedParens [] lexemes := List.mem_cons_self ..
  exact ⟨rfl, rfl, pair, fun unclosed => unclosed.2 4 pair⟩

end Expr

end DeskCalculator

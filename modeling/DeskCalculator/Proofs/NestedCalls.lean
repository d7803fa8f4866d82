import DeskCalculator.Proofs.Descent
import DeskCalculator.Proofs.Evaluation
import DeskCalculator.Proofs.Grammar.Completeness

namespace DeskCalculator

/-!
# The limit bounds the nested calls

Recursive descent and the reader that keeps its surroundings by itself come to
the same outcome, and the descent needs no more nested calls than the limit
allows for, however many lexemes there are.  Between two descents of one level
at most eight calls are nested: those of the rules from the expression down to
the call of a function, and the one for its arguments.  Likewise the evaluation
of a tree needs one call for each level that the limit allows and one more,
which refuses what is too deep.

For every rule it is shown that the reader, wherever it stands, goes past the
part that the rule reads and has it as its operand, or fails as the rule does.
The reader fills what is pending only when it sees what follows; the rules look
at what follows as well, so filling early comes to the same.
-/

namespace Limited

variable {Cause Result More : Type}

/-- The calls have been enough, and a failure is that of `intended`. -/
abbrev Follows (intended : Except Cause More) (success : Result -> Prop)
    (limited : Limited Cause Result) : Prop :=
  Outcome.Ensures (fun halt => Exists fun cause : Cause =>
    halt = .failed cause ∧ intended = .error cause) success limited

/-- What needs no call may be done on both sides. -/
theorem Follows.step {Middle : Type} {intended : Except Cause More}
    {outcome : Except Cause Middle} {continuation : Middle -> Except Cause More}
    {goOn : Middle -> Limited Cause Result} {success : Result -> Prop}
    (same : intended = outcome >>= continuation)
    (later : forall middle, outcome = .ok middle -> intended = continuation middle ->
      Follows intended success (goOn middle)) :
    Follows intended success (ofOutcome outcome >>= goOn) := by
  cases outcome with
  | ok middle => exact later middle rfl same
  | error cause => exact ⟨cause, rfl, same⟩

/-- An outcome that follows another one is the same. -/
theorem Follows.eq_ofOutcome {intended : Except Cause Result} {limited : Limited Cause Result}
    (follows : Follows intended (fun result => intended = .ok result) limited) :
    limited = ofOutcome intended := by
  cases limited with
  | ok result =>
      rw [show intended = .ok result from follows]
      rfl
  | error halt =>
      rcases follows with ⟨cause, rfl, same⟩
      rw [same]
      rfl

theorem ofOutcome_bind {Middle : Type} (outcome : Except Cause Middle)
    (continuation : Middle -> Except Cause Result) :
    ofOutcome (outcome >>= continuation) =
      ofOutcome outcome >>= fun middle => ofOutcome (continuation middle) := by
  cases outcome <;> rfl

theorem ofOutcome_ne_exhausted (outcome : Except Cause Result) :
    ofOutcome outcome ≠ .error .exhausted := by
  cases outcome <;> simp [ofOutcome, Except.mapError]

end Limited

open Limited (Follows ofOutcome)

namespace Reading

variable {limit final : Nat} {around : Surroundings}

/-! ## What a rule reads -/

/-- The last of the lexemes ahead, if there are any, stands at `final`. -/
def EndsAt (final : Nat) (ahead : List Lexeme) : Prop :=
  lastPosition final ahead = final

/-- The position of the lexeme before matters only where nothing is ahead. -/
theorem run_last {reading : Reading} {last other : Nat} {ahead : List Lexeme}
    (same : lastPosition last ahead = lastPosition other ahead) :
    reading.run limit last ahead = reading.run limit other ahead := by
  cases ahead with
  | nil => rw [show last = other from same]
  | cons next rest =>
      rcases next with ⟨token, position⟩
      by_cases ends : token = .endOfInput
      · subst ends
        rfl
      · rw [run_cons ends, run_cons ends]

theorem EndsAt.rest {next : Lexeme} {rest : List Lexeme} (ends : EndsAt final (next :: rest)) :
    EndsAt final rest ∧ lastPosition next.position rest = lastPosition final rest := by
  have same : lastPosition next.position rest = final := ends
  cases rest with
  | nil => exact ⟨rfl, same⟩
  | cons second more => exact ⟨ends, rfl⟩

theorem run_next {reading : Reading} {token : Token} {position : Nat} {rest : List Lexeme}
    (ends : EndsAt final (⟨token, position⟩ :: rest)) (goesOn : token ≠ .endOfInput) :
    reading.run limit final (⟨token, position⟩ :: rest) =
      reading.step limit token position >>= fun next => next.run limit final rest := by
  rw [run_cons goesOn]
  congr 1
  funext next
  exact run_last ends.rest.2

/-- No operator that the category could take follows. -/
def Completes (category : Category) (rest : List Lexeme) : Prop :=
  forall (operator : Operator) (position : Nat) (more : List Lexeme),
    rest = ⟨.operator operator, position⟩ :: more -> category.rank < operator.category.rank

theorem completes_unary (rest : List Lexeme) : Completes .unary rest := by
  intro operator position more same
  cases operator <;> decide

theorem not_completes_expression {operator : Operator} {position : Nat} {more : List Lexeme} :
    ¬ Completes .expression (⟨.operator operator, position⟩ :: more) := by
  intro complete
  have looser := complete operator position more rfl
  cases operator <;> revert looser <;> decide

/-- A tighter part is a whole looser one if no operator of that category follows. -/
theorem Completes.loosen {category lower : Category} {rest : List Lexeme}
    (complete : Completes lower rest) (next : lower.rank + 1 = category.rank)
    (other : forall (operator : Operator) (position : Nat) (more : List Lexeme),
      rest = ⟨.operator operator, position⟩ :: more -> operator.category ≠ category) :
    Completes category rest := by
  intro operator position more same
  have looser := complete operator position more same
  have ranks : operator.category.rank ≠ category.rank :=
    fun equal => other operator position more same (Category.eq_of_rank_eq equal)
  omega

theorem Completes.stops {operator : Operator} {rest : List Lexeme}
    (complete : Completes operator.rightCategory rest) : Stops operator.category rest := by
  intro next position more same
  have looser := complete next position more same
  revert looser
  cases operator <;> cases next <;> decide

/-- The reader has gone past a part and has it as its operand. -/
structure GoesPast (limit final : Nat) (category : Category) (around : Surroundings)
    (intended : Except SyntaxError Expr) (part : Subtree) (rest : List Lexeme) : Prop where
  ends : EndsAt final rest
  complete : Completes category rest
  same : intended = (afterOperand part around).run limit final rest

/-- The reader goes past what has been read, or fails as it did. -/
abbrev ReadsPast (limit final : Nat) (category : Category) (around : Surroundings)
    (intended : Except SyntaxError Expr) {bound : Nat}
    (outcome : Limited SyntaxError (Parsed Subtree bound)) : Prop :=
  Follows intended
    (fun parsed => GoesPast limit final category around intended parsed.part parsed.rest) outcome

/-- Where the rule is used, the reader goes past what the rule reads. -/
def Obeys (limit final : Nat) (category : Category) (around : Surroundings)
    (rule : Rule Subtree) : Prop :=
  forall ahead : List Lexeme, EndsAt final ahead ->
    ReadsPast limit final category around ((beforeOperand around).run limit final ahead)
      (rule ahead)

/-- A descent is one level deeper. -/
theorem descend_eq {position : Nat} {inside : Nesting}
    (descended : (around.nesting limit).descend position = .ok inside) :
    inside = ⟨limit, around.level + 1⟩ ∧ around.level + 1 ≤ limit := by
  have shallow := Surroundings.descend_ok descended
  have same : (around.nesting limit).descend position = .ok ⟨limit, around.level + 1⟩ :=
    if_pos shallow
  rw [same] at descended
  cases descended
  exact ⟨rfl, shallow⟩

/-- A token that opens a level makes its descent first. -/
theorem run_descending {reading next : Reading} {token : Token} {position opened : Nat}
    {rest : List Lexeme} (ends : EndsAt final (⟨token, position⟩ :: rest))
    (goesOn : token ≠ .endOfInput)
    (steps : reading.step limit token position =
      (around.nesting limit).descend opened >>= fun _ => pure next) :
    reading.run limit final (⟨token, position⟩ :: rest) =
      (around.nesting limit).descend opened >>= fun _ => next.run limit final rest := by
  rw [run_next ends goesOn, steps, bind_assoc]
  rfl

/-- An operator that makes no descent takes the operand before it, if what is
pending leaves it there. -/
theorem run_flatOperator {operator : Operator} {left : Subtree} {position : Nat}
    {rest : List Lexeme} (ends : EndsAt final (⟨.operator operator, position⟩ :: rest))
    (flat : operator ≠ .power)
    (hasRoom : operator.category.rank ≤ (Pending.innermostSlot around.pending).rank) :
    (afterOperand left around).run limit final (⟨.operator operator, position⟩ :: rest) =
      (beforeOperand (around.hold (.binary operator left position))).run limit final rest := by
  rw [run_next ends (by simp)]
  dsimp only [step, readOperator]
  rw [(nothing_yields hasRoom).1, (nothing_yields hasRoom).2]
  cases operator <;> first | rfl | exact absurd rfl flat

/-! ## One rule on the others -/

/-- The loop over the operators of one category.  The induction is on the number
of lexemes, since the operands take several of them. -/
theorem chain_follows {category lower : Category} {operand : Rule Subtree}
    (next : lower.rank + 1 = category.rank)
    (fits : category.rank ≤ (Pending.innermostSlot around.pending).rank)
    (flat : forall operator : Operator, operator.category = category ->
      operator.rightCategory = lower ∧ operator ≠ .power)
    (obeys : forall (operator : Operator) (left : Subtree) (position : Nat),
      operator.category = category ->
        Obeys limit final lower (around.hold (.binary operator left position)) operand)
    (count : Nat) : forall (left : Subtree) (ahead : List Lexeme), ahead.length < count ->
      EndsAt final ahead -> Completes lower ahead ->
        ReadsPast limit final category around ((afterOperand left around).run limit final ahead)
          (Descent.chain limit category operand left ahead) := by
  induction count with
  | zero => exact fun _ _ short => absurd short (Nat.not_lt_zero _)
  | succ count ih =>
      intro left ahead short ends complete
      rw [Descent.chain.eq_def]
      split
      · next operator position rest =>
          split
          · next inCategory =>
              rcases flat operator inCategory with ⟨slot, notPower⟩
              rw [run_flatOperator ends notPower (inCategory ▸ fits)]
              refine (obeys operator left position inCategory rest ends.rest.1).bind
                fun right past => ?_
              have complete : Completes operator.rightCategory right.rest :=
                slot ▸ past.complete
              have stops : Stops (Pending.binary operator left position).category right.rest :=
                complete.stops
              have filled := past.same
              rw [run_hold stops] at filled
              refine Follows.step filled fun larger _ same => ?_
              have shorter : right.rest.length < count := by
                have fewer := right.fewer
                rw [List.length_cons] at short
                omega
              have later := ih larger right.rest shorter past.ends past.complete
              rw [← same] at later
              exact later.bind fun whole past => past
          · next other =>
              refine ⟨ends, complete.loosen next fun operator place more same => ?_, rfl⟩
              cases same
              exact other
      · next notOperator =>
          refine ⟨ends, complete.loosen next fun operator place more same => ?_, rfl⟩
          exact absurd same (notOperator operator place more)

/-- The reader goes past the arguments of a call, and closes the call with them. -/
def Closes (limit final : Nat) (callee : Callee) (around : Surroundings)
    (intended : Except SyntaxError Expr) (arguments : List Subtree) (rest : List Lexeme) : Prop :=
  EndsAt final rest ∧ intended =
    closeArguments limit callee arguments around >>= fun next => next.run limit final rest

/-- The reader goes past the arguments that have been read, or fails as that did. -/
abbrev ReadsCall (limit final : Nat) (callee : Callee) (around : Surroundings)
    (intended : Except SyntaxError Expr) {bound : Nat}
    (outcome : Limited SyntaxError (Parsed (List Subtree) bound)) : Prop :=
  Follows intended
    (fun parsed => Closes limit final callee around intended parsed.part parsed.rest) outcome

/-- The loop over the arguments of a call.  The induction is on the number of
lexemes. -/
theorem arguments_follows {callee : Callee} {opened : Nat} {argument : Rule Subtree}
    (obeys : forall reversed : List Subtree, Obeys limit final .expression
      (around.enclose (.call callee opened reversed)) argument)
    (count : Nat) : forall (reversed : List Subtree) (ahead : List Lexeme),
      ahead.length < count -> EndsAt final ahead ->
        ReadsCall limit final callee around
          ((beforeOperand (around.enclose (.call callee opened reversed))).run limit final ahead)
          (Descent.arguments opened argument reversed ahead) := by
  induction count with
  | zero => exact fun _ _ short => absurd short (Nat.not_lt_zero _)
  | succ count ih =>
      intro reversed ahead short ends
      rw [Descent.arguments.eq_def]
      refine (obeys reversed ahead ends).bind fun next past => ?_
      have same := past.same
      have endsNext := past.ends
      split
      · next position rest after =>
          rw [after] at same endsNext
          rw [run_next endsNext (by simp)] at same
          have goesOn : (beforeOperand (around.enclose (.call callee opened reversed))).run limit
              final ahead = (beforeOperand (around.enclose
                (.call callee opened (next.part :: reversed)))).run limit final rest := same
          have shorter : rest.length < count := by
            have fewer := Parsed.fewer_of_cons after
            omega
          have later := ih (next.part :: reversed) rest shorter endsNext.rest.1
          rw [goesOn]
          exact later.bind fun others closed => closed
      · next position rest after =>
          rw [after] at same endsNext
          rw [run_next endsNext (by simp)] at same
          exact ⟨endsNext.rest.1, same⟩
      · next after =>
          rw [after] at same
          exact ⟨_, rfl, same⟩
      · next position rest after =>
          rw [after] at same
          exact ⟨_, rfl, same⟩
      · next token position rest notComma notClosing notEnd after =>
          rw [after] at same endsNext
          cases token with
          | operator operator => exact absurd (after ▸ past.complete) not_completes_expression
          | endOfInput => exact absurd rfl notEnd
          | comma => exact absurd rfl notComma
          | closeParen => exact absurd rfl notClosing
          | _ =>
              rw [run_next endsNext (by simp)] at same
              exact ⟨_, rfl, same⟩

/-- An operator that makes no descent leaves the level as it is. -/
theorem level_hold_flat {operator : Operator} (flat : operator ≠ .power) (left : Subtree)
    (position : Nat) : (around.hold (.binary operator left position)).level = around.level := by
  rw [Surroundings.level_hold]
  cases operator <;> first | rfl | exact absurd rfl flat

/-- A loop over operators together with the operand before it.  All its operands
are read at one level. -/
theorem operands_obey {category lower : Category} {operand : Rule Subtree}
    (next : lower.rank + 1 = category.rank)
    (fits : category.rank ≤ (Pending.innermostSlot around.pending).rank)
    (flat : forall operator : Operator, operator.category = category ->
      operator.rightCategory = lower ∧ operator ≠ .power)
    (obeys : forall here : Surroundings, here.level = around.level ->
      lower.rank ≤ (Pending.innermostSlot here.pending).rank ->
        Obeys limit final lower here operand) :
    Obeys limit final category around fun ahead => do
      let first ← operand ahead
      let whole ← Descent.chain limit category operand first.part first.rest
      return whole.widen first.fewer := by
  have later (operator : Operator) (left : Subtree) (position : Nat)
      (inCategory : operator.category = category) :
      Obeys limit final lower (around.hold (.binary operator left position)) operand := by
    rcases flat operator inCategory with ⟨slot, notPower⟩
    exact obeys _ (level_hold_flat notPower left position)
      (Nat.le_of_eq (congrArg Category.rank slot.symm))
  intro ahead ends
  refine (obeys around rfl (by omega) ahead ends).bind fun left past => ?_
  have goesOn := chain_follows next fits flat later _ left.part left.rest (Nat.lt_succ_self _)
    past.ends past.complete
  rw [← past.same] at goesOn
  exact goesOn.bind fun whole past => past

theorem power_obeys_of {calls : Nat}
    (fits : Category.power.rank ≤ (Pending.innermostSlot around.pending).rank)
    (base : Obeys limit final .unary around (Descent.unary calls (around.nesting limit)))
    (exponent : forall (left : Subtree) (position : Nat), around.level + 1 ≤ limit ->
      Obeys limit final .power (around.hold (.binary .power left position))
        (Descent.power calls ⟨limit, around.level + 1⟩)) :
    Obeys limit final .power around (Descent.power (calls + 1) (around.nesting limit)) := by
  intro ahead ends
  rw [Descent.power.eq_def]
  dsimp only
  refine (base ahead ends).bind fun left past => ?_
  have same := past.same
  have endsNext := past.ends
  split
  · next position rest after =>
      rw [after] at same endsNext
      have steps : (afterOperand left.part around).step limit (.operator .power) position =
          (around.nesting limit).descend position >>= fun _ =>
            pure (beforeOperand (around.hold (.binary .power left.part position))) := by
        have hasRoom : Operator.power.category.rank ≤
            (Pending.innermostSlot around.pending).rank := fits
        dsimp only [step, readOperator]
        rw [(nothing_yields hasRoom).1, (nothing_yields hasRoom).2]
        rfl
      rw [run_descending endsNext (by simp) steps] at same
      refine Follows.step same fun inside descended goesOn => ?_
      rcases descend_eq descended with ⟨rfl, shallow⟩
      rw [goesOn]
      refine (exponent left.part position shallow rest endsNext.rest.1).bind
        fun right past => ?_
      have powerCompletes : Completes Operator.power.rightCategory right.rest := past.complete
      have stops : Stops (Pending.binary .power left.part position).category right.rest :=
        powerCompletes.stops
      have filled := past.same
      rw [run_hold stops] at filled
      refine Follows.step filled fun whole _ same => ?_
      exact ⟨past.ends, past.complete, same⟩
  · next notPower =>
      refine ⟨past.ends, past.complete.loosen rfl fun operator position more same => ?_,
        past.same⟩
      cases operator <;> first | decide | exact absurd same (notPower position more)

/-- No sign comes first. -/
def Unsigned (ahead : List Lexeme) : Prop :=
  forall (operator : Operator) (position : Nat) (rest : List Lexeme),
    ahead = ⟨.operator operator, position⟩ :: rest -> Sign.ofOperator? operator = none

theorem unary_obeys_of {calls : Nat}
    (operand : forall (sign : Sign) (position : Nat), around.level + 1 ≤ limit ->
      Obeys limit final .unary (around.hold (.signed sign position))
        (Descent.unary calls ⟨limit, around.level + 1⟩))
    (primary : forall ahead : List Lexeme, EndsAt final ahead -> Unsigned ahead ->
      ReadsPast limit final .unary around ((beforeOperand around).run limit final ahead)
        (Descent.primary calls (around.nesting limit) ahead)) :
    Obeys limit final .unary around (Descent.unary (calls + 1) (around.nesting limit)) := by
  intro ahead ends
  rw [Descent.unary.eq_def]
  dsimp only
  split
  · next operator position rest =>
      split
      · next sign written =>
          have steps : (beforeOperand around).step limit (.operator operator) position =
              (around.nesting limit).descend position >>= fun _ =>
                pure (beforeOperand (around.hold (.signed sign position))) := by
            simp only [step, readOperand, written]
            rfl
          refine Follows.step (run_descending ends (by simp) steps)
            fun inside descended goesOn => ?_
          rcases descend_eq descended with ⟨rfl, shallow⟩
          rw [goesOn]
          refine (operand sign position shallow rest ends.rest.1).bind fun inner past => ?_
          have stops : Stops (Pending.signed sign position).category inner.rest := stops_unary _
          have filled := past.same
          rw [run_hold stops] at filled
          refine Follows.step filled fun whole _ same => ?_
          exact ⟨past.ends, completes_unary _, same⟩
      · next unsigned =>
          refine primary _ ends fun next place more same => ?_
          cases same
          exact unsigned
  · next notOperator =>
      exact primary _ ends fun next place more same => absurd same (notOperator next place more)

theorem primary_obeys_of {calls : Nat} {ahead : List Lexeme}
    (group : forall (opened : Nat) (rest : List Lexeme),
      EndsAt final (⟨.openParen, opened⟩ :: rest) ->
        ReadsPast limit final .unary around
          ((beforeOperand around).run limit final (⟨.openParen, opened⟩ :: rest))
          (Descent.grouping calls (around.nesting limit) opened rest))
    (call : forall (name : String) (position : Nat) (rest : List Lexeme), EndsAt final rest ->
      ReadsPast limit final .unary around
        ((afterName ⟨name, position⟩ around).run limit final rest)
        (Descent.call calls (around.nesting limit) name position rest))
    (ends : EndsAt final ahead) (unsigned : Unsigned ahead) :
    ReadsPast limit final .unary around ((beforeOperand around).run limit final ahead)
      (Descent.primary (calls + 1) (around.nesting limit) ahead) := by
  rw [Descent.primary.eq_def]
  dsimp only
  split
  · next value position rest =>
      exact ⟨ends.rest.1, completes_unary _, run_next ends (by simp)⟩
  · next opened rest => exact (group opened rest ends).bind fun inner past => past
  · next name position rest =>
      rw [show (beforeOperand around).run limit final (⟨.identifier name, position⟩ :: rest) =
        (afterName ⟨name, position⟩ around).run limit final rest from run_next ends (by simp)]
      exact (call name position rest ends.rest.1).bind fun inner past => past
  · next position rest => exact ⟨_, rfl, rfl⟩
  · next token position rest notNumber notOpen notName notEnd =>
      refine ⟨_, rfl, ?_⟩
      have stuck : (beforeOperand around).step limit token position =
          .error (.unexpectedToken token position) := by
        cases token with
        | number value => exact absurd rfl (notNumber value)
        | openParen => exact absurd rfl notOpen
        | identifier name => exact absurd rfl (notName name)
        | endOfInput => exact absurd rfl notEnd
        | operator operator =>
            simp only [step, readOperand, unsigned operator position rest rfl]
            rfl
        | _ => rfl
      rw [run_next ends notEnd, stuck]
      rfl
  · exact ⟨_, rfl, rfl⟩

/-- After a complete expression in a group its closing parenthesis is due. -/
theorem run_unclosed {opened : Nat} {whole : Subtree} {rest : List Lexeme}
    (complete : Completes .expression rest)
    (notClosing : forall (position : Nat) (more : List Lexeme),
      rest ≠ ⟨.closeParen, position⟩ :: more) :
    (afterOperand whole (around.enclose (.group opened))).run limit final rest =
      .error (.unclosedParen opened) := by
  cases rest with
  | nil => rfl
  | cons next more =>
      rcases next with ⟨token, position⟩
      cases token with
      | operator operator => exact absurd complete not_completes_expression
      | closeParen => exact absurd rfl (notClosing position more)
      | _ => rfl

theorem grouping_obeys_of {calls opened : Nat} {rest : List Lexeme}
    (expression : around.level + 1 ≤ limit ->
      Obeys limit final .expression (around.enclose (.group opened))
        (Descent.expression calls ⟨limit, around.level + 1⟩))
    (ends : EndsAt final (⟨.openParen, opened⟩ :: rest)) :
    ReadsPast limit final .unary around
      ((beforeOperand around).run limit final (⟨.openParen, opened⟩ :: rest))
      (Descent.grouping (calls + 1) (around.nesting limit) opened rest) := by
  rw [Descent.grouping.eq_def]
  dsimp only
  have steps : (beforeOperand around).step limit .openParen opened =
      (around.nesting limit).descend opened >>= fun _ =>
        pure (beforeOperand (around.enclose (.group opened))) := rfl
  refine Follows.step (run_descending ends (by simp) steps) fun inside descended goesOn => ?_
  rcases descend_eq descended with ⟨rfl, shallow⟩
  rw [goesOn]
  refine (expression shallow rest ends.rest.1).bind fun inner past => ?_
  have same := past.same
  have endsNext := past.ends
  split
  · next position more after =>
      rw [after] at same endsNext
      exact ⟨endsNext.rest.1, completes_unary _, same.trans (run_next endsNext (by simp))⟩
  · next notClosing =>
      refine ⟨_, rfl, ?_⟩
      rw [same]
      exact run_unclosed past.complete notClosing

/-- Where no parenthesis closes at once, there is a first argument. -/
theorem run_firstArgument {callee : Callee} {opened : Nat} {ahead : List Lexeme}
    (ends : EndsAt final ahead)
    (notClosing : forall (position : Nat) (more : List Lexeme),
      ahead ≠ ⟨.closeParen, position⟩ :: more) :
    (beforeArguments callee opened around).run limit final ahead =
      (beforeOperand (around.enclose (.call callee opened []))).run limit final ahead := by
  cases ahead with
  | nil => rfl
  | cons next rest =>
      rcases next with ⟨token, position⟩
      cases token with
      | closeParen => exact absurd rfl (notClosing position rest)
      | endOfInput => rfl
      | _ => exact run_beforeArguments ⟨_, _, rfl, by simp, by simp⟩

theorem commaSeparated_obeys_of {calls opened : Nat} {callee : Callee} {nesting : Nesting}
    {ahead : List Lexeme}
    (expression : forall reversed : List Subtree, Obeys limit final .expression
      (around.enclose (.call callee opened reversed)) (Descent.expression calls nesting))
    (ends : EndsAt final ahead) :
    ReadsCall limit final callee around
      ((beforeArguments callee opened around).run limit final ahead)
      (Descent.commaSeparated (calls + 1) nesting opened ahead) := by
  rw [Descent.commaSeparated.eq_def]
  dsimp only
  split
  · next position rest => exact ⟨ends.rest.1, run_next ends (by simp)⟩
  · next notClosing =>
      rw [run_firstArgument ends notClosing]
      exact arguments_follows expression _ [] ahead (Nat.lt_succ_self _) ends

theorem call_obeys_of {calls position : Nat} {name : String} {ahead : List Lexeme}
    (several : forall (opened : Nat) (rest : List Lexeme), around.level + 1 ≤ limit ->
      EndsAt final rest ->
        ReadsCall limit final ⟨name, position⟩ around
          ((beforeArguments ⟨name, position⟩ opened around).run limit final rest)
          (Descent.commaSeparated calls ⟨limit, around.level + 1⟩ opened rest))
    (ends : EndsAt final ahead) :
    ReadsPast limit final .unary around ((afterName ⟨name, position⟩ around).run limit final ahead)
      (Descent.call (calls + 1) (around.nesting limit) name position ahead) := by
  rw [Descent.call.eq_def]
  dsimp only
  split
  · next opened rest =>
      refine Follows.step (run_descending ends (by simp) rfl) fun inside descended goesOn => ?_
      rcases descend_eq descended with ⟨rfl, shallow⟩
      rw [goesOn]
      refine (several opened rest shallow ends.rest.1).bind fun parsed closed => ?_
      have closes : (beforeArguments ⟨name, position⟩ opened around).run limit final rest =
          Subtree.call limit name parsed.part position >>= fun whole =>
            (afterOperand whole around).run limit final parsed.rest := by
        rw [closed.2]
        unfold closeArguments
        rw [bind_assoc]
        rfl
      refine Follows.step closes fun whole _ same => ?_
      exact ⟨closed.1, completes_unary _, same⟩
  · next notOpening =>
      refine ⟨_, rfl, ?_⟩
      cases ahead with
      | nil => rfl
      | cons next rest =>
          rcases next with ⟨token, place⟩
          cases token with
          | openParen => exact absurd rfl (notOpening place rest)
          | _ => rfl

/-! ## All rules -/

mutual

/-- From here on seven calls are nested before the next descent; the eighth is
the one for arguments, after it. -/
theorem expression_obeys {limit final level : Nat} (calls : Nat) {around : Surroundings}
    (here : around.level = level) (shallow : level ≤ limit)
    (room : 8 * (limit - level) + 7 ≤ calls)
    (fits : Category.expression.rank ≤ (Pending.innermostSlot around.pending).rank) :
    Obeys limit final .expression around (Descent.expression calls ⟨limit, level⟩) :=
  match calls with
  | 0 => absurd room (by omega)
  | calls + 1 => additive_obeys calls here shallow (by omega) fits

theorem additive_obeys {limit final level : Nat} (calls : Nat) {around : Surroundings}
    (here : around.level = level) (shallow : level ≤ limit)
    (room : 8 * (limit - level) + 6 ≤ calls)
    (fits : Category.expression.rank ≤ (Pending.innermostSlot around.pending).rank) :
    Obeys limit final .expression around (Descent.additive calls ⟨limit, level⟩) :=
  match calls with
  | 0 => absurd room (by omega)
  | calls + 1 => by
      have flat (operator : Operator) (inCategory : operator.category = .expression) :
          operator.rightCategory = .term ∧ operator ≠ .power := by
        cases operator <;> first | exact ⟨rfl, by decide⟩ | cases inCategory
      exact operands_obey rfl fits flat fun inside same =>
        multiplicative_obeys calls (same.trans here) shallow (by omega)

theorem multiplicative_obeys {limit final level : Nat} (calls : Nat) {around : Surroundings}
    (here : around.level = level) (shallow : level ≤ limit)
    (room : 8 * (limit - level) + 5 ≤ calls)
    (fits : Category.term.rank ≤ (Pending.innermostSlot around.pending).rank) :
    Obeys limit final .term around (Descent.multiplicative calls ⟨limit, level⟩) :=
  match calls with
  | 0 => absurd room (by omega)
  | calls + 1 => by
      have flat (operator : Operator) (inCategory : operator.category = .term) :
          operator.rightCategory = .power ∧ operator ≠ .power := by
        cases operator <;> first | exact ⟨rfl, by decide⟩ | cases inCategory
      exact operands_obey rfl fits flat fun inside same =>
        power_obeys calls (same.trans here) shallow (by omega)

theorem power_obeys {limit final level : Nat} (calls : Nat) {around : Surroundings}
    (here : around.level = level) (shallow : level ≤ limit)
    (room : 8 * (limit - level) + 4 ≤ calls)
    (fits : Category.power.rank ≤ (Pending.innermostSlot around.pending).rank) :
    Obeys limit final .power around (Descent.power calls ⟨limit, level⟩) :=
  match calls with
  | 0 => absurd room (by omega)
  | calls + 1 => by
      subst here
      exact power_obeys_of fits (unary_obeys calls rfl shallow (by omega)) fun _ _ deeper =>
        power_obeys calls (Surroundings.level_hold around _) deeper (by omega) (Nat.le_refl _)

theorem unary_obeys {limit final level : Nat} (calls : Nat) {around : Surroundings}
    (here : around.level = level) (shallow : level ≤ limit)
    (room : 8 * (limit - level) + 3 ≤ calls) :
    Obeys limit final .unary around (Descent.unary calls ⟨limit, level⟩) :=
  match calls with
  | 0 => absurd room (by omega)
  | calls + 1 => by
      subst here
      exact unary_obeys_of
        (fun _ _ deeper => unary_obeys calls (Surroundings.level_hold around _) deeper (by omega))
        fun _ => primary_obeys calls rfl shallow (by omega)

theorem primary_obeys {limit final level : Nat} (calls : Nat) {around : Surroundings}
    (here : around.level = level) (shallow : level ≤ limit)
    (room : 8 * (limit - level) + 2 ≤ calls)
    {ahead : List Lexeme} (ends : EndsAt final ahead) (unsigned : Unsigned ahead) :
    ReadsPast limit final .unary around ((beforeOperand around).run limit final ahead)
      (Descent.primary calls ⟨limit, level⟩ ahead) :=
  match calls with
  | 0 => absurd room (by omega)
  | calls + 1 => by
      subst here
      exact primary_obeys_of (fun _ _ => grouping_obeys calls rfl (by omega))
        (fun _ _ _ => call_obeys calls rfl (by omega)) ends unsigned

theorem grouping_obeys {limit final level : Nat} (calls : Nat) {around : Surroundings}
    (here : around.level = level) (room : 8 * (limit - level) + 1 ≤ calls)
    {opened : Nat} {rest : List Lexeme} (ends : EndsAt final (⟨.openParen, opened⟩ :: rest)) :
    ReadsPast limit final .unary around
      ((beforeOperand around).run limit final (⟨.openParen, opened⟩ :: rest))
      (Descent.grouping calls ⟨limit, level⟩ opened rest) :=
  match calls with
  | 0 => absurd room (by omega)
  | calls + 1 => by
      subst here
      exact grouping_obeys_of (fun deeper => expression_obeys calls
        (Surroundings.level_enclose around _) deeper (by omega) (Nat.le_refl _)) ends

theorem call_obeys {limit final level : Nat} (calls : Nat) {around : Surroundings}
    (here : around.level = level) (room : 8 * (limit - level) + 1 ≤ calls)
    {name : String} {position : Nat} {ahead : List Lexeme} (ends : EndsAt final ahead) :
    ReadsPast limit final .unary around ((afterName ⟨name, position⟩ around).run limit final ahead)
      (Descent.call calls ⟨limit, level⟩ name position ahead) :=
  match calls with
  | 0 => absurd room (by omega)
  | calls + 1 => by
      subst here
      exact call_obeys_of (fun _ _ deeper =>
        commaSeparated_obeys calls rfl deeper (by omega)) ends

theorem commaSeparated_obeys {limit final level : Nat} (calls : Nat) {around : Surroundings}
    (here : around.level + 1 = level) (shallow : level ≤ limit)
    (room : 8 * (limit - level) + 8 ≤ calls)
    {callee : Callee} {opened : Nat} {ahead : List Lexeme} (ends : EndsAt final ahead) :
    ReadsCall limit final callee around
      ((beforeArguments callee opened around).run limit final ahead)
      (Descent.commaSeparated calls ⟨limit, level⟩ opened ahead) :=
  match calls with
  | 0 => absurd room (by omega)
  | calls + 1 =>
      commaSeparated_obeys_of (fun _ => expression_obeys calls
        ((Surroundings.level_enclose around _).trans here) shallow (by omega)
        (Nat.le_refl _)) ends

end

theorem lastPosition_eq_getLast (last : Nat) (first : Lexeme) (rest : List Lexeme) :
    lastPosition last (first :: rest) =
      ((first :: rest).getLast (List.cons_ne_nil _ _)).position := by
  induction rest generalizing last first with
  | nil => rfl
  | cons second rest ih => exact ih first.position second

/-- After the whole expression the end of the input is due. -/
theorem start_follows {calls : Nat} (room : 8 * (limit + 1) ≤ calls) (lexemes : List Lexeme) :
    Follows (Expr.ofLexemes limit lexemes) (fun tree => Expr.ofLexemes limit lexemes = .ok tree)
      (Descent.parse calls limit lexemes) := by
  cases calls with
  | zero => exact absurd room (by omega)
  | succ calls =>
      unfold Descent.parse
      dsimp only
      split
      · exact ⟨_, rfl, rfl⟩
      · exact ⟨_, rfl, rfl⟩
      · next first more notEnd =>
          have goesOn : first.token ≠ .endOfInput :=
            fun ended => notEnd first.position (ended ▸ rfl)
          have read : Expr.ofLexemes limit (first :: more) =
              start.run limit (lastPosition 0 (first :: more)) (first :: more) :=
            (Expr.ofLexemes_cons goesOn).trans (run_last rfl)
          have obeys : Obeys limit (lastPosition 0 (first :: more)) .expression .outermost
              (Descent.expression calls (.outermost limit)) :=
            expression_obeys calls rfl (Nat.zero_le limit) (by omega) (Nat.le_refl _)
          rw [read]
          refine (obeys (first :: more) rfl).bind fun whole past => ?_
          have same := past.same
          have complete := past.complete
          have ends := past.ends
          split
          · next position rest after =>
              rw [after] at same
              exact same
          · next position rest after =>
              rw [after] at same
              exact ⟨_, rfl, same⟩
          · next token position rest notEnd notClosing after =>
              rw [after] at same complete ends
              refine ⟨_, rfl, same.trans ?_⟩
              rw [run_next ends notEnd]
              cases token with
              | operator operator => exact absurd complete not_completes_expression
              | closeParen => exact absurd rfl notClosing
              | _ => rfl
          · next after =>
              rw [after] at same
              refine ⟨_, rfl, same.trans ?_⟩
              rw [← lastPosition_eq_getLast 0]
              rfl

end Reading

/-! ## Evaluation -/

namespace Expr

mutual

/-- As many calls are enough as there are levels from here to the first one
beyond the limit, where evaluation is refused. -/
theorem evaluateNested_eq {limit : Nat} : forall (tree : Expr) (calls level : Nat),
    1 ≤ calls -> limit + 2 ≤ calls + level ->
      tree.evaluateNested calls limit level = ofOutcome (tree.evaluateAt limit level)
  | tree, calls + 1, level, _, room => by
      rw [evaluateNested.eq_def, evaluateAt.eq_def]
      dsimp only
      by_cases deep : limit < level
      · rw [if_pos deep, if_pos deep]
        rfl
      · rw [if_neg deep, if_neg deep]
        have some : 1 ≤ calls := by omega
        have enough : limit + 2 ≤ calls + (level + 1) := by omega
        cases tree with
        | literal value => rfl
        | signed sign operand =>
            dsimp only
            rw [evaluateNested_eq operand calls _ some enough, Limited.ofOutcome_bind]
        | binary operator left right =>
            dsimp only
            rw [evaluateNested_eq left calls _ some enough,
              evaluateNested_eq right calls _ some enough, Limited.ofOutcome_bind]
            congr 1
            funext leftValue
            rw [Limited.ofOutcome_bind]
        | call name arguments =>
            dsimp only
            rw [evaluateAllNested_eq arguments calls _ some enough, Limited.ofOutcome_bind]

/-- The trees of a list are evaluated one after the other, so none needs more
calls for the others. -/
theorem evaluateAllNested_eq {limit : Nat} : forall (trees : List Expr) (calls level : Nat),
    1 ≤ calls -> limit + 2 ≤ calls + level ->
      evaluateAllNested calls limit level trees = ofOutcome (evaluateAllAt limit level trees)
  | [], calls, level, _, _ => by
      rw [evaluateAllNested, evaluateAllAt]
      rfl
  | tree :: trees, calls, level, positive, room => by
      rw [evaluateAllNested, evaluateAllAt, evaluateNested_eq tree calls level positive room,
        evaluateAllNested_eq trees calls level positive room, Limited.ofOutcome_bind]
      congr 1
      funext value
      rw [Limited.ofOutcome_bind]
      rfl

end

end Expr

/-- The limit alone says how many calls may be nested: eight for each level and
eight more read every list of lexemes, and one for each level and one more
evaluate every tree.  Neither the length of the list nor the height of the tree
matters, the outcome is that of the reader and of the evaluation, and further
calls would not change it. -/
theorem nested_calls_bounded_by_limit :
    (forall (limit further : Nat) (lexemes : List Lexeme),
      Descent.parse (8 * (limit + 1) + further) limit lexemes =
          ofOutcome (Expr.ofLexemes limit lexemes) ∧
        Descent.parse (8 * (limit + 1) + further) limit lexemes ≠ .error .exhausted) ∧
    (forall (limit further : Nat) (tree : Expr),
      tree.evaluateNested (limit + 1 + further) limit 1 = ofOutcome (tree.evaluate limit) ∧
        tree.evaluateNested (limit + 1 + further) limit 1 ≠ .error .exhausted) := by
  constructor
  · intro limit further lexemes
    have same : Descent.parse (8 * (limit + 1) + further) limit lexemes =
        ofOutcome (Expr.ofLexemes limit lexemes) :=
      (Reading.start_follows (Nat.le_add_right _ further) lexemes).eq_ofOutcome
    exact ⟨same, same ▸ Limited.ofOutcome_ne_exhausted _⟩
  · intro limit further tree
    have same : tree.evaluateNested (limit + 1 + further) limit 1 =
        ofOutcome (tree.evaluate limit) :=
      Expr.evaluateNested_eq tree _ 1 (by omega) (by omega)
    exact ⟨same, same ▸ Limited.ofOutcome_ne_exhausted _⟩

/-- The bound is reached: a name takes eight calls even where nothing may be
nested. -/
example : Descent.parse 7 0 [⟨.identifier "f", 0⟩] = .error .exhausted := rfl

end DeskCalculator

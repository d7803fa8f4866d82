import DeskCalculator.Expr.Reading
import DeskCalculator.Proofs.Grammar
import DeskCalculator.Proofs.Outcome

namespace DeskCalculator

/-!
# What a reading has derived so far

A place in the reading covers the lexemes before it: every operand that it
keeps is derived from a stretch of them, and every construct that it leaves
open stands for the lexemes that opened it.  One token takes a place that
covers some lexemes to one that covers that token as well, so a reading that
ends with a tree has derived the tree.

The strengths by which the reader groups operators appear here as the
categories of the grammar: a construct yields to an operator exactly if it fits
to the left of it, and keeps waiting exactly if the operator fits into its
slot.
-/

namespace Pending

/-- What the last operand of the construct has to be. -/
def slot : Pending -> Category
  | signed _ _ => .unary
  | binary operator _ _ => operator.rightCategory

/-- What the construct is once it has its last operand. -/
def category : Pending -> Category
  | signed _ _ => .unary
  | binary operator _ _ => operator.category

/-- What the next operand inside some pending constructs may be. -/
def innermostSlot : List Pending -> Category
  | [] => .expression
  | pending :: _ => pending.slot

/-- The construct around its last operand. -/
def around : Pending -> Expr -> Expr
  | signed sign _, operand => .signed sign operand
  | binary operator left _, operand => .binary operator left.expr operand

theorem operator_yieldsTo_iff (operator next : Operator) :
    operator.yieldsTo next = true ↔ operator.category.rank ≤ next.leftCategory.rank := by
  cases operator <;> cases next <;> decide

theorem operator_not_yieldsTo_iff (operator next : Operator) :
    operator.yieldsTo next = false ↔ next.category.rank ≤ operator.rightCategory.rank := by
  cases operator <;> cases next <;> decide

theorem yieldsTo_iff (pending : Pending) (next : Operator) :
    pending.yieldsTo next = true ↔ pending.category.rank ≤ next.leftCategory.rank := by
  cases pending with
  | signed sign position =>
      cases next <;> simp [yieldsTo, category, Operator.leftCategory, Category.rank]
  | binary operator left position => exact operator_yieldsTo_iff operator next

theorem not_yieldsTo_iff (pending : Pending) (next : Operator) :
    pending.yieldsTo next = false ↔ next.category.rank ≤ pending.slot.rank := by
  cases pending with
  | signed sign position => cases next <;> simp [yieldsTo, slot, Operator.category, Category.rank]
  | binary operator left position => exact operator_not_yieldsTo_iff operator next

theorem unary_fits (pending : List Pending) :
    Category.unary.rank ≤ (innermostSlot pending).rank := by
  cases pending with
  | nil => decide
  | cons innermost outer =>
      cases innermost with
      | signed sign position => exact Nat.le_refl _
      | binary operator left position => cases operator <;> exact Nat.le_of_ble_eq_true rfl

theorem countP_signed (sign : Sign) (position : Nat) (outer : List Pending) :
    (signed sign position :: outer).countP nests = outer.countP nests + 1 :=
  List.countP_cons_of_pos rfl

theorem countP_binary (operator : Operator) (left : Subtree) (position : Nat)
    (outer : List Pending) :
    (binary operator left position :: outer).countP nests =
      outer.countP nests + operator.descents := by
  rw [List.countP_cons]
  cases operator <;> rfl

/-- The pending constructs, the innermost one first, stand for some lexemes.
The place outside them has the level `base`, and no place may be deeper than
the limit. -/
inductive Covers (limit base : Nat) : List Pending -> List Lexeme -> Prop
  | nothing (shallow : base ≤ limit) : Covers limit base [] []
  | signed {operator : Operator} {sign : Sign} (position : Nat) {outer : List Pending}
      {lexemes : List Lexeme} (covered : Covers limit base outer lexemes)
      (written : Sign.ofOperator? operator = some sign)
      (shallow : base + outer.countP nests + 1 ≤ limit) :
      Covers limit base (.signed sign position :: outer)
        (lexemes ++ [⟨.operator operator, position⟩])
  | binary (operator : Operator) (position : Nat) {left : Subtree} {outer : List Pending}
      {lexemes operand : List Lexeme} {descents : Nat} (covered : Covers limit base outer lexemes)
      (derived : Derives operator.leftCategory operand left.expr descents)
      (fits : operator.category.rank ≤ (innermostSlot outer).rank)
      (leftShallow : base + outer.countP nests + descents ≤ limit)
      (shallow : base + outer.countP nests + operator.descents ≤ limit) :
      Covers limit base (.binary operator left position :: outer)
        (lexemes ++ operand ++ [⟨.operator operator, position⟩])

theorem Covers.shallow {limit base : Nat} {pending : List Pending} {lexemes : List Lexeme}
    (covered : Covers limit base pending lexemes) : base + pending.countP nests ≤ limit := by
  cases covered with
  | nothing shallow => simpa using shallow
  | signed position covered written shallow =>
      rw [countP_signed]
      omega
  | binary operator position covered derived fits leftShallow shallow =>
      rw [countP_binary]
      omega

theorem fill_ok {limit : Nat} {pending : Pending} {operand result : Subtree}
    (filled : pending.fill limit operand = .ok result) :
    result.height ≤ limit ∧ result.expr = pending.around operand.expr := by
  cases pending <;>
  · rcases Subtree.checked_eq_ok_iff.mp filled with ⟨rfl, low⟩
    exact ⟨low, rfl⟩

theorem fillAll_cons (limit : Nat) (operand : Subtree) (innermost : Pending)
    (outer : List Pending) :
    fillAll limit operand (innermost :: outer) =
      innermost.fill limit operand >>= fun node => fillAll limit node outer :=
  List.foldlM_cons

/-- Filling the innermost constructs derives the category that all of them fit
into, from a stretch of lexemes that reaches back to where the outermost of
them begins. -/
theorem Covers.fillAll {limit base : Nat} {inner outer : List Pending}
    {lexemes stretch : List Lexeme} {operand result : Subtree} {category target : Category}
    {descents : Nat} (covered : Covers limit base (inner ++ outer) lexemes)
    (derived : Derives category stretch operand.expr descents)
    (fits : category.rank ≤ (innermostSlot (inner ++ outer)).rank)
    (reaches : category.rank ≤ target.rank)
    (allReach : forall pending, pending ∈ inner -> pending.category.rank ≤ target.rank)
    (shallow : base + (inner ++ outer).countP nests + descents ≤ limit)
    (low : operand.height ≤ max limit 1)
    (filled : Pending.fillAll limit operand inner = .ok result) :
    Exists fun before : List Lexeme => Exists fun after : List Lexeme => Exists fun more : Nat =>
      lexemes ++ stretch = before ++ after ∧ Covers limit base outer before ∧
        Derives target after result.expr more ∧ base + outer.countP nests + more ≤ limit ∧
        result.height ≤ max limit 1 := by
  induction inner generalizing lexemes stretch operand category descents with
  | nil =>
      cases filled
      exact ⟨lexemes, stretch, descents, rfl, covered, derived.loosen reaches, shallow, low⟩
  | cons innermost inner ih =>
      rw [fillAll_cons] at filled
      rcases Outcome.bind_eq_ok_iff.mp filled with ⟨node, nodeFilled, restFilled⟩
      rcases fill_ok nodeFilled with ⟨nodeLow, nodeExpr⟩
      have restReach : forall pending, pending ∈ inner -> pending.category.rank ≤ target.rank :=
        fun pending member => allReach pending (List.mem_cons_of_mem _ member)
      have nodeReaches := allReach innermost List.mem_cons_self
      rw [List.cons_append] at covered shallow fits
      cases covered with
      | @signed operator sign position _ before outerCovered written nested =>
          rw [countP_signed] at shallow
          have nodeDerived : Derives .unary (⟨.operator operator, position⟩ :: stretch)
              node.expr (descents + 1) := by
            rw [nodeExpr]
            exact .signed position written (derived.loosen fits)
          rcases ih outerCovered nodeDerived (unary_fits _) nodeReaches restReach (by omega)
            (by omega) restFilled with ⟨front, back, more, split, rest⟩
          exact ⟨front, back, more, by simpa using split, rest⟩
      | @binary operator position left _ before operandLexemes leftDescents outerCovered
          leftDerived operatorFits leftShallow nested =>
          rw [countP_binary] at shallow
          have nodeDerived : Derives operator.category
              (operandLexemes ++ ⟨.operator operator, position⟩ :: stretch) node.expr
              (max leftDescents (descents + operator.descents)) := by
            rw [nodeExpr]
            exact .binary operator position leftDerived (derived.loosen fits)
          rcases ih outerCovered nodeDerived operatorFits nodeReaches restReach (by omega)
            (by omega) restFilled with ⟨front, back, more, split, rest⟩
          exact ⟨front, back, more, by simpa using split, rest⟩

end Pending

/-! ## Enclosures -/

/-- Number of levels of nesting just inside the innermost enclosure. -/
def Enclosure.levelInside (enclosures : List (Enclosure × List Pending)) : Nat :=
  (enclosures.map fun enclosed => enclosed.2.countP Pending.nests + 1).sum

theorem Enclosure.levelInside_cons (enclosure : Enclosure) (pending : List Pending)
    (outer : List (Enclosure × List Pending)) :
    levelInside ((enclosure, pending) :: outer) =
      levelInside outer + pending.countP Pending.nests + 1 := by
  simp only [levelInside, List.map_cons, List.sum_cons]
  omega

theorem Surroundings.level_eq (around : Surroundings) :
    around.level =
      Enclosure.levelInside around.enclosures + around.pending.countP Pending.nests :=
  Nat.add_comm _ _

/-- The arguments before the last comma of a call, the last one first, stand
for some lexemes; the commas after them are included. -/
def Enclosure.CoversArguments (limit level : Nat) :
    (reversed : List Subtree) -> (lexemes : List Lexeme) -> Prop
  | [], lexemes => lexemes = []
  | reversed, lexemes =>
      Exists fun stretch : List Lexeme => Exists fun position : Nat => Exists fun descents : Nat =>
        lexemes = stretch ++ [⟨.comma, position⟩] ∧
          DerivesArguments stretch (Subtree.exprs reversed.reverse) descents ∧
          level + descents ≤ limit

/-- The enclosures, the innermost one first, with what is pending around each,
stand for some lexemes. -/
inductive Enclosure.Covers (limit : Nat) :
    List (Enclosure × List Pending) -> List Lexeme -> Prop
  | nothing : Covers limit [] []
  | group (opened : Nat) {pending : List Pending} {outer : List (Enclosure × List Pending)}
      {front back : List Lexeme} (enclosed : Covers limit outer front)
      (held : Pending.Covers limit (levelInside outer) pending back)
      (shallow : levelInside outer + pending.countP Pending.nests + 1 ≤ limit) :
      Covers limit ((.group opened, pending) :: outer) (front ++ back ++ [⟨.openParen, opened⟩])
  | call (callee : Callee) (opened : Nat) {reversed : List Subtree} {pending : List Pending}
      {outer : List (Enclosure × List Pending)} {front back arguments : List Lexeme}
      (enclosed : Covers limit outer front)
      (held : Pending.Covers limit (levelInside outer) pending back)
      (shallow : levelInside outer + pending.countP Pending.nests + 1 ≤ limit)
      (read : CoversArguments limit (levelInside outer + pending.countP Pending.nests + 1)
        reversed arguments) :
      Covers limit ((.call callee opened reversed, pending) :: outer)
        (front ++ back ++ ⟨.identifier callee.name, callee.position⟩ :: ⟨.openParen, opened⟩ ::
          arguments)

/-- What surrounds a place stands for the lexemes before the place. -/
def Surroundings.Covers (limit : Nat) (around : Surroundings) (lexemes : List Lexeme) : Prop :=
  Exists fun front : List Lexeme => Exists fun back : List Lexeme =>
    lexemes = front ++ back ∧ Enclosure.Covers limit around.enclosures front ∧
      Pending.Covers limit (Enclosure.levelInside around.enclosures) around.pending back

theorem Enclosure.CoversArguments.append {limit level descents : Nat} {reversed : List Subtree}
    {lexemes stretch : List Lexeme} {last : Subtree}
    (covered : CoversArguments limit level reversed lexemes)
    (derived : Derives .expression stretch last.expr descents)
    (shallow : level + descents ≤ limit) :
    Exists fun more : Nat =>
      DerivesArguments (lexemes ++ stretch) (Subtree.exprs (last :: reversed).reverse) more ∧
        level + more ≤ limit := by
  cases reversed with
  | nil =>
      subst covered
      exact ⟨descents, .first derived, shallow⟩
  | cons previous earlier =>
      rcases covered with ⟨before, position, fewer, rfl, read, beforeShallow⟩
      refine ⟨max fewer descents, ?_, by omega⟩
      simpa [Subtree.exprs] using DerivesArguments.next position read derived

/-- A place in the reading, and what has been read, stand for the lexemes that
were read to get there. -/
def Reading.Covers (limit : Nat) : Reading -> List Lexeme -> Prop
  | beforeOperand around, lexemes => around.Covers limit lexemes
  | afterName callee around, lexemes => Exists fun before : List Lexeme =>
      lexemes = before ++ [⟨.identifier callee.name, callee.position⟩] ∧
        around.Covers limit before
  | beforeArguments callee opened around, lexemes => Exists fun before : List Lexeme =>
      lexemes =
          before ++ [⟨.identifier callee.name, callee.position⟩, ⟨.openParen, opened⟩] ∧
        around.Covers limit before ∧ around.level + 1 ≤ limit
  | afterOperand operand around, lexemes =>
      Exists fun before : List Lexeme => Exists fun stretch : List Lexeme =>
        Exists fun descents : Nat =>
          lexemes = before ++ stretch ∧ around.Covers limit before ∧
            Derives .primary stretch operand.expr descents ∧
            around.level + descents ≤ limit ∧ operand.height ≤ max limit 1

namespace Surroundings

variable {limit : Nat} {around : Surroundings} {lexemes : List Lexeme}

theorem Covers.enclose_group (covered : around.Covers limit lexemes) (opened : Nat)
    (shallow : around.level + 1 ≤ limit) :
    (around.enclose (.group opened)).Covers limit (lexemes ++ [⟨.openParen, opened⟩]) := by
  rcases covered with ⟨front, back, rfl, enclosed, held⟩
  rw [level_eq] at shallow
  exact ⟨_, [], (List.append_nil _).symm, .group opened enclosed held shallow,
    .nothing (Enclosure.levelInside_cons _ _ _ ▸ shallow)⟩

theorem Covers.enclose_call (covered : around.Covers limit lexemes) (callee : Callee)
    (opened : Nat) (shallow : around.level + 1 ≤ limit) :
    (around.enclose (.call callee opened [])).Covers limit
      (lexemes ++ [⟨.identifier callee.name, callee.position⟩, ⟨.openParen, opened⟩]) := by
  rcases covered with ⟨front, back, rfl, enclosed, held⟩
  rw [level_eq] at shallow
  exact ⟨_, [], (List.append_nil _).symm, .call callee opened enclosed held shallow rfl,
    .nothing (Enclosure.levelInside_cons _ _ _ ▸ shallow)⟩

theorem Covers.shallow (covered : around.Covers limit lexemes) : around.level ≤ limit := by
  rcases covered with ⟨front, back, rfl, enclosed, held⟩
  rw [level_eq]
  exact held.shallow

theorem Covers.hold_signed {operator : Operator} {sign : Sign}
    (covered : around.Covers limit lexemes) (position : Nat)
    (written : Sign.ofOperator? operator = some sign) (shallow : around.level + 1 ≤ limit) :
    (around.hold (.signed sign position)).Covers limit
      (lexemes ++ [⟨.operator operator, position⟩]) := by
  rcases covered with ⟨front, back, rfl, enclosed, held⟩
  rw [level_eq] at shallow
  exact ⟨front, _, List.append_assoc _ _ _, enclosed, .signed position held written shallow⟩

theorem descend_ok {position : Nat} {inside : Nesting}
    (descended : (around.nesting limit).descend position = .ok inside) :
    around.level + 1 ≤ limit := by
  unfold Nesting.descend at descended
  split at descended
  · assumption
  · cases descended

end Surroundings

/-! ## One token -/

namespace Reading

variable {limit : Nat} {around : Surroundings} {lexemes : List Lexeme}

theorem await_ok {pending : Pending} {next : Reading}
    (awaited : await limit around pending = .ok next) :
    next = beforeOperand (around.hold pending) ∧
      (pending.nests = true -> around.level + 1 ≤ limit) := by
  unfold await at awaited
  split at awaited
  · rcases Outcome.bind_eq_ok_iff.mp awaited with ⟨inside, descended, same⟩
    cases same
    exact ⟨rfl, fun _ => Surroundings.descend_ok descended⟩
  · cases awaited
    exact ⟨rfl, fun nests => absurd nests (by assumption)⟩

/-- The first argument of a call starts like any operand. -/
theorem step_beforeArguments {limit opened position : Nat} {callee : Callee}
    {around : Surroundings} {token : Token} (goesOn : token ≠ .closeParen) :
    (beforeArguments callee opened around).step limit token position =
      readOperand limit (around.enclose (.call callee opened [])) token position := by
  cases token with
  | closeParen => exact absurd rfl goesOn
  | _ => rfl

theorem run_cons {limit last position : Nat} {reading : Reading} {token : Token}
    {rest : List Lexeme} (goesOn : token ≠ .endOfInput) :
    reading.run limit last (⟨token, position⟩ :: rest) =
      reading.step limit token position >>= fun next => next.run limit position rest :=
  run.eq_3 limit reading last token position rest goesOn

/-- Where an expression ends, filling all that is pending derives the whole of
what is enclosed. -/
theorem fillAll_covers {operand whole : Subtree} {stretch : List Lexeme} {descents : Nat}
    (covered : around.Covers limit lexemes)
    (derived : Derives .primary stretch operand.expr descents)
    (shallow : around.level + descents ≤ limit) (low : operand.height ≤ max limit 1)
    (filled : Pending.fillAll limit operand around.pending = .ok whole) :
    Exists fun front : List Lexeme => Exists fun back : List Lexeme => Exists fun more : Nat =>
      lexemes ++ stretch = front ++ back ∧ Enclosure.Covers limit around.enclosures front ∧
        Derives .expression back whole.expr more ∧
        Enclosure.levelInside around.enclosures + more ≤ limit ∧
        whole.height ≤ max limit 1 := by
  rcases covered with ⟨front, back, rfl, enclosed, held⟩
  rw [Surroundings.level_eq] at shallow
  rw [← List.append_nil around.pending] at held shallow
  have reach : forall pending, pending ∈ around.pending ->
      pending.category.rank ≤ Category.expression.rank := by
    intro pending member
    cases pending.category <;> exact Nat.le_of_ble_eq_true rfl
  rcases held.fillAll derived (Nat.zero_le _) (Nat.zero_le _) reach shallow low filled with
    ⟨before, after, more, split, nothingHeld, wholeDerived, room, wholeLow⟩
  cases nothingHeld
  refine ⟨front, after, more, ?_, enclosed, wholeDerived, by simpa using room, wholeLow⟩
  simpa [List.append_assoc] using split

theorem readOperand_covers {token : Token} {position : Nat} {next : Reading}
    (covered : around.Covers limit lexemes)
    (read : readOperand limit around token position = .ok next) :
    next.Covers limit (lexemes ++ [⟨token, position⟩]) := by
  cases token with
  | number value =>
      cases read
      exact ⟨lexemes, _, 0, rfl, covered, .number value position, covered.shallow,
        Nat.le_max_right _ _⟩
  | identifier name =>
      cases read
      exact ⟨lexemes, rfl, covered⟩
  | openParen =>
      rcases Outcome.bind_eq_ok_iff.mp read with ⟨inside, descended, same⟩
      cases same
      exact covered.enclose_group position (Surroundings.descend_ok descended)
  | operator operator =>
      simp only [readOperand] at read
      cases written : Sign.ofOperator? operator with
      | none => rw [written] at read; cases read
      | some sign =>
          rw [written] at read
          rcases await_ok read with ⟨rfl, shallow⟩
          exact covered.hold_signed position written (shallow rfl)
  | closeParen | comma | endOfInput => cases read

/-- An argument list that is complete makes a call, wherever it stands. -/
theorem closeArguments_covers {callee : Callee} {opened position descents : Nat}
    {arguments : List Subtree} (inside : List Lexeme) {next : Reading}
    (covered : around.Covers limit lexemes)
    (derived : Derives .primary
      (⟨.identifier callee.name, callee.position⟩ :: ⟨.openParen, opened⟩ ::
        (inside ++ [⟨.closeParen, position⟩]))
      (.call callee.name (Subtree.exprs arguments)) descents)
    (shallow : around.level + descents ≤ limit)
    (closed : closeArguments limit callee arguments around = .ok next) :
    next.Covers limit
      (lexemes ++ ⟨.identifier callee.name, callee.position⟩ :: ⟨.openParen, opened⟩ ::
        (inside ++ [⟨.closeParen, position⟩])) := by
  rcases Outcome.bind_eq_ok_iff.mp closed with ⟨whole, built, same⟩
  cases same
  rcases Subtree.checked_eq_ok_iff.mp built with ⟨rfl, low⟩
  have lowest := Nat.le_trans low (Nat.le_max_left limit 1)
  exact ⟨lexemes, _, descents, rfl, covered, derived, shallow, lowest⟩

/-- An operator takes everything that yields to it as its left operand; what
is left over has room for the operator. -/
theorem readOperator_covers {operand : Subtree} {operator : Operator} {position descents : Nat}
    {stretch : List Lexeme} {next : Reading} (covered : around.Covers limit lexemes)
    (derived : Derives .primary stretch operand.expr descents)
    (shallow : around.level + descents ≤ limit) (low : operand.height ≤ max limit 1)
    (read : readOperator limit operand around operator position = .ok next) :
    next.Covers limit (lexemes ++ stretch ++ [⟨.operator operator, position⟩]) := by
  rcases Outcome.bind_eq_ok_iff.mp read with ⟨larger, filled, awaited⟩
  rcases await_ok awaited with ⟨rfl, deeper⟩
  rcases covered with ⟨front, back, rfl, enclosed, held⟩
  have parts : around.pending.takeWhile (Pending.yieldsTo operator) ++
      around.pending.dropWhile (Pending.yieldsTo operator) = around.pending :=
    List.takeWhile_append_dropWhile
  have reach : forall pending,
      pending ∈ around.pending.takeWhile (Pending.yieldsTo operator) ->
        pending.category.rank ≤ operator.leftCategory.rank :=
    fun pending member => (Pending.yieldsTo_iff pending operator).mp
      (List.all_eq_true.mp List.all_takeWhile pending member)
  have keeps := List.head?_dropWhile_not (Pending.yieldsTo operator) around.pending
  rw [Surroundings.level_eq] at shallow deeper
  rw [← parts] at held shallow
  dsimp only at deeper
  generalize around.pending.takeWhile (Pending.yieldsTo operator) = inner at *
  generalize around.pending.dropWhile (Pending.yieldsTo operator) = outer at *
  rcases held.fillAll derived (Nat.zero_le _) (Nat.zero_le _) reach shallow low filled with
    ⟨before, after, more, split, outerHeld, largerDerived, room, _⟩
  have fits : operator.category.rank ≤ (Pending.innermostSlot outer).rank := by
    cases outer with
    | nil => cases operator <;> exact Nat.le_of_ble_eq_true rfl
    | cons innermost rest =>
        exact (Pending.not_yieldsTo_iff innermost operator).mp (by simpa using keeps)
  have nested : Enclosure.levelInside around.enclosures + outer.countP Pending.nests +
      operator.descents ≤ limit := by
    cases operator with
    | power => exact deeper rfl
    | _ => exact outerHeld.shallow
  have holds := Pending.Covers.binary operator position outerHeld largerDerived fits room nested
  refine ⟨front, _, ?_, enclosed, holds⟩
  simp [← split, List.append_assoc]

/-- A delimiter completes what is enclosed: it closes the enclosure, or goes on
to the next argument. -/
theorem readDelimiter_covers {enclosures : List (Enclosure × List Pending)} {whole : Subtree}
    {token : Token} {position descents : Nat} {front stretch : List Lexeme} {next : Reading}
    (enclosed : Enclosure.Covers limit enclosures front)
    (derived : Derives .expression stretch whole.expr descents)
    (shallow : Enclosure.levelInside enclosures + descents ≤ limit)
    (low : whole.height ≤ max limit 1)
    (read : readDelimiter limit whole enclosures token position = .ok next) :
    next.Covers limit (front ++ stretch ++ [⟨token, position⟩]) := by
  cases enclosed with
  | nothing => cases token <;> cases read
  | @group opened pending outer front back enclosed held room =>
      rw [Enclosure.levelInside_cons] at shallow
      cases token with
      | closeParen =>
          cases read
          refine ⟨front ++ back, ⟨.openParen, opened⟩ :: (stretch ++ [⟨.closeParen, position⟩]),
            descents + 1, by simp, ⟨front, back, rfl, enclosed, held⟩,
            .group opened position derived, ?_, low⟩
          rw [Surroundings.level_eq]
          dsimp only
          omega
      | _ => cases read
  | @call callee opened reversed pending outer front back arguments enclosed held room before =>
      rw [Enclosure.levelInside_cons] at shallow
      rcases before.append derived shallow with ⟨more, derivedAll, allShallow⟩
      cases token with
      | closeParen =>
          have outside : Surroundings.Covers limit ⟨pending, outer⟩ (front ++ back) :=
            ⟨front, back, rfl, enclosed, held⟩
          have closed := closeArguments_covers _ outside
            (.call callee.name callee.position opened position derivedAll)
            (by rw [Surroundings.level_eq]; dsimp only; omega) read
          simpa using closed
      | comma =>
          cases read
          have here : Enclosure.CoversArguments limit
              (Enclosure.levelInside outer + pending.countP Pending.nests + 1)
              (whole :: reversed) (arguments ++ stretch ++ [⟨.comma, position⟩]) :=
            ⟨arguments ++ stretch, position, more, rfl, derivedAll, allShallow⟩
          refine ⟨_, [], ?_, .call callee opened enclosed held room here,
            .nothing (Enclosure.levelInside_cons _ _ _ ▸ room)⟩
          simp
      | _ => cases read

/-- One token takes a place that covers the lexemes before it to one that
covers the token as well. -/
theorem step_covers {reading next : Reading} {token : Token} {position : Nat}
    (covered : reading.Covers limit lexemes)
    (stepped : reading.step limit token position = .ok next) :
    next.Covers limit (lexemes ++ [⟨token, position⟩]) := by
  cases reading with
  | beforeOperand around => exact readOperand_covers covered stepped
  | afterName callee around =>
      rcases covered with ⟨before, rfl, aroundCovered⟩
      cases token with
      | openParen =>
          rcases Outcome.bind_eq_ok_iff.mp stepped with ⟨inside, descended, same⟩
          cases same
          exact ⟨before, by simp, aroundCovered, Surroundings.descend_ok descended⟩
      | _ => cases stepped
  | beforeArguments callee opened around =>
      rcases covered with ⟨before, rfl, aroundCovered, shallow⟩
      have enclosed := aroundCovered.enclose_call callee opened shallow
      cases token with
      | closeParen =>
          have closed := closeArguments_covers [] aroundCovered
            (.emptyCall callee.name callee.position opened position) shallow stepped
          simpa using closed
      | _ => exact readOperand_covers enclosed stepped
  | afterOperand operand around =>
      rcases covered with ⟨before, stretch, descents, rfl, aroundCovered, derived, shallow, low⟩
      cases token with
      | operator operator => exact readOperator_covers aroundCovered derived shallow low stepped
      | _ =>
          rcases Outcome.bind_eq_ok_iff.mp stepped with ⟨whole, filled, read⟩
          rcases fillAll_covers aroundCovered derived shallow low filled with
            ⟨front, back, more, split, enclosed, wholeDerived, room, wholeLow⟩
          rw [split]
          exact readDelimiter_covers enclosed wholeDerived room wholeLow read

/-! ## All tokens -/

theorem conclude_derives {reading : Reading} {position : Nat} {tree : Expr}
    (covered : reading.Covers limit lexemes)
    (concluded : reading.conclude limit position = .ok tree) :
    Exists fun descents : Nat =>
      Derives .expression lexemes tree descents ∧ descents ≤ limit ∧
        tree.height ≤ max limit 1 := by
  cases reading with
  | beforeOperand around | afterName callee around | beforeArguments callee opened around =>
      cases concluded
  | afterOperand operand around =>
      rcases covered with ⟨before, stretch, descents, rfl, aroundCovered, derived, shallow, low⟩
      rcases Outcome.bind_eq_ok_iff.mp concluded with ⟨whole, filled, alone⟩
      rcases fillAll_covers aroundCovered derived shallow low filled with
        ⟨front, back, more, split, enclosed, wholeDerived, room, wholeLow⟩
      cases outer : around.enclosures with
      | nil =>
          rw [outer] at alone enclosed room
          cases alone
          cases enclosed
          refine ⟨more, split ▸ wholeDerived, Nat.le_trans (Nat.le_add_left _ _) room, ?_⟩
          rw [← whole.height_eq]
          exact wholeLow
      | cons enclosed outer =>
          rw [outer] at alone
          cases alone

/-- A reading that ends with a tree has derived the tree from the lexemes up to
the end of the input. -/
theorem run_derives {reading : Reading} {last : Nat} {ahead : List Lexeme} {tree : Expr}
    (covered : reading.Covers limit lexemes)
    (read : reading.run limit last ahead = .ok tree) :
    Exists fun stretch : List Lexeme => Exists fun position : Nat =>
      Exists fun rest : List Lexeme => Exists fun descents : Nat =>
        ahead = stretch ++ ⟨.endOfInput, position⟩ :: rest ∧
          (forall lexeme, lexeme ∈ stretch -> lexeme.token ≠ .endOfInput) ∧
          Derives .expression (lexemes ++ stretch) tree descents ∧ descents ≤ limit ∧
          tree.height ≤ max limit 1 := by
  induction ahead generalizing reading last lexemes with
  | nil =>
      rcases Outcome.bind_eq_ok_iff.mp read with ⟨unused, concluded, missing⟩
      cases missing
  | cons next rest ih =>
      rcases next with ⟨token, position⟩
      by_cases ends : token = .endOfInput
      · subst ends
        rcases conclude_derives covered read with ⟨descents, derived, room, low⟩
        exact ⟨[], position, rest, descents, rfl, nofun, by simpa using derived, room, low⟩
      · rw [run_cons ends] at read
        rcases Outcome.bind_eq_ok_iff.mp read with ⟨after, stepped, readRest⟩
        rcases ih (step_covers covered stepped) readRest with
          ⟨stretch, final, beyond, descents, rfl, inside, derived, room, low⟩
        refine ⟨⟨token, position⟩ :: stretch, final, beyond, descents, rfl, ?_, ?_, room, low⟩
        · intro lexeme member
          rcases List.mem_cons.mp member with rfl | later
          · exact ends
          · exact inside lexeme later
        · simpa using derived

theorem start_covers : start.Covers limit [] :=
  ⟨[], [], rfl, .nothing, .nothing (Nat.zero_le _)⟩

end Reading

theorem Expr.ofLexemes_cons {limit position : Nat} {token : Token} {rest : List Lexeme}
    (goesOn : token ≠ .endOfInput) :
    Expr.ofLexemes limit (⟨token, position⟩ :: rest) =
      Reading.start.run limit 0 (⟨token, position⟩ :: rest) :=
  Expr.ofLexemes.eq_3 limit _ nofun fun _ _ same => goesOn (by cases same; rfl)

/-- Lexemes that read as a tree derive it, within the limit; only a single
literal may be taller, under the limit zero. -/
theorem Expr.ofLexemes_derives {limit : Nat} {lexemes : List Lexeme} {tree : Expr}
    (read : Expr.ofLexemes limit lexemes = .ok tree) :
    Exists fun stretch : List Lexeme => Exists fun position : Nat =>
      Exists fun rest : List Lexeme => Exists fun descents : Nat =>
        lexemes = stretch ++ ⟨.endOfInput, position⟩ :: rest ∧
          (forall lexeme, lexeme ∈ stretch -> lexeme.token ≠ .endOfInput) ∧
          Derives .expression stretch tree descents ∧ descents ≤ limit ∧
          tree.height ≤ max limit 1 := by
  unfold Expr.ofLexemes at read
  split at read
  · cases read
  · cases read
  · exact Reading.run_derives Reading.start_covers read

end DeskCalculator

import DeskCalculator.Proofs.Grammar.Soundness

namespace DeskCalculator

/-!
# Every derivation is read

Whatever surrounds a place, the lexemes of a derivation that fits there take
the reading past the tree that they derive, unless a descent or a node exceeds
the limit.  In that case nesting too deeply is the only failure: the two
outcomes are kept together, because a longer derivation fails where its first
part does.

A construct that is still pending may be filled early.  As long as what follows
does not bind its last operand more strongly, filling it at once and filling it
later come to the same, failures included.
-/

/-- An outcome that is the intended one exactly as far as the limit allows. -/
def Within {Result : Type} (limit : Nat) (allowed : Prop)
    (outcome intended : Except SyntaxError Result) : Prop :=
  (allowed -> outcome = intended) ∧
    (¬ allowed -> Exists fun position : Nat => outcome = .error (.tooDeep limit position))

namespace Within

variable {Result More : Type} {limit : Nat} {first second : Prop}
  {outcome middle intended : Except SyntaxError Result}

theorem of_eq (holds : first) (same : outcome = intended) : Within limit first outcome intended :=
  ⟨fun _ => same, fun fails => absurd holds fails⟩

theorem congr (bound : Within limit first outcome intended) (same : first ↔ second) :
    Within limit second outcome intended :=
  ⟨fun holds => bound.1 (same.mpr holds), fun fails => bound.2 (fun holds => fails (same.mp holds))⟩

theorem trans (bound : Within limit first outcome middle)
    (next : first -> Within limit second middle intended) :
    Within limit (first ∧ second) outcome intended := by
  by_cases allowed : first
  · rw [bound.1 allowed]
    exact (next allowed).congr ⟨fun holds => ⟨allowed, holds⟩, fun both => both.2⟩
  · exact ⟨fun both => absurd both.1 allowed, fun _ => bound.2 allowed⟩

theorem bind {result : Result} (bound : Within limit first outcome (.ok result))
    (continuation : Result -> Except SyntaxError More) :
    Within limit first (outcome >>= continuation) (continuation result) := by
  constructor
  · intro allowed
    rw [bound.1 allowed]
    rfl
  · intro exceeded
    rcases bound.2 exceeded with ⟨position, failed⟩
    exact ⟨position, by rw [failed]; rfl⟩

end Within

/-! ## The checks against the limit -/

/-- A tree with its height. -/
def Subtree.ofExpr (tree : Expr) : Subtree :=
  ⟨tree, tree.height, rfl⟩

theorem Subtree.eq_ofExpr (subtree : Subtree) : subtree = ofExpr subtree.expr := by
  rcases subtree with ⟨tree, height, rfl⟩
  rfl

/-! A node is checked by the height of the tree that it makes, whatever carried
the heights of its operands. -/

theorem Subtree.signed_eq (limit : Nat) (sign : Sign) (operand : Subtree) (position : Nat) :
    signed limit sign operand position =
      checked limit position (ofExpr (.signed sign operand.expr)) := by
  rw [signed, eq_ofExpr ⟨_, _, _⟩]

theorem Subtree.binary_eq (limit : Nat) (operator : Operator) (left right : Subtree)
    (position : Nat) :
    binary limit operator left right position =
      checked limit position (ofExpr (.binary operator left.expr right.expr)) := by
  rw [binary, eq_ofExpr ⟨_, _, _⟩]

theorem Subtree.call_eq (limit : Nat) (name : String) (arguments : List Subtree)
    (position : Nat) :
    call limit name arguments position =
      checked limit position (ofExpr (.call name (exprs arguments))) := by
  rw [call, eq_ofExpr ⟨_, _, _⟩]

theorem Subtree.exprs_map_ofExpr (trees : List Expr) : exprs (trees.map ofExpr) = trees := by
  induction trees with
  | nil => rfl
  | cons tree trees ih => exact congrArg (tree :: ·) ih

theorem Expr.tallest_append (first second : List Expr) :
    Expr.tallest (first ++ second) = max (Expr.tallest first) (Expr.tallest second) := by
  induction first with
  | nil => exact (Nat.zero_max _).symm
  | cons tree trees ih => simp only [List.cons_append, Expr.tallest, ih, Nat.max_assoc]

theorem Subtree.checked_within (limit position : Nat) (tree : Subtree) :
    Within limit (tree.height ≤ limit) (checked limit position tree) (.ok tree) := by
  unfold checked
  exact ⟨fun low => if_pos low, fun tall => ⟨position, if_neg tall⟩⟩

namespace Surroundings

theorem descend_within (limit position : Nat) (around : Surroundings) :
    Within limit (around.level + 1 ≤ limit) ((around.nesting limit).descend position)
      (.ok ⟨limit, around.level + 1⟩) :=
  ⟨fun shallow => if_pos shallow, fun deep => ⟨position, if_neg deep⟩⟩

end Surroundings

namespace Reading

theorem await_within {limit : Nat} {around : Surroundings} (pending : Pending)
    (shallow : around.level ≤ limit) :
    Within limit ((around.hold pending).level ≤ limit) (await limit around pending)
      (.ok (beforeOperand (around.hold pending))) := by
  rw [Surroundings.level_hold]
  unfold await
  by_cases nests : pending.nests = true
  · rw [if_pos nests, if_pos nests]
    exact (Surroundings.descend_within limit pending.position around).bind _
  · rw [if_neg nests, if_neg nests]
    exact .of_eq shallow rfl

theorem closeArguments_within (limit : Nat) (callee : Callee) (arguments : List Expr)
    (around : Surroundings) :
    Within limit ((Expr.call callee.name arguments).height ≤ limit)
      (closeArguments limit callee (arguments.map Subtree.ofExpr) around)
      (.ok (afterOperand (.ofExpr (.call callee.name arguments)) around)) := by
  have whole : Subtree.call limit callee.name (arguments.map Subtree.ofExpr) callee.position =
      Subtree.checked limit callee.position (.ofExpr (.call callee.name arguments)) := by
    rw [Subtree.call_eq, Subtree.exprs_map_ofExpr]
  unfold closeArguments
  rw [whole]
  exact (Subtree.checked_within limit callee.position
    (.ofExpr (.call callee.name arguments))).bind fun whole => pure (afterOperand whole around)

/-! ## Filling early -/

/-- What follows an operand of this category does not bind its end more
strongly. -/
def Stops (category : Category) (ahead : List Lexeme) : Prop :=
  forall (operator : Operator) (position : Nat) (rest : List Lexeme),
    ahead = ⟨.operator operator, position⟩ :: rest ->
      category.rank ≤ operator.leftCategory.rank

theorem Stops.tighten {narrow wide : Category} {ahead : List Lexeme} (stops : Stops wide ahead)
    (looser : narrow.rank ≤ wide.rank) : Stops narrow ahead :=
  fun operator position rest same => Nat.le_trans looser (stops operator position rest same)

theorem stops_delimiter {category : Category} {token : Token} {position : Nat}
    {rest : List Lexeme} (delimits : forall operator, token ≠ .operator operator) :
    Stops category (⟨token, position⟩ :: rest) := by
  intro operator place tail same
  cases same
  exact absurd rfl (delimits operator)

theorem stops_unary (ahead : List Lexeme) : Stops .unary ahead := by
  intro operator position rest same
  cases operator <;> exact Nat.le_of_ble_eq_true rfl

theorem readOperator_hold {limit position : Nat} {operator : Operator} {pending : Pending}
    {operand : Subtree} {around : Surroundings} (yields : pending.yieldsTo operator = true) :
    readOperator limit operand (around.hold pending) operator position =
      pending.fill limit operand >>= fun whole =>
        readOperator limit whole around operator position := by
  unfold readOperator
  dsimp only [Surroundings.hold]
  rw [List.takeWhile_cons_of_pos yields, List.dropWhile_cons_of_pos yields, Pending.fillAll_cons]
  cases pending.fill limit operand <;> rfl

theorem step_hold {limit position : Nat} {token : Token} {rest : List Lexeme}
    {pending : Pending} {operand : Subtree} {around : Surroundings}
    (stops : Stops pending.category (⟨token, position⟩ :: rest)) :
    (afterOperand operand (around.hold pending)).step limit token position =
      pending.fill limit operand >>= fun whole =>
        (afterOperand whole around).step limit token position := by
  cases token with
  | operator operator =>
      exact readOperator_hold
        ((Pending.yieldsTo_iff pending operator).mpr (stops operator position rest rfl))
  | _ =>
      dsimp only [step, Surroundings.hold]
      rw [Pending.fillAll_cons]
      cases pending.fill limit operand <;> rfl

theorem conclude_hold {limit position : Nat} {pending : Pending} {operand : Subtree}
    {around : Surroundings} :
    (afterOperand operand (around.hold pending)).conclude limit position =
      pending.fill limit operand >>= fun whole =>
        (afterOperand whole around).conclude limit position := by
  dsimp only [conclude, Surroundings.hold]
  rw [Pending.fillAll_cons]
  cases pending.fill limit operand <;> rfl

/-- A construct may be filled as soon as its last operand is complete. -/
theorem run_hold {limit last : Nat} {ahead : List Lexeme} {pending : Pending}
    {operand : Subtree} {around : Surroundings} (stops : Stops pending.category ahead) :
    (afterOperand operand (around.hold pending)).run limit last ahead =
      pending.fill limit operand >>= fun whole =>
        (afterOperand whole around).run limit last ahead := by
  cases ahead with
  | nil =>
      unfold run
      rw [conclude_hold]
      cases pending.fill limit operand <;> rfl
  | cons next rest =>
      rcases next with ⟨token, position⟩
      by_cases ends : token = .endOfInput
      · subst ends
        exact conclude_hold
      · rw [run_cons ends, step_hold stops]
        cases pending.fill limit operand with
        | error error => rfl
        | ok whole =>
            change _ = (afterOperand whole around).run limit last (⟨token, position⟩ :: rest)
            rw [run_cons ends]
            rfl

/-- Filling a pending construct is bounded by the height of what it becomes. -/
theorem run_hold_within {limit last : Nat} {ahead : List Lexeme} {around : Surroundings}
    (pending : Pending) (tree : Expr) (stops : Stops pending.category ahead) :
    Within limit ((pending.around tree).height ≤ limit)
      ((afterOperand (.ofExpr tree) (around.hold pending)).run limit last ahead)
      ((afterOperand (.ofExpr (pending.around tree)) around).run limit last ahead) := by
  rw [run_hold stops]
  have filled : pending.fill limit (.ofExpr tree) =
      Subtree.checked limit pending.position (.ofExpr (pending.around tree)) := by
    cases pending with
    | signed sign position => exact Subtree.signed_eq limit sign _ position
    | binary operator left position => exact Subtree.binary_eq limit operator left _ position
  rw [filled]
  exact (Subtree.checked_within limit pending.position (.ofExpr (pending.around tree))).bind
    fun whole => (afterOperand whole around).run limit last ahead

/-! ## Reading a derivation -/

/-- Where the last lexeme starts, if there is one. -/
def lastPosition (last : Nat) (lexemes : List Lexeme) : Nat :=
  lexemes.foldl (fun _ lexeme => lexeme.position) last

/-- The reading goes past some lexemes, wherever they may stand, and has the
tree as its operand. -/
def Reads (limit : Nat) (category : Category) (lexemes : List Lexeme) (tree : Expr)
    (descents : Nat) : Prop :=
  forall (around : Surroundings) (last : Nat) (ahead : List Lexeme),
    category.rank ≤ (Pending.innermostSlot around.pending).rank -> around.level ≤ limit ->
      Stops category ahead ->
        Within limit (around.level + descents ≤ limit ∧ tree.height ≤ limit)
          ((beforeOperand around).run limit last (lexemes ++ ahead))
          ((afterOperand (.ofExpr tree) around).run limit (lastPosition last lexemes) ahead)

/-- The reading goes past some arguments of a call and has the last of them as
its operand; the others are kept by the enclosure. -/
def ReadsArguments (limit : Nat) (lexemes : List Lexeme) (arguments : List Expr)
    (descents : Nat) : Prop :=
  Exists fun earlier : List Expr => Exists fun argument : Expr =>
    arguments = earlier ++ [argument] ∧
      forall (callee : Callee) (opened : Nat) (around : Surroundings) (last : Nat)
          (ahead : List Lexeme),
        around.level + 1 ≤ limit -> (forall category, Stops category ahead) ->
          Within limit (around.level + 1 + descents ≤ limit ∧ Expr.tallest arguments ≤ limit)
            ((beforeOperand (around.enclose (.call callee opened []))).run limit last
              (lexemes ++ ahead))
            ((afterOperand (.ofExpr argument) (around.enclose
              (.call callee opened (earlier.map Subtree.ofExpr).reverse))).run limit
                (lastPosition last lexemes) ahead)

variable {limit : Nat}

theorem reads_number (positive : 1 ≤ limit) (value : Float) (position : Nat) :
    Reads limit .primary [⟨.number value, position⟩] (.literal value) 0 := by
  intro around last ahead fits shallow stops
  exact .of_eq ⟨shallow, positive⟩ (run_cons nofun)

theorem run_descend {around : Surroundings} {last position opened : Nat} {ahead : List Lexeme}
    {reading next : Reading} {token : Token} (goesOn : token ≠ .endOfInput)
    (steps : reading.step limit token position =
      (around.nesting limit).descend opened >>= fun _ => pure next) :
    Within limit (around.level + 1 ≤ limit)
      (reading.run limit last (⟨token, position⟩ :: ahead)) (next.run limit position ahead) := by
  rw [run_cons goesOn, steps]
  exact ((Surroundings.descend_within limit opened around).bind fun _ => pure next).bind
    fun next => next.run limit position ahead

theorem reads_group (opened closed : Nat) {inside : List Lexeme} {tree : Expr} {descents : Nat}
    (reads : Reads limit .expression inside tree descents) :
    Reads limit .primary (⟨.openParen, opened⟩ :: (inside ++ [⟨.closeParen, closed⟩])) tree
      (descents + 1) := by
  intro around last ahead fits shallow stops
  rw [List.cons_append, List.append_assoc]
  have opens : Within limit (around.level + 1 ≤ limit)
      ((beforeOperand around).run limit last
        (⟨.openParen, opened⟩ :: (inside ++ (⟨.closeParen, closed⟩ :: ahead))))
      ((beforeOperand (around.enclose (.group opened))).run limit opened
        (inside ++ (⟨.closeParen, closed⟩ :: ahead))) :=
    run_descend nofun rfl
  have goesOn (room : around.level + 1 ≤ limit) :=
    reads (around.enclose (.group opened)) opened (⟨.closeParen, closed⟩ :: ahead)
      (Nat.le_refl _) (by rw [Surroundings.level_enclose]; exact room) (stops_delimiter nofun)
  have closes : (afterOperand (.ofExpr tree) (around.enclose (.group opened))).run limit
      (lastPosition opened inside) (⟨.closeParen, closed⟩ :: ahead) =
        (afterOperand (.ofExpr tree) around).run limit closed ahead :=
    run_cons nofun
  have final : lastPosition last (⟨.openParen, opened⟩ :: (inside ++ [⟨.closeParen, closed⟩])) =
      closed := by
    simp [lastPosition]
  rw [closes, Surroundings.level_enclose] at goesOn
  rw [final]
  exact (opens.trans goesOn).congr (by omega)

theorem reads_signed {operator : Operator} {sign : Sign} (position : Nat)
    {lexemes : List Lexeme} {operand : Expr} {descents : Nat}
    (written : Sign.ofOperator? operator = some sign)
    (reads : Reads limit .unary lexemes operand descents) :
    Reads limit .unary (⟨.operator operator, position⟩ :: lexemes) (.signed sign operand)
      (descents + 1) := by
  intro around last ahead fits shallow stops
  have steps : (beforeOperand around).step limit (.operator operator) position =
      (around.nesting limit).descend position >>= fun _ =>
        pure (beforeOperand (around.hold (.signed sign position))) := by
    simp only [step, readOperand, written]
    rfl
  have begins : Within limit (around.level + 1 ≤ limit)
      ((beforeOperand around).run limit last
        (⟨.operator operator, position⟩ :: (lexemes ++ ahead)))
      ((beforeOperand (around.hold (.signed sign position))).run limit position
        (lexemes ++ ahead)) :=
    run_descend (by simp) steps
  have level : (around.hold (.signed sign position)).level = around.level + 1 :=
    Surroundings.level_hold around _
  have goesOn (room : around.level + 1 ≤ limit) :=
    reads (around.hold (.signed sign position)) position ahead (Nat.le_refl _)
      (by rw [level]; exact room) (stops_unary ahead)
  have filled : Within limit ((Expr.signed sign operand).height ≤ limit)
      ((afterOperand (.ofExpr operand) (around.hold (.signed sign position))).run limit
        (lastPosition position lexemes) ahead)
      ((afterOperand (.ofExpr (.signed sign operand)) around).run limit
        (lastPosition position lexemes) ahead) :=
    run_hold_within (.signed sign position) operand (stops_unary ahead)
  rw [level] at goesOn
  apply (begins.trans fun room => (goesOn room).trans fun _ => filled).congr
  simp only [Expr.height]
  omega

theorem nothing_yields {operator : Operator} {pending : List Pending}
    (fits : operator.category.rank ≤ (Pending.innermostSlot pending).rank) :
    pending.takeWhile (Pending.yieldsTo operator) = [] ∧
      pending.dropWhile (Pending.yieldsTo operator) = pending := by
  cases pending with
  | nil => exact ⟨rfl, rfl⟩
  | cons innermost outer =>
      have keeps := (Pending.not_yieldsTo_iff innermost operator).mpr fits
      exact ⟨List.takeWhile_cons_of_neg (by simp [keeps]),
        List.dropWhile_cons_of_neg (by simp [keeps])⟩

/-- Where an operator has room, its left operand is complete as soon as the
operator follows. -/
theorem run_operator_within {operator : Operator} {position last : Nat} {left : Subtree}
    {around : Surroundings} {ahead : List Lexeme}
    (fits : operator.category.rank ≤ (Pending.innermostSlot around.pending).rank)
    (shallow : around.level ≤ limit) :
    Within limit ((around.hold (.binary operator left position)).level ≤ limit)
      ((afterOperand left around).run limit last (⟨.operator operator, position⟩ :: ahead))
      ((beforeOperand (around.hold (.binary operator left position))).run limit position
        ahead) := by
  have steps : (afterOperand left around).step limit (.operator operator) position =
      await limit around (.binary operator left position) := by
    dsimp only [step, readOperator]
    rw [(nothing_yields fits).1, (nothing_yields fits).2]
    rfl
  rw [run_cons (show Token.operator operator ≠ .endOfInput from nofun), steps]
  exact (await_within (.binary operator left position) shallow).bind
    fun next => next.run limit position ahead

theorem reads_binary (operator : Operator) (position : Nat) {before after : List Lexeme}
    {left right : Expr} {leftDescents rightDescents : Nat}
    (readsLeft : Reads limit operator.leftCategory before left leftDescents)
    (readsRight : Reads limit operator.rightCategory after right rightDescents) :
    Reads limit operator.category (before ++ ⟨.operator operator, position⟩ :: after)
      (.binary operator left right)
      (max leftDescents (rightDescents + operator.descents)) := by
  intro around last ahead fits shallow stops
  have leftTighter : operator.leftCategory.rank ≤ operator.category.rank := by
    cases operator <;> exact Nat.le_of_ble_eq_true rfl
  have rightTighter : operator.rightCategory.rank ≤ operator.category.rank := by
    cases operator <;> exact Nat.le_of_ble_eq_true rfl
  have stopsHere : Stops operator.leftCategory
      (⟨.operator operator, position⟩ :: (after ++ ahead)) := by
    intro next place rest same
    cases same
    exact Nat.le_refl _
  have level : (around.hold (.binary operator (.ofExpr left) position)).level =
      around.level + operator.descents := by
    rw [Surroundings.level_hold]
    cases operator <;> rfl
  have begins := readsLeft around last (⟨.operator operator, position⟩ :: (after ++ ahead))
    (Nat.le_trans leftTighter fits) shallow stopsHere
  have waits : Within limit (around.level + operator.descents ≤ limit)
      ((afterOperand (.ofExpr left) around).run limit (lastPosition last before)
        (⟨.operator operator, position⟩ :: (after ++ ahead)))
      ((beforeOperand (around.hold (.binary operator (.ofExpr left) position))).run limit
        position (after ++ ahead)) :=
    level ▸ run_operator_within fits shallow
  have goesOn (room : around.level + operator.descents ≤ limit) :=
    readsRight (around.hold (.binary operator (.ofExpr left) position)) position ahead
      (Nat.le_refl _) (by rw [level]; exact room) (stops.tighten rightTighter)
  have filled : Within limit ((Expr.binary operator left right).height ≤ limit)
      ((afterOperand (.ofExpr right)
        (around.hold (.binary operator (.ofExpr left) position))).run limit
          (lastPosition position after) ahead)
      ((afterOperand (.ofExpr (.binary operator left right)) around).run limit
        (lastPosition position after) ahead) :=
    run_hold_within (.binary operator (.ofExpr left) position) right stops
  have final : lastPosition last (before ++ ⟨.operator operator, position⟩ :: after) =
      lastPosition position after := by
    simp [lastPosition]
  rw [level] at goesOn
  rw [final, List.append_assoc, List.cons_append]
  refine (begins.trans fun _ => waits.trans fun room =>
    (goesOn room).trans fun _ => filled).congr ?_
  simp only [Expr.height]
  omega

theorem reads_emptyCall (name : String) (position opened closed : Nat) :
    Reads limit .primary
      [⟨.identifier name, position⟩, ⟨.openParen, opened⟩, ⟨.closeParen, closed⟩]
      (.call name []) 1 := by
  intro around last ahead fits shallow stops
  have opens : Within limit (around.level + 1 ≤ limit)
      ((afterName ⟨name, position⟩ around).run limit position
        (⟨.openParen, opened⟩ :: ⟨.closeParen, closed⟩ :: ahead))
      ((beforeArguments ⟨name, position⟩ opened around).run limit opened
        (⟨.closeParen, closed⟩ :: ahead)) :=
    run_descend nofun rfl
  have closes : Within limit ((Expr.call name []).height ≤ limit)
      ((beforeArguments ⟨name, position⟩ opened around).run limit opened
        (⟨.closeParen, closed⟩ :: ahead))
      ((afterOperand (.ofExpr (.call name [])) around).run limit closed ahead) :=
    (closeArguments_within limit ⟨name, position⟩ [] around).bind
      fun next => next.run limit closed ahead
  apply (opens.trans fun _ => closes).congr
  simp only [Expr.height, Expr.tallest]

theorem reads_first {lexemes : List Lexeme} {argument : Expr} {descents : Nat}
    (reads : Reads limit .expression lexemes argument descents) :
    ReadsArguments limit lexemes [argument] descents := by
  refine ⟨[], argument, rfl, ?_⟩
  intro callee opened around last ahead room stops
  have level := Surroundings.level_enclose around (.call callee opened [])
  have goesOn := reads (around.enclose (.call callee opened [])) last ahead (Nat.le_refl _)
    (by rw [level]; exact room) (stops _)
  rw [level] at goesOn
  apply goesOn.congr
  simp only [Expr.tallest]
  omega

/-- The argument before a comma joins those that the enclosure keeps. -/
theorem reads_next (position : Nat) {before after : List Lexeme} {arguments : List Expr}
    {argument : Expr} {descents more : Nat}
    (readsBefore : ReadsArguments limit before arguments descents)
    (readsAfter : Reads limit .expression after argument more) :
    ReadsArguments limit (before ++ ⟨.comma, position⟩ :: after) (arguments ++ [argument])
      (max descents more) := by
  rcases readsBefore with ⟨earlier, previous, rfl, readsBefore⟩
  refine ⟨earlier ++ [previous], argument, rfl, ?_⟩
  intro callee opened around last ahead room stops
  have kept : ((earlier ++ [previous]).map Subtree.ofExpr).reverse =
      Subtree.ofExpr previous :: (earlier.map Subtree.ofExpr).reverse := by
    simp
  have level := Surroundings.level_enclose around
    (.call callee opened ((earlier ++ [previous]).map Subtree.ofExpr).reverse)
  have begins := readsBefore callee opened around last (⟨.comma, position⟩ :: (after ++ ahead))
    room (fun _ => stops_delimiter nofun)
  have joins : (afterOperand (.ofExpr previous) (around.enclose
      (.call callee opened (earlier.map Subtree.ofExpr).reverse))).run limit
        (lastPosition last before) (⟨.comma, position⟩ :: (after ++ ahead)) =
      (beforeOperand (around.enclose (.call callee opened
        ((earlier ++ [previous]).map Subtree.ofExpr).reverse))).run limit position
          (after ++ ahead) := by
    rw [kept]
    exact run_cons nofun
  have goesOn := readsAfter (around.enclose (.call callee opened
    ((earlier ++ [previous]).map Subtree.ofExpr).reverse)) position ahead (Nat.le_refl _)
    (by rw [level]; exact room) (stops _)
  have final : lastPosition last (before ++ ⟨.comma, position⟩ :: after) =
      lastPosition position after := by
    simp [lastPosition]
  rw [joins] at begins
  rw [level] at goesOn
  rw [final, List.append_assoc before, List.cons_append]
  apply (begins.trans fun _ => goesOn).congr
  rw [Expr.tallest_append (earlier ++ [previous])]
  simp only [Expr.tallest]
  omega

theorem run_beforeArguments {callee : Callee} {opened last : Nat} {around : Surroundings}
    {lexemes : List Lexeme} (starts : StartsOperand lexemes) :
    (beforeArguments callee opened around).run limit last lexemes =
      (beforeOperand (around.enclose (.call callee opened []))).run limit last lexemes := by
  rcases starts with ⟨⟨token, position⟩, rest, rfl, notClosing, notEnd⟩
  rw [run_cons notEnd, run_cons notEnd]
  cases token with
  | closeParen => exact absurd rfl notClosing
  | _ => rfl

theorem reads_call (name : String) (position opened closed : Nat) {inside : List Lexeme}
    {arguments : List Expr} {descents : Nat} (starts : StartsOperand inside)
    (reads : ReadsArguments limit inside arguments descents) :
    Reads limit .primary
      (⟨.identifier name, position⟩ :: ⟨.openParen, opened⟩ ::
        (inside ++ [⟨.closeParen, closed⟩]))
      (.call name arguments) (descents + 1) := by
  intro around last ahead fits shallow stops
  rcases reads with ⟨earlier, argument, rfl, reads⟩
  have opens : Within limit (around.level + 1 ≤ limit)
      ((afterName ⟨name, position⟩ around).run limit position
        (⟨.openParen, opened⟩ :: (inside ++ (⟨.closeParen, closed⟩ :: ahead))))
      ((beforeArguments ⟨name, position⟩ opened around).run limit opened
        (inside ++ (⟨.closeParen, closed⟩ :: ahead))) :=
    run_descend nofun rfl
  rw [run_beforeArguments (starts.append _)] at opens
  have goesOn (room : around.level + 1 ≤ limit) :=
    reads ⟨name, position⟩ opened around opened (⟨.closeParen, closed⟩ :: ahead) room
      (fun _ => stops_delimiter nofun)
  have closes : Within limit ((Expr.call name (earlier ++ [argument])).height ≤ limit)
      ((afterOperand (.ofExpr argument) (around.enclose (.call ⟨name, position⟩ opened
        (earlier.map Subtree.ofExpr).reverse))).run limit (lastPosition opened inside)
          (⟨.closeParen, closed⟩ :: ahead))
      ((afterOperand (.ofExpr (.call name (earlier ++ [argument]))) around).run limit closed
        ahead) := by
    have all : (Subtree.ofExpr argument :: (earlier.map Subtree.ofExpr).reverse).reverse =
        (earlier ++ [argument]).map Subtree.ofExpr := by
      simp
    have within := (closeArguments_within limit ⟨name, position⟩ (earlier ++ [argument])
      around).bind fun next => next.run limit closed ahead
    rw [← all] at within
    exact within
  have final : lastPosition last (⟨.identifier name, position⟩ :: ⟨.openParen, opened⟩ ::
      (inside ++ [⟨.closeParen, closed⟩])) = closed := by
    simp [lastPosition]
  have start : (beforeOperand around).run limit last (⟨.identifier name, position⟩ ::
      ⟨.openParen, opened⟩ :: (inside ++ [⟨.closeParen, closed⟩]) ++ ahead) =
        (afterName ⟨name, position⟩ around).run limit position
          (⟨.openParen, opened⟩ :: (inside ++ (⟨.closeParen, closed⟩ :: ahead))) := by
    rw [List.cons_append, List.cons_append, List.append_assoc]
    exact run_cons nofun
  rw [start, final]
  apply (opens.trans fun room => (goesOn room).trans fun _ => closes).congr
  simp only [Expr.height]
  omega

theorem Reads.loosen {narrow wide : Category} {lexemes : List Lexeme} {tree : Expr}
    {descents : Nat} (reads : Reads limit narrow lexemes tree descents)
    (looser : narrow.rank ≤ wide.rank) : Reads limit wide lexemes tree descents :=
  fun around last ahead fits shallow stops =>
    reads around last ahead (Nat.le_trans looser fits) shallow (stops.tighten looser)

end Reading

mutual

/-- What the grammar derives is read, as far as the limit allows. -/
theorem Derives.reads {limit : Nat} (positive : 1 ≤ limit) {category : Category}
    {lexemes : List Lexeme} {tree : Expr} {descents : Nat} :
    Derives category lexemes tree descents -> Reading.Reads limit category lexemes tree descents
  | .number value position => Reading.reads_number positive value position
  | .emptyCall name position opened closed =>
      Reading.reads_emptyCall name position opened closed
  | .call name position opened closed inside =>
      Reading.reads_call name position opened closed inside.startsOperand (inside.reads positive)
  | .group opened closed inside => Reading.reads_group opened closed (inside.reads positive)
  | .signed position written operand =>
      Reading.reads_signed position written (operand.reads positive)
  | .binary operator position left right =>
      Reading.reads_binary operator position (left.reads positive) (right.reads positive)
  | .tighter next narrow => (narrow.reads positive).loosen (by omega)

theorem DerivesArguments.reads {limit : Nat} (positive : 1 ≤ limit) {lexemes : List Lexeme}
    {arguments : List Expr} {descents : Nat} :
    DerivesArguments lexemes arguments descents ->
      Reading.ReadsArguments limit lexemes arguments descents
  | .first argument => Reading.reads_first (argument.reads positive)
  | .next position before argument =>
      Reading.reads_next position (before.reads positive) (argument.reads positive)

end

/-- Lexemes that are derived up to the end of the input are read as their tree,
unless the limit is exceeded; then that is the failure. -/
theorem Derives.ofLexemes_within {limit : Nat} (positive : 1 ≤ limit) {lexemes : List Lexeme}
    {tree : Expr} {descents : Nat} (derived : Derives .expression lexemes tree descents)
    (position : Nat) (rest : List Lexeme) :
    Within limit (descents ≤ limit ∧ tree.height ≤ limit)
      (Expr.ofLexemes limit (lexemes ++ ⟨.endOfInput, position⟩ :: rest)) (.ok tree) := by
  have reads := derived.reads positive .outermost 0 (⟨.endOfInput, position⟩ :: rest)
    (Nat.le_refl _) (Nat.zero_le _) (Reading.stops_delimiter nofun)
  have ends : (Reading.afterOperand (.ofExpr tree) .outermost).run limit
      (Reading.lastPosition 0 lexemes) (⟨.endOfInput, position⟩ :: rest) = .ok tree := rfl
  have start : Expr.ofLexemes limit (lexemes ++ ⟨.endOfInput, position⟩ :: rest) =
      Reading.start.run limit 0 (lexemes ++ ⟨.endOfInput, position⟩ :: rest) := by
    rcases derived.startsOperand with ⟨⟨token, place⟩, more, rfl, notClosing, notEnd⟩
    exact Expr.ofLexemes_cons notEnd
  rw [ends] at reads
  rw [start]
  exact reads.congr (by simp [Surroundings.level, Surroundings.outermost])

end DeskCalculator

import DeskCalculator.Proofs.Depth
import DeskCalculator.Proofs.Paths
import DeskCalculator.Proofs.StackMachine

namespace DeskCalculator
namespace Expr

/-!
# Where an evaluation stops

An evaluation that fails does so at one node of the tree: either the node is
below the limit, or its operands have values and it fails itself.  Everything
wholly to the left of the node was evaluated before and has a value.  So a tree
that is too tall need not fail for its depth.  It does exactly if everything to
the left of its leftmost node below the limit has a value.

The level that the evaluation counts is that of the path to the node.  The
search for the node is an induction on the levels that the limit leaves, and
the way back from the node to the root one on the path.
-/

variable {limit level : Nat} {tree : Expr} {error : EvaluationError}

/-! ## Values where a tree stands -/

/-- A tree has a value where it stands exactly if it has one at the root and
also fits there. -/
theorem evaluateAt_eq_ok_iff (positive : 1 ≤ level) {value : Float} :
    evaluateAt limit level tree = .ok value ↔
      level + tree.height ≤ limit + 1 ∧ tree.evaluate limit = .ok value := by
  constructor
  · intro evaluated
    have fits := fits_of_evaluateAt limit level tree value evaluated
    rw [evaluateAt_eq_outcome limit level tree fits] at evaluated
    exact ⟨fits, (evaluate_eq_outcome (by omega)).trans evaluated⟩
  · rintro ⟨fits, evaluated⟩
    rw [evaluateAt_eq_outcome limit level tree fits]
    exact outcome_of_evaluate evaluated

theorem evaluateAllAt_eq_ok_iff (positive : 1 ≤ level) (room : level ≤ limit + 1)
    {trees : List Expr} {values : List Float} :
    evaluateAllAt limit level trees = .ok values ↔ level + tallest trees ≤ limit + 1 ∧
      List.Forall₂ (fun tree value => tree.evaluate limit = .ok value) trees values := by
  constructor
  · intro evaluated
    have fit := fits_of_evaluateAllAt limit level trees values room evaluated
    rw [evaluateAllAt_eq_outcomes limit level trees fit] at evaluated
    exact ⟨fit, (outcomes_eq_ok_iff (by omega)).mp evaluated⟩
  · rintro ⟨fit, evaluated⟩
    rw [evaluateAllAt_eq_outcomes limit level trees fit]
    exact (outcomes_eq_ok_iff (by omega)).mpr evaluated

/-- Where a tree has a value, so has everything inside it, each part at its own
level. -/
theorem evaluateAt_part {value : Float} (evaluated : evaluateAt limit level tree = .ok value)
    {path : Path} {part : Expr} (found : tree.part? path = some part) :
    Exists fun result : Float => evaluateAt limit (level + path.length) part = .ok result := by
  have fits := fits_of_evaluateAt limit level tree value evaluated
  have inside := length_add_height_le found
  rw [evaluateAt_eq_outcome limit level tree fits] at evaluated
  rw [evaluateAt_eq_outcome limit _ part (by omega)]
  exact outcome_visits tree part value evaluated (mem_subtrees_of_part? found)

/-! ## One node -/

theorem evaluateAllAt_cons_eq_error_iff {first : Expr} {rest : List Expr} :
    evaluateAllAt limit level (first :: rest) = .error error ↔
      evaluateAt limit level first = .error error ∨
      Exists fun value : Float =>
        evaluateAt limit level first = .ok value ∧
        evaluateAllAt limit level rest = .error error := by
  simp only [evaluateAllAt, Outcome.bind_eq_error_iff, pure, Except.pure, reduceCtorEq, and_false,
    exists_false, or_false]

/-- Several trees fail where the first of them fails. -/
theorem evaluateAllAt_eq_error_iff {trees : List Expr} :
    evaluateAllAt limit level trees = .error error ↔
      Exists fun index : Nat => Exists fun tree : Expr =>
        trees[index]? = some tree ∧ evaluateAt limit level tree = .error error ∧
          forall (earlier : Nat) (other : Expr), earlier < index -> trees[earlier]? = some other ->
            Exists fun value : Float => evaluateAt limit level other = .ok value := by
  induction trees with
  | nil => simp [evaluateAllAt, pure, Except.pure]
  | cons first rest ih =>
      rw [evaluateAllAt_cons_eq_error_iff, ih]
      constructor
      · rintro (failed | ⟨value, valued, index, tree, chosen, failed, before⟩)
        · exact ⟨0, first, rfl, failed, nofun⟩
        · refine ⟨index + 1, tree, chosen, failed, ?_⟩
          rintro (_ | earlier) other sooner place
          · cases place
            exact ⟨value, valued⟩
          · exact before earlier other (Nat.lt_of_succ_lt_succ sooner) place
      · rintro ⟨_ | index, tree, chosen, failed, before⟩
        · cases chosen
          exact .inl failed
        · rcases before 0 first (Nat.succ_pos index) rfl with ⟨value, valued⟩
          refine .inr ⟨value, valued, index, tree, chosen, failed, ?_⟩
          intro earlier other sooner place
          exact before (earlier + 1) other (Nat.succ_lt_succ sooner) place

/-- Where an operation stands, it fails itself exactly if its operands have values
there and it fails on them. -/
theorem binary_failsItself_iff {operator : Operator} {left right : Expr} :
    level + (binary operator left right).height ≤ limit + 1 ∧
        (binary operator left right).FailsItself limit error ↔
      Exists fun leftValue : Float => evaluateAt limit (level + 1) left = .ok leftValue ∧
        Exists fun rightValue : Float => evaluateAt limit (level + 1) right = .ok rightValue ∧
          operator.apply leftValue rightValue = .error error := by
  simp only [evaluateAt_eq_ok_iff (Nat.succ_pos level), height]
  constructor
  · rintro ⟨fits, ⟨valuedLeft, valuedRight, applied⟩⟩
    exact ⟨_, ⟨by omega, valuedLeft⟩, _, ⟨by omega, valuedRight⟩, applied⟩
  · rintro ⟨leftValue, ⟨fitsLeft, valuedLeft⟩, rightValue, ⟨fitsRight, valuedRight⟩, applied⟩
    exact ⟨by omega, .binary valuedLeft valuedRight applied⟩

theorem call_failsItself_iff {name : String} {arguments : List Expr} (room : level ≤ limit) :
    level + (call name arguments).height ≤ limit + 1 ∧
        (call name arguments).FailsItself limit error ↔
      Exists fun values : List Float => evaluateAllAt limit (level + 1) arguments = .ok values ∧
        Function.callByName name values = .error error := by
  simp only [evaluateAllAt_eq_ok_iff (Nat.succ_pos level) (Nat.succ_le_succ room), height]
  constructor
  · rintro ⟨fits, _ | ⟨valued, called⟩⟩
    exact ⟨_, ⟨by omega, valued⟩, called⟩
  · rintro ⟨values, ⟨fit, valued⟩, called⟩
    exact ⟨by omega, .call valued called⟩

/-- Down to the limit, a tree fails with its operands or else by itself. -/
theorem evaluateAt_eq_error_iff (room : level ≤ limit) :
    evaluateAt limit level tree = .error error ↔
      evaluateAllAt limit (level + 1) tree.operands = .error error ∨
        level + tree.height ≤ limit + 1 ∧ tree.FailsItself limit error := by
  rw [evaluateAt_of_le room]
  cases tree with
  | literal value =>
      constructor
      · nofun
      · rintro (failed | ⟨_, ⟨⟩⟩)
        cases failed
  | signed sign operand =>
      have sound : ¬ (signed sign operand).FailsItself limit error := nofun
      simp only [operands, evaluateAllAt, sound, Outcome.bind_eq_error_iff, pure, Except.pure,
        reduceCtorEq, and_false, exists_false, or_false]
  | binary operator left right =>
      rw [binary_failsItself_iff]
      simp only [operands, evaluateAllAt, Outcome.bind_eq_error_iff, pure, Except.pure,
        reduceCtorEq, and_false, exists_false, or_false, and_or_left, exists_or, or_assoc]
  | call name arguments =>
      rw [call_failsItself_iff room]
      exact Outcome.bind_eq_error_iff

/-! ## The place of the failure -/

/-- The node fails for itself where it stands: it is the first one below the
limit on its path, or the failure is its own. -/
def StopsHere (limit level : Nat) (node : Expr) (error : EvaluationError) : Prop :=
  level = limit + 1 ∧ error = .tooDeep limit ∨
    level + node.height ≤ limit + 1 ∧ node.FailsItself limit error

theorem StopsHere.level_le {node : Expr} (stops : StopsHere limit level node error) :
    level ≤ limit + 1 := by
  rcases stops with ⟨deep, _⟩ | ⟨fits, _⟩
  · exact Nat.le_of_eq deep
  · exact Nat.le_trans (Nat.le_add_right level _) fits

/-- The evaluation of a tree with its root at `level` comes to the node at the
end of the path and stops there. -/
structure StopsAt (limit level : Nat) (tree : Expr) (path : Path) (node : Expr)
    (error : EvaluationError) : Prop where
  found : tree.part? path = some node
  valuedBefore : forall (earlier : Path) (part : Expr), tree.part? earlier = some part ->
    Path.LeftOf earlier path ->
      Exists fun value : Float => evaluateAt limit (level + earlier.length) part = .ok value
  stopsHere : StopsHere limit (level + path.length) node error

namespace StopsAt

variable {node : Expr} {path : Path} {index : Nat}

theorem length_below (level : Nat) (index : Nat) (path : Path) :
    level + (index :: path).length = level + 1 + path.length := by
  rw [List.length_cons]
  omega

/-- Where an operand stops and those before it have values, the tree stops. -/
theorem ofOperand {operand : Expr} (chosen : tree.operands[index]? = some operand)
    (stops : StopsAt limit (level + 1) operand path node error)
    (before : forall (earlier : Nat) (other : Expr), earlier < index ->
      tree.operands[earlier]? = some other ->
        Exists fun value : Float => evaluateAt limit (level + 1) other = .ok value) :
    StopsAt limit level tree (index :: path) node error where
  found := part?_cons_iff.mpr ⟨operand, chosen, stops.found⟩
  valuedBefore := by
    intro earlier part found left
    cases left with
    | parted route _ sooner =>
        rcases part?_cons_iff.mp found with ⟨other, place, inside⟩
        rcases before _ other sooner place with ⟨value, valued⟩
        rw [length_below]
        exact evaluateAt_part valued inside
    | shared _ left =>
        rcases part?_cons_iff.mp found with ⟨other, place, inside⟩
        cases chosen.symm.trans place
        rw [length_below]
        exact stops.valuedBefore _ part inside left
  stopsHere := by
    rw [length_below]
    exact stops.stopsHere

theorem operandsBefore (stops : StopsAt limit level tree (index :: path) node error)
    {earlier : Nat} {other : Expr} (sooner : earlier < index)
    (place : tree.operands[earlier]? = some other) :
    Exists fun value : Float => evaluateAt limit (level + 1) other = .ok value :=
  stops.valuedBefore [earlier] other (part?_cons_iff.mpr ⟨other, place, rfl⟩)
    (.parted [] path sooner)

theorem toOperand (stops : StopsAt limit level tree (index :: path) node error)
    {operand : Expr} (chosen : tree.operands[index]? = some operand)
    (inside : operand.part? path = some node) :
    StopsAt limit (level + 1) operand path node error where
  found := inside
  valuedBefore := by
    intro earlier part found left
    rw [← length_below level index]
    have place := part?_cons_iff.mpr ⟨operand, chosen, found⟩
    exact stops.valuedBefore (index :: earlier) part place (.shared index left)
  stopsHere := by
    rw [← length_below level index]
    exact stops.stopsHere

/-- Where an evaluation stops, it fails. -/
theorem evaluateAt_eq (stops : StopsAt limit level tree path node error) :
    evaluateAt limit level tree = .error error := by
  induction path generalizing level tree with
  | nil =>
      have here : StopsHere limit level node error := stops.stopsHere
      cases stops.found
      rcases here with ⟨deep, rfl⟩ | itself
      · have below : limit < level := by omega
        exact evaluateAt_of_lt below node
      · have present := node.height_pos
        exact (evaluateAt_eq_error_iff (by omega)).mpr (.inr itself)
  | cons index path ih =>
      rcases part?_cons_iff.mp stops.found with ⟨operand, chosen, inside⟩
      have failed := ih (stops.toOperand chosen inside)
      have room := stops.stopsHere.level_le
      rw [List.length_cons] at room
      refine (evaluateAt_eq_error_iff (by omega)).mpr (.inl (evaluateAllAt_eq_error_iff.mpr ?_))
      exact ⟨index, operand, chosen, failed, fun _ _ => stops.operandsBefore⟩

end StopsAt

/-- An evaluation that fails stops somewhere.  Each level that the limit leaves
allows for one more step of the search. -/
theorem exists_stopsAt {remaining : Nat} (left : level + remaining = limit + 1)
    (failed : evaluateAt limit level tree = .error error) :
    Exists fun path : Path => Exists fun node : Expr =>
      StopsAt limit level tree path node error := by
  induction remaining generalizing level tree with
  | zero =>
      have deep : level = limit + 1 := left
      rw [evaluateAt_of_lt (by omega)] at failed
      cases failed
      exact ⟨[], tree, rfl, nofun, .inl ⟨deep, rfl⟩⟩
  | succ remaining ih =>
      rcases (evaluateAt_eq_error_iff (by omega)).mp failed with failedOperands | itself
      · rcases evaluateAllAt_eq_error_iff.mp failedOperands with
          ⟨index, operand, chosen, failedOperand, before⟩
        rcases ih (by omega) failedOperand with ⟨path, node, stops⟩
        exact ⟨index :: path, node, stops.ofOperand chosen before⟩
      · exact ⟨[], tree, rfl, nofun, .inr itself⟩

theorem evaluate_eq_error_iff :
    tree.evaluate limit = .error error ↔ Exists fun path : Path => Exists fun node : Expr =>
      StopsAt limit 1 tree path node error :=
  ⟨exists_stopsAt (Nat.add_comm 1 limit), fun ⟨_, _, stops⟩ => stops.evaluateAt_eq⟩

/-! ## The leftmost node below the limit -/

theorem FailsItself.ne_tooDeep {node : Expr} (itself : node.FailsItself limit error)
    (deepest : Nat) : error ≠ .tooDeep deepest := by
  rintro rfl
  cases itself with
  | binary _ _ applied => exact NeverTooDeep.operator _ _ _ deepest applied
  | call _ called => exact NeverTooDeep.callByName _ _ deepest called

/-- Everything wholly to the left of the place has a value, where it stands and
also with the whole limit for itself. -/
def ValuedBefore (limit : Nat) (tree : Expr) (path : Path) : Prop :=
  forall (earlier : Path) (part : Expr), tree.part? earlier = some part ->
    Path.LeftOf earlier path -> Exists fun value : Float =>
      evaluateAt limit earlier.level part = .ok value ∧ part.evaluate limit = .ok value

/-- At the root the levels are those of the paths. -/
theorem stopsAt_root_iff {path : Path} {node : Expr} :
    StopsAt limit 1 tree path node error ↔ tree.part? path = some node ∧
      tree.ValuedBefore limit path ∧ StopsHere limit path.level node error := by
  constructor
  · intro stops
    refine ⟨stops.found, ?_, stops.stopsHere⟩
    intro earlier part found left
    rcases stops.valuedBefore earlier part found left with ⟨value, valued⟩
    exact ⟨value, valued, ((evaluateAt_eq_ok_iff (Nat.le_add_right 1 _)).mp valued).2⟩
  · rintro ⟨found, before, here⟩
    refine ⟨found, ?_, here⟩
    intro earlier part foundPart left
    rcases before earlier part foundPart left with ⟨value, valued, _⟩
    exact ⟨value, valued⟩

/-- Below the limit nothing has a value, so nothing stands to the left. -/
theorem isLeftmost_of_valuedBefore {path : Path} {node : Expr}
    (found : tree.part? path = some node) (before : tree.ValuedBefore limit path)
    (deep : path.level = limit + 1) : tree.IsLeftmost (limit + 1) path where
  level_eq := deep
  present := ⟨node, found⟩
  first := by
    intro other part foundPart deepPart
    have same : other.level = path.level := deepPart.trans deep.symm
    rcases Path.eq_or_leftOf (Nat.add_left_cancel same) with equal | left | right
    · exact .inl equal
    · rcases before other part foundPart left with ⟨value, valued, _⟩
      rw [evaluateAt_of_lt (by omega)] at valued
      cases valued
    · exact .inr right

/-- An evaluation fails for its depth exactly at the leftmost node below the
limit. -/
theorem evaluate_eq_tooDeep_iff {deepest : Nat} :
    tree.evaluate limit = .error (.tooDeep deepest) ↔
      deepest = limit ∧ Exists fun path : Path =>
        tree.IsLeftmost (limit + 1) path ∧ tree.ValuedBefore limit path := by
  rw [evaluate_eq_error_iff]
  constructor
  · rintro ⟨path, node, stops⟩
    rcases stopsAt_root_iff.mp stops with ⟨found, before, ⟨deep, same⟩ | ⟨_, itself⟩⟩
    · cases same
      exact ⟨rfl, path, isLeftmost_of_valuedBefore found before deep, before⟩
    · exact absurd rfl (itself.ne_tooDeep deepest)
  · rintro ⟨rfl, path, leftmost, before⟩
    rcases leftmost.present with ⟨node, found⟩
    exact ⟨path, node, stopsAt_root_iff.mpr ⟨found, before, .inl ⟨leftmost.level_eq, rfl⟩⟩⟩

/-- Any other failure is that of a node which fails itself. -/
theorem evaluate_eq_other_error_iff (other : forall deepest : Nat, error ≠ .tooDeep deepest) :
    tree.evaluate limit = .error error ↔ Exists fun path : Path => Exists fun node : Expr =>
      tree.part? path = some node ∧ path.length + node.height ≤ limit ∧
        node.FailsItself limit error ∧ tree.ValuedBefore limit path := by
  rw [evaluate_eq_error_iff]
  constructor
  · rintro ⟨path, node, stops⟩
    rcases stopsAt_root_iff.mp stops with ⟨found, before, ⟨_, same⟩ | ⟨fits, itself⟩⟩
    · exact absurd same (other limit)
    · rw [Path.level] at fits
      exact ⟨path, node, found, by omega, itself, before⟩
  · rintro ⟨path, node, found, fits, itself, before⟩
    refine ⟨path, node, stopsAt_root_iff.mpr ⟨found, before, .inr ⟨?_, itself⟩⟩⟩
    rw [Path.level]
    omega

/-- A tree has a value only if it is no taller than the limit.  It fails for its
depth exactly if everything to the left of the leftmost node below the limit has
a value, which takes a taller tree, and the failure names the limit.  Any other
failure is that of a node at a level down to the limit, again with values for
everything to the left of it. -/
theorem depth_guard_is_exact (limit : Nat) (tree : Expr) :
    (forall value : Float, tree.evaluate limit = .ok value -> tree.height ≤ limit) ∧
    (forall deepest : Nat, tree.evaluate limit = .error (.tooDeep deepest) ↔
      deepest = limit ∧ limit < tree.height ∧ Exists fun path : Path =>
        tree.IsLeftmost (limit + 1) path ∧ tree.ValuedBefore limit path) ∧
    (forall error : EvaluationError, (forall deepest : Nat, error ≠ .tooDeep deepest) ->
      (tree.evaluate limit = .error error ↔ Exists fun path : Path => Exists fun node : Expr =>
        tree.part? path = some node ∧ path.level ≤ limit ∧
          path.length + node.height ≤ limit ∧ node.FailsItself limit error ∧
          tree.ValuedBefore limit path)) := by
  refine ⟨?_, ?_, ?_⟩
  · intro value evaluated
    have fits := fits_of_evaluateAt limit 1 tree value evaluated
    omega
  · intro deepest
    rw [evaluate_eq_tooDeep_iff]
    refine and_congr_right fun _ => ⟨?_, And.right⟩
    rintro ⟨path, leftmost, before⟩
    rcases leftmost.present with ⟨node, found⟩
    have low := length_add_height_le found
    have present := node.height_pos
    have deep : 1 + path.length = limit + 1 := leftmost.level_eq
    exact ⟨by omega, path, leftmost, before⟩
  · intro error other
    rw [evaluate_eq_other_error_iff other]
    refine exists_congr fun path => exists_congr fun node => and_congr_right fun found => ?_
    refine ⟨fun ⟨fits, rest⟩ => ⟨?_, fits, rest⟩, And.right⟩
    have present := node.height_pos
    rw [Path.level]
    omega

/-- Both sums are taller than the limit.  The first one fails for its depth, once
the quotient to the left of the signs has a value; in the second one the
quotient fails before the signs are reached. -/
theorem depth_guard_is_exact_sums :
    (binary .add (.binary .divide (.literal 1) (.literal 2))
        (.signed .minus (.signed .minus (.literal 3)))).evaluate 3 = .error (.tooDeep 3) ∧
      (Exists fun path : Path =>
        (binary .add (.binary .divide (.literal 1) (.literal 2))
          (.signed .minus (.signed .minus (.literal 3)))).IsLeftmost 4 path ∧
        (binary .add (.binary .divide (.literal 1) (.literal 2))
          (.signed .minus (.signed .minus (.literal 3)))).ValuedBefore 3 path) ∧
    (binary .add (.binary .divide (.literal 1) (.literal 0))
        (.signed .minus (.signed .minus (.literal 3)))).evaluate 3 = .error .divisionByZero ∧
      (Exists fun path : Path => Exists fun node : Expr =>
        path.level ≤ 3 ∧ node.FailsItself 3 .divisionByZero) ∧
    (signed .minus (.literal 3)).evaluate 2 = .ok (-3) ∧
      (signed .minus (.literal 3)).height ≤ 2 := by
  have deep : (binary .add (.binary .divide (.literal 1) (.literal 2))
      (.signed .minus (.signed .minus (.literal 3)))).evaluate 3 = .error (.tooDeep 3) := by
    decide +kernel
  have divided : (binary .add (.binary .divide (.literal 1) (.literal 0))
      (.signed .minus (.signed .minus (.literal 3)))).evaluate 3 = .error .divisionByZero := rfl
  have valued : (signed .minus (.literal 3)).evaluate 2 = .ok (-3) := rfl
  rcases ((depth_guard_is_exact 3 _).2.1 3).mp deep with ⟨_, _, path, leftmost, before⟩
  rcases ((depth_guard_is_exact 3 _).2.2 .divisionByZero nofun).mp divided with
    ⟨inner, node, _, high, _, itself, _⟩
  exact ⟨deep, ⟨path, leftmost, before⟩, divided, ⟨inner, node, high, itself⟩, valued,
    (depth_guard_is_exact 2 _).1 _ valued⟩

end Expr
end DeskCalculator

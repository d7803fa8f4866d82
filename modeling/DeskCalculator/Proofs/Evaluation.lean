import DeskCalculator.Expr.Evaluation
import DeskCalculator.Proofs.Outcome

namespace DeskCalculator

/-!
# Evaluation without levels

A tree has an outcome of its own, which no limit enters.  Evaluation under a
limit is this outcome as long as the tree fits below the limit, and it never
succeeds for a tree that does not fit.  What is true of a successful evaluation
can therefore be shown of the outcome.

The outcome depends on every node: where a tree has a value, each of its
subtrees has one.
-/

namespace Expr

mutual

/-- The value of a tree, or the first failure from left to right. -/
def outcome [Elementary] : Expr -> Except EvaluationError Float
  | .literal value => .ok value
  | .signed sign operand => do
      return sign.apply (← outcome operand)
  | .binary operator left right => do
      let leftValue ← outcome left
      let rightValue ← outcome right
      operator.apply leftValue rightValue
  | .call name arguments => do
      Function.callByName name (← outcomes arguments)

/-- The values of several trees, or the first failure from left to right. -/
def outcomes [Elementary] : List Expr -> Except EvaluationError (List Float)
  | [] => return []
  | argument :: arguments => do
      let value ← outcome argument
      return value :: (← outcomes arguments)

end

section Limits

variable [Elementary]

theorem evaluateAt_of_lt {limit level : Nat} (below : limit < level) (tree : Expr) :
    evaluateAt limit level tree = .error (.tooDeep limit) := by
  rw [evaluateAt.eq_def, if_pos below]

theorem evaluateAt_of_le {limit level : Nat} (room : level ≤ limit) (tree : Expr) :
    evaluateAt limit level tree =
      (match tree with
      | .literal value => .ok value
      | .signed sign operand => do
          return sign.apply (← evaluateAt limit (level + 1) operand)
      | .binary operator left right => do
          let leftValue ← evaluateAt limit (level + 1) left
          let rightValue ← evaluateAt limit (level + 1) right
          operator.apply leftValue rightValue
      | .call name arguments => do
          Function.callByName name (← evaluateAllAt limit (level + 1) arguments)) := by
  cases tree with
  | signed sign operand =>
      rw [evaluateAt, if_neg (Nat.not_lt.mpr room)]
      simp only [Sign.evaluate_eq]
      rfl
  | _ => rw [evaluateAt, if_neg (Nat.not_lt.mpr room)]

mutual

/-- A tree that fits below the limit is evaluated as if there were none. -/
theorem evaluateAt_eq_outcome (limit level : Nat) (tree : Expr)
    (fits : level + tree.height ≤ limit + 1) : evaluateAt limit level tree = tree.outcome := by
  have positive := tree.height_pos
  rw [evaluateAt_of_le (by omega)]
  match tree with
  | .literal value => rfl
  | .signed sign operand =>
      rw [height] at fits
      simp only [outcome, evaluateAt_eq_outcome limit (level + 1) operand (by omega)]
  | .binary operator left right =>
      rw [height] at fits
      simp only [outcome, evaluateAt_eq_outcome limit (level + 1) left (by omega),
        evaluateAt_eq_outcome limit (level + 1) right (by omega)]
  | .call name arguments =>
      rw [height] at fits
      simp only [outcome, evaluateAllAt_eq_outcomes limit (level + 1) arguments (by omega)]

theorem evaluateAllAt_eq_outcomes (limit level : Nat) (trees : List Expr)
    (fits : level + tallest trees ≤ limit + 1) :
    evaluateAllAt limit level trees = outcomes trees := by
  match trees with
  | [] => rfl
  | tree :: trees =>
      rw [tallest] at fits
      simp only [evaluateAllAt, outcomes, evaluateAt_eq_outcome limit level tree (by omega),
        evaluateAllAt_eq_outcomes limit level trees (by omega)]

end

mutual

/-- Only a tree that fits below the limit has a value. -/
theorem fits_of_evaluateAt (limit level : Nat) (tree : Expr) (value : Float)
    (evaluated : evaluateAt limit level tree = .ok value) :
    level + tree.height ≤ limit + 1 := by
  have room : level ≤ limit := by
    by_cases deep : limit < level
    · rw [evaluateAt_of_lt deep] at evaluated
      cases evaluated
    · exact Nat.not_lt.mp deep
  rw [evaluateAt_of_le room] at evaluated
  match tree with
  | .literal value => exact Nat.succ_le_succ room
  | .signed sign operand =>
      rcases Outcome.bind_eq_ok_iff.mp evaluated with ⟨inner, evaluatedOperand, _⟩
      have fits := fits_of_evaluateAt limit (level + 1) operand inner evaluatedOperand
      rw [height]
      omega
  | .binary operator left right =>
      rcases Outcome.bind_eq_ok_iff.mp evaluated with ⟨leftValue, evaluatedLeft, later⟩
      rcases Outcome.bind_eq_ok_iff.mp later with ⟨rightValue, evaluatedRight, _⟩
      have fitsLeft := fits_of_evaluateAt limit (level + 1) left leftValue evaluatedLeft
      have fitsRight := fits_of_evaluateAt limit (level + 1) right rightValue evaluatedRight
      rw [height]
      omega
  | .call name arguments =>
      rcases Outcome.bind_eq_ok_iff.mp evaluated with ⟨values, evaluatedAll, _⟩
      have fits := fits_of_evaluateAllAt limit (level + 1) arguments values (by omega) evaluatedAll
      rw [height]
      omega

theorem fits_of_evaluateAllAt (limit level : Nat) (trees : List Expr) (values : List Float)
    (room : level ≤ limit + 1) (evaluated : evaluateAllAt limit level trees = .ok values) :
    level + tallest trees ≤ limit + 1 := by
  match trees with
  | [] => exact room
  | tree :: trees =>
      rw [evaluateAllAt] at evaluated
      rcases Outcome.bind_eq_ok_iff.mp evaluated with ⟨first, evaluatedFirst, later⟩
      rcases Outcome.bind_eq_ok_iff.mp later with ⟨others, evaluatedOthers, _⟩
      have fitsFirst := fits_of_evaluateAt limit level tree first evaluatedFirst
      have fitsOthers := fits_of_evaluateAllAt limit level trees others room evaluatedOthers
      rw [tallest]
      omega

end

/-- A value under a limit is the value without one. -/
theorem outcome_of_evaluate {limit : Nat} {tree : Expr} {value : Float}
    (evaluated : tree.evaluate limit = .ok value) : tree.outcome = .ok value := by
  have fits := fits_of_evaluateAt limit 1 tree value evaluated
  rw [← evaluateAt_eq_outcome limit 1 tree fits]
  exact evaluated

theorem evaluate_eq_outcome {limit : Nat} {tree : Expr} (fits : tree.height ≤ limit) :
    tree.evaluate limit = tree.outcome :=
  evaluateAt_eq_outcome limit 1 tree (by omega)

end Limits

/-! ## Every node counts -/

mutual

/-- A tree and all trees inside it, each before those inside it. -/
def subtrees : Expr -> List Expr
  | .literal value => [.literal value]
  | .signed sign operand => .signed sign operand :: subtrees operand
  | .binary operator left right =>
      .binary operator left right :: (subtrees left ++ subtrees right)
  | .call name arguments => .call name arguments :: allSubtrees arguments

/-- Several trees and all trees inside them. -/
def allSubtrees : List Expr -> List Expr
  | [] => []
  | argument :: arguments => subtrees argument ++ allSubtrees arguments

end

theorem mem_subtrees_self (tree : Expr) : tree ∈ tree.subtrees := by
  cases tree <;> exact List.mem_cons_self ..

theorem allSubtrees_append (first second : List Expr) :
    allSubtrees (first ++ second) = allSubtrees first ++ allSubtrees second := by
  induction first with
  | nil => rfl
  | cons tree trees ih => simp only [List.cons_append, allSubtrees, ih, List.append_assoc]

theorem allSubtrees_singleton (tree : Expr) : allSubtrees [tree] = tree.subtrees :=
  List.append_nil _

theorem mem_allSubtrees_iff {part : Expr} {trees : List Expr} :
    part ∈ allSubtrees trees ↔ Exists fun tree : Expr => tree ∈ trees ∧ part ∈ tree.subtrees := by
  induction trees with
  | nil => simp [allSubtrees]
  | cons tree trees ih => simp [allSubtrees, ih]

section Visits

variable [Elementary]

mutual

/-- Where a tree has a value, so has every tree inside it. -/
theorem outcome_visits (tree part : Expr) (value : Float) (valued : tree.outcome = .ok value)
    (member : part ∈ tree.subtrees) :
    Exists fun result : Float => part.outcome = .ok result := by
  match tree with
  | .literal _ =>
      rcases List.mem_singleton.mp member with rfl
      exact ⟨value, valued⟩
  | .signed sign operand =>
      rcases List.mem_cons.mp member with rfl | inside
      · exact ⟨value, valued⟩
      · rcases Outcome.bind_eq_ok_iff.mp valued with ⟨inner, valuedOperand, _⟩
        exact outcome_visits operand part inner valuedOperand inside
  | .binary operator left right =>
      rcases List.mem_cons.mp member with rfl | inside
      · exact ⟨value, valued⟩
      · rcases Outcome.bind_eq_ok_iff.mp valued with ⟨leftValue, valuedLeft, later⟩
        rcases Outcome.bind_eq_ok_iff.mp later with ⟨rightValue, valuedRight, _⟩
        rcases List.mem_append.mp inside with inLeft | inRight
        · exact outcome_visits left part leftValue valuedLeft inLeft
        · exact outcome_visits right part rightValue valuedRight inRight
  | .call name arguments =>
      rcases List.mem_cons.mp member with rfl | inside
      · exact ⟨value, valued⟩
      · rcases Outcome.bind_eq_ok_iff.mp valued with ⟨values, valuedAll, _⟩
        exact outcomes_visit arguments part values valuedAll inside

theorem outcomes_visit (trees : List Expr) (part : Expr) (values : List Float)
    (valued : outcomes trees = .ok values) (member : part ∈ allSubtrees trees) :
    Exists fun result : Float => part.outcome = .ok result := by
  match trees with
  | [] => cases member
  | tree :: trees =>
      rcases Outcome.bind_eq_ok_iff.mp valued with ⟨first, valuedFirst, later⟩
      rcases Outcome.bind_eq_ok_iff.mp later with ⟨others, valuedOthers, _⟩
      rcases List.mem_append.mp member with inFirst | inOthers
      · exact outcome_visits tree part first valuedFirst inFirst
      · exact outcomes_visit trees part others valuedOthers inOthers

end

theorem length_outcomes {trees : List Expr} {values : List Float}
    (valued : outcomes trees = .ok values) : values.length = trees.length := by
  induction trees generalizing values with
  | nil => cases valued; rfl
  | cons tree trees ih =>
      rcases Outcome.bind_eq_ok_iff.mp valued with ⟨first, _, later⟩
      rcases Outcome.bind_eq_ok_iff.mp later with ⟨others, valuedOthers, gathered⟩
      cases gathered
      exact congrArg (· + 1) (ih valuedOthers)

end Visits

end Expr

/-- A call succeeds only for a function of the table and with as many
arguments as it takes. -/
theorem Function.callByName_ok [Elementary] {name : String} {values : List Float} {result : Float}
    (called : callByName name values = .ok result) :
    Exists fun function : Function => find? name = some function ∧
      function.arity.admits values.length = true := by
  unfold callByName at called
  cases found : find? name with
  | none => simp [found] at called
  | some function =>
      refine ⟨function, rfl, ?_⟩
      by_cases admitted : function.arity.admits values.length = true
      · exact admitted
      · simp [found, admitted] at called

/-- Where a tree has a value, all of its calls are calls of the table. -/
theorem Expr.calls_of_outcome [Elementary] {tree : Expr} {value : Float}
    (valued : tree.outcome = .ok value) {name : String} {arguments : List Expr}
    (member : .call name arguments ∈ tree.subtrees) :
    Exists fun function : Function => Function.find? name = some function ∧
      function.arity.admits arguments.length = true := by
  rcases outcome_visits tree _ value valued member with ⟨result, valuedCall⟩
  rcases Outcome.bind_eq_ok_iff.mp valuedCall with ⟨values, valuedAll, called⟩
  rw [← length_outcomes valuedAll]
  exact Function.callByName_ok called

end DeskCalculator

import DeskCalculator.Proofs.Evaluation
import DeskCalculator.Proofs.Floats

namespace DeskCalculator

/-!
# The tree that a text is read as

A literal with a sign is written with the sign in front and without
parentheses, so it is read as a sign over its absolute value.  Everything else
in a tree is read as it was written.  The tree that is read is at most one node
higher, and its outcome is that of the tree, failures included.
-/

/-- Whether the sign bit of a float is set. -/
def isSigned (value : Float) : Bool :=
  match Exact.ofFloat value with
  | .undefined => false
  | .infinite negative => negative
  | .finite negative _ => negative

/-- A name that a text can call: letters, and at least one of them. -/
def IsName (name : String) : Prop :=
  name.toList ≠ [] ∧ forall letter, letter ∈ name.toList -> letter.isAlpha = true

namespace Expr

mutual

/-- The tree as which the text of a tree is read. -/
def reread : Expr -> Expr
  | .literal value =>
      if isSigned value then .signed .minus (.literal value.abs) else .literal value
  | .signed sign operand => .signed sign (reread operand)
  | .binary operator left right => .binary operator (reread left) (reread right)
  | .call name arguments => .call name (rereadAll arguments)

/-- The trees as which the texts of several trees are read. -/
def rereadAll : List Expr -> List Expr
  | [] => []
  | argument :: arguments => reread argument :: rereadAll arguments

end

/-- The tree has a text that can be read: its literals are finite and its calls
have names. -/
structure Writable (tree : Expr) : Prop where
  finite : forall value : Float, .literal value ∈ tree.subtrees -> value.isFinite = true
  named : forall (name : String) (arguments : List Expr),
    .call name arguments ∈ tree.subtrees -> IsName name

namespace Writable

variable {sign : Sign} {operator : Operator} {name : String} {tree first second : Expr}
  {trees : List Expr}

theorem mono {part : Expr} (writable : tree.Writable)
    (inside : forall inner, inner ∈ part.subtrees -> inner ∈ tree.subtrees) : part.Writable :=
  ⟨fun value member => writable.finite value (inside _ member),
    fun name arguments member => writable.named name arguments (inside _ member)⟩

theorem operand (writable : (Expr.signed sign tree).Writable) : tree.Writable :=
  writable.mono fun _ member => List.mem_cons_of_mem _ member

theorem left (writable : (Expr.binary operator first second).Writable) : first.Writable :=
  writable.mono fun _ member => List.mem_cons_of_mem _ (List.mem_append_left _ member)

theorem right (writable : (Expr.binary operator first second).Writable) : second.Writable :=
  writable.mono fun _ member => List.mem_cons_of_mem _ (List.mem_append_right _ member)

theorem arguments (writable : (Expr.call name trees).Writable) :
    forall argument, argument ∈ trees -> argument.Writable :=
  fun argument listed => writable.mono fun _ member =>
    List.mem_cons_of_mem _ (mem_allSubtrees_iff.mpr ⟨argument, listed, member⟩)

end Writable

/-! ## The tree that is read -/

/-- What a finite literal is, apart from its sign. -/
theorem reread_literal {value : Float} (finite : value.isFinite = true) :
    Exists fun magnitude : Magnitude => magnitude.IsCanonical ∧
      (Exact.finite false magnitude).toFloat = value.abs ∧
      ((Exact.ofFloat value = .finite true magnitude ∧ -value.abs = value ∧
          reread (.literal value) = .signed .minus (.literal value.abs)) ∨
        (Exact.ofFloat value = .finite false magnitude ∧ value.abs = value ∧
          reread (.literal value) = .literal value)) := by
  rcases Exact.isFinite_iff.mp finite with ⟨negative, magnitude, read⟩
  refine ⟨magnitude, (Exact.unpack_of_ofFloat read).2, (Exact.abs_eq_toFloat read).symm, ?_⟩
  cases negative with
  | true =>
      refine .inl ⟨read, Exact.neg_abs read, ?_⟩
      simp [reread, isSigned, read]
  | false =>
      refine .inr ⟨read, Exact.abs_of_unsigned read, ?_⟩
      simp [reread, isSigned, read]

mutual

/-- The signs that are read as nodes make the tree at most one higher. -/
theorem height_reread (tree : Expr) : tree.reread.height ≤ tree.height + 1 := by
  match tree with
  | .literal value =>
      rw [reread]
      split
      · exact Nat.le_refl _
      · exact Nat.le_succ _
  | .signed sign operand =>
      have lower := height_reread operand
      simp only [reread, height]
      omega
  | .binary operator left right =>
      have lowerLeft := height_reread left
      have lowerRight := height_reread right
      simp only [reread, height]
      omega
  | .call name arguments =>
      have lower := tallest_rereadAll arguments
      simp only [reread, height]
      omega

theorem tallest_rereadAll (trees : List Expr) : tallest (rereadAll trees) ≤ tallest trees + 1 := by
  match trees with
  | [] => exact Nat.le_succ _
  | tree :: trees =>
      have lowerFirst := height_reread tree
      have lowerRest := tallest_rereadAll trees
      simp only [rereadAll, tallest]
      omega

end

mutual

/-- The tree that is read has the same outcome. -/
theorem outcome_reread (tree : Expr) (writable : tree.Writable) :
    tree.reread.outcome = tree.outcome := by
  match tree with
  | .literal value =>
      rcases reread_literal (writable.finite value (mem_subtrees_self _)) with
        ⟨_, _, _, ⟨_, negated, read⟩ | ⟨_, _, read⟩⟩
      · rw [read]
        exact congrArg Except.ok negated
      · rw [read]
  | .signed sign operand =>
      simp only [reread, outcome, outcome_reread operand writable.operand]
  | .binary operator left right =>
      simp only [reread, outcome, outcome_reread left writable.left,
        outcome_reread right writable.right]
  | .call name arguments =>
      simp only [reread, outcome, outcomes_rereadAll arguments writable.arguments]

theorem outcomes_rereadAll (trees : List Expr)
    (writable : forall tree, tree ∈ trees -> tree.Writable) :
    outcomes (rereadAll trees) = outcomes trees := by
  match trees with
  | [] => rfl
  | tree :: trees =>
      simp only [rereadAll, outcomes, outcome_reread tree (writable tree (List.mem_cons_self ..)),
        outcomes_rereadAll trees fun other member => writable other (List.mem_cons_of_mem _ member)]

end

mutual

/-- A tree without signs in its literals is read as it is. -/
theorem reread_eq_self (tree : Expr)
    (unsigned : forall value : Float, .literal value ∈ tree.subtrees -> isSigned value = false) :
    tree.reread = tree := by
  match tree with
  | .literal value =>
      rw [reread, unsigned value (mem_subtrees_self _)]
      rfl
  | .signed sign operand =>
      rw [reread, reread_eq_self operand fun value member =>
        unsigned value (List.mem_cons_of_mem _ member)]
  | .binary operator left right =>
      rw [reread, reread_eq_self left fun value member =>
          unsigned value (List.mem_cons_of_mem _ (List.mem_append_left _ member)),
        reread_eq_self right fun value member =>
          unsigned value (List.mem_cons_of_mem _ (List.mem_append_right _ member))]
  | .call name arguments =>
      rw [reread, rereadAll_eq_self arguments fun value member =>
        unsigned value (List.mem_cons_of_mem _ member)]

theorem rereadAll_eq_self (trees : List Expr)
    (unsigned : forall value : Float, .literal value ∈ allSubtrees trees ->
      isSigned value = false) : rereadAll trees = trees := by
  match trees with
  | [] => rfl
  | tree :: trees =>
      rw [rereadAll, reread_eq_self tree fun value member =>
          unsigned value (List.mem_append_left _ member),
        rereadAll_eq_self trees fun value member =>
          unsigned value (List.mem_append_right _ member)]

end

end Expr

end DeskCalculator

import DeskCalculator.Proofs.Evaluation

namespace DeskCalculator
namespace Expr

/-!
# Paths in a tree

A path leads from the root of a tree down to one of its nodes and says at each
node which operand to go to.  Equal trees can stand at several places, so a
place is given by its path.  The height of a tree is the number of nodes on its
longest path from the root to a leaf.

Two paths part where they go to different operands, and then everything below
the one place is wholly to the left of everything below the other.  Of two
places at one level, one is always wholly to the left of the other.
-/

/-- The operands of the root, from left to right. -/
def operands : Expr -> List Expr
  | .literal _ => []
  | .signed _ operand => [operand]
  | .binary _ left right => [left, right]
  | .call _ arguments => arguments

theorem height_eq (tree : Expr) : tree.height = tallest tree.operands + 1 := by
  cases tree <;> simp [height, operands, tallest]

theorem subtrees_eq (tree : Expr) : tree.subtrees = tree :: allSubtrees tree.operands := by
  cases tree <;> simp [subtrees, operands, allSubtrees]

/-- Which operand to go to at the root, which one at the node there, and so
on.  The first operand has the index zero. -/
abbrev Path :=
  List Nat

/-- The tree to which a path leads, if it leads anywhere. -/
def part? (tree : Expr) : Path -> Option Expr
  | [] => some tree
  | index :: path => tree.operands[index]?.bind fun operand => operand.part? path

section Parts

variable {tree part : Expr}

theorem part?_cons_iff {index : Nat} {path : Path} :
    tree.part? (index :: path) = some part ↔ Exists fun operand : Expr =>
      tree.operands[index]? = some operand ∧ operand.part? path = some part :=
  Option.bind_eq_some_iff

theorem mem_subtrees_of_part? {path : Path} (found : tree.part? path = some part) :
    part ∈ tree.subtrees := by
  induction path generalizing tree with
  | nil =>
      cases found
      exact mem_subtrees_self _
  | cons index path ih =>
      rcases part?_cons_iff.mp found with ⟨operand, chosen, inside⟩
      rw [subtrees_eq]
      have below := mem_allSubtrees_iff.mpr ⟨operand, List.mem_of_getElem? chosen, ih inside⟩
      exact List.mem_cons_of_mem tree below

/-! ## The longest path -/

/-- A path cannot be longer than the height that it uses up. -/
theorem length_add_height_le {path : Path} (found : tree.part? path = some part) :
    path.length + part.height ≤ tree.height := by
  induction path generalizing tree with
  | nil =>
      cases found
      simp
  | cons index path ih =>
      rcases part?_cons_iff.mp found with ⟨operand, chosen, inside⟩
      have shorter := ih inside
      have low := height_le_tallest (List.mem_of_getElem? chosen)
      rw [height_eq tree, List.length_cons]
      omega

end Parts

/-- Some tree among several is the tallest, if there is one at all. -/
theorem exists_of_tallest {trees : List Expr} {height : Nat} (tall : tallest trees = height + 1) :
    Exists fun index : Nat => Exists fun tree : Expr =>
      trees[index]? = some tree ∧ tree.height = height + 1 := by
  induction trees with
  | nil => cases tall
  | cons first rest ih =>
      rw [tallest] at tall
      by_cases decides : first.height = height + 1
      · exact ⟨0, first, rfl, decides⟩
      · rcases ih (by omega) with ⟨index, tree, chosen, equal⟩
        exact ⟨index + 1, tree, chosen, equal⟩

theorem operands_eq_nil_of_height {tree : Expr} (low : tree.height = 1) : tree.operands = [] := by
  rw [height_eq] at low
  cases among : tree.operands with
  | nil => rfl
  | cons first rest =>
      have positive := first.height_pos
      rw [among, tallest] at low
      omega

/-- Going to the tallest operand at each node leads to a leaf of full depth. -/
theorem exists_longest {tree : Expr} {length : Nat} (tall : tree.height = length + 1) :
    Exists fun path : Path => Exists fun leaf : Expr =>
      tree.part? path = some leaf ∧ leaf.operands = [] ∧ path.length = length := by
  induction length generalizing tree with
  | zero => exact ⟨[], tree, rfl, operands_eq_nil_of_height tall, rfl⟩
  | succ length ih =>
      rw [height_eq] at tall
      rcases exists_of_tallest (Nat.succ.inj tall) with ⟨index, operand, chosen, tallOperand⟩
      rcases ih tallOperand with ⟨path, leaf, inside, last, long⟩
      exact ⟨index :: path, leaf, part?_cons_iff.mpr ⟨operand, chosen, inside⟩, last,
        by simp [long]⟩

/-- The numbers of nodes on the paths from the root to the leaves. -/
def pathLengths (tree : Expr) : Set Nat :=
  { count | Exists fun path : Path => Exists fun leaf : Expr =>
      tree.part? path = some leaf ∧ leaf.operands = [] ∧ path.length + 1 = count }

theorem height_isGreatest (tree : Expr) : IsGreatest tree.pathLengths tree.height := by
  have tall : tree.height = tree.height - 1 + 1 := (Nat.succ_pred tree.height_pos.ne').symm
  constructor
  · rcases exists_longest tall with ⟨path, leaf, found, last, long⟩
    exact ⟨path, leaf, found, last, by omega⟩
  · rintro count ⟨path, leaf, found, -, rfl⟩
    have bound := length_add_height_le found
    have present := leaf.height_pos
    omega

namespace Path

/-! ## Left and right -/

/-- The level of the place to which a path leads.  The root is at level one. -/
def level (path : Path) : Nat :=
  1 + path.length

/-- What is at the first place is wholly to the left of what is at the second:
the paths part, and the first one goes to an earlier operand. -/
inductive LeftOf : Path -> Path -> Prop
  | parted {index other : Nat} (path rest : Path) :
      index < other -> LeftOf (index :: path) (other :: rest)
  | shared (index : Nat) {path rest : Path} :
      LeftOf path rest -> LeftOf (index :: path) (index :: rest)

/-- Of two places at one level, one is wholly to the left of the other. -/
theorem eq_or_leftOf {first second : Path} (same : first.length = second.length) :
    first = second ∨ LeftOf first second ∨ LeftOf second first := by
  induction first generalizing second with
  | nil =>
      cases second with
      | nil => exact .inl rfl
      | cons index rest => cases same
  | cons index path ih =>
      cases second with
      | nil => cases same
      | cons other rest =>
          rcases Nat.lt_trichotomy index other with before | rfl | after
          · exact .inr (.inl (.parted path rest before))
          · rcases ih (Nat.succ.inj same) with rfl | left | right
            · exact .inl rfl
            · exact .inr (.inl (.shared index left))
            · exact .inr (.inr (.shared index right))
          · exact .inr (.inr (.parted rest path after))

end Path

/-- The path leads to the leftmost node of the tree at that level: every other
node at the level is to the right of it. -/
structure IsLeftmost (tree : Expr) (level : Nat) (path : Path) : Prop where
  level_eq : path.level = level
  present : Exists fun part : Expr => tree.part? path = some part
  first : forall (other : Path) (part : Expr), tree.part? other = some part ->
    other.level = level -> other = path ∨ Path.LeftOf path other

end Expr
end DeskCalculator

import DeskCalculator.Proofs.Grammar.Completeness
import DeskCalculator.Proofs.Paths

namespace DeskCalculator

/-!
# Putting trees together

While an expression is read, two things are kept count of: the constructs that
are open, and the heights of the trees built so far.  Here the steps that do so
come in any order, as the program of a machine with a stack of trees.  A descent
that is refused leaves the nesting as it is, and a node that is refused is lost
together with its operands.

Whatever the order, the level is the number of descents made, and each tree is
measured rightly although none is ever walked.  A node is refused for its own
height only; how deeply the reading has descended does not matter to it.  The
one tree that is not checked is a literal, which a limit of zero would refuse.
-/

/-- The nesting reached and the trees built so far, the last one first. -/
structure Assembly where
  nesting : Nesting
  built : List Subtree

namespace Assembly

/-- Before all steps there is no tree, and nothing is open. -/
def start (limit : Nat) : Assembly :=
  ⟨.outermost limit, []⟩

/-- One step.  A node takes its operands from the trees that were built last and
is refused at `position`; so is a descent. -/
inductive Step where
  | descend (position : Nat)
  | literal (value : Float)
  | signed (sign : Sign) (position : Nat)
  | binary (operator : Operator) (position : Nat)
  | call (name : String) (count : Nat) (position : Nat)

/-- How many trees the step takes. -/
def Step.operandCount : Step -> Nat
  | descend _ | literal _ => 0
  | signed _ _ => 1
  | binary _ _ => 2
  | call _ count _ => count

/-- A step that was made, with the reason if it was refused. -/
structure Record where
  step : Step
  refusal : Option SyntaxError

/-- Whether the step is a descent that was not refused. -/
def Record.isDescent : Record -> Bool
  | ⟨.descend _, none⟩ => true
  | _ => false

/-- Goes to the place inside, unless the descent is refused. -/
def enter (assembly : Assembly) (inside : Except SyntaxError Nesting) :
    Option SyntaxError × Assembly :=
  match inside with
  | .ok nesting => (none, { assembly with nesting })
  | .error refusal => (some refusal, assembly)

/-- Puts a new node on the trees that are left, unless it is refused. -/
def settle (assembly : Assembly) (rest : List Subtree) (node : Except SyntaxError Subtree) :
    Option SyntaxError × Assembly :=
  match node with
  | .ok subtree => (none, { assembly with built := subtree :: rest })
  | .error refusal => (some refusal, { assembly with built := rest })

/-- Makes one step, if the operands for it are there. -/
def perform (assembly : Assembly) : Step -> Option (Option SyntaxError × Assembly)
  | .descend position => some (assembly.enter (assembly.nesting.descend position))
  | .literal value => some (assembly.settle assembly.built (.ok (.literal value)))
  | .signed sign position =>
      match assembly.built with
      | operand :: rest =>
          some (assembly.settle rest
            (Subtree.signed assembly.nesting.limit sign operand position))
      | [] => none
  | .binary operator position =>
      match assembly.built with
      | right :: left :: rest =>
          some (assembly.settle rest
            (Subtree.binary assembly.nesting.limit operator left right position))
      | _ => none
  | .call name count position =>
      if count ≤ assembly.built.length then
        some (assembly.settle (assembly.built.drop count)
          (Subtree.call assembly.nesting.limit name (assembly.built.take count).reverse position))
      else
        none

/-- Makes several steps, if the operands for each of them are there. -/
def run (assembly : Assembly) : List Step -> Option (List Record × Assembly)
  | [] => some ([], assembly)
  | step :: steps => do
      let (refusal, next) ← assembly.perform step
      let (history, last) ← next.run steps
      return (⟨step, refusal⟩ :: history, last)

/-! ## Nodes -/

/-- The step is to build this tree of the operands on top of the stack.  Its node
stands at `position`, and the trees in `rest` are left. -/
inductive Step.Builds : Step -> List Subtree -> Expr -> Nat -> List Subtree -> Prop
  | signed (sign : Sign) (operand : Subtree) (position : Nat) (rest : List Subtree) :
      Builds (.signed sign position) (operand :: rest) (.signed sign operand.expr) position rest
  | binary (operator : Operator) (left right : Subtree) (position : Nat) (rest : List Subtree) :
      Builds (.binary operator position) (right :: left :: rest)
        (.binary operator left.expr right.expr) position rest
  | call (name : String) (reversed : List Subtree) (position : Nat) (rest : List Subtree) :
      Builds (.call name reversed.length position) (reversed ++ rest)
        (.call name (Subtree.exprs reversed.reverse)) position rest

variable {limit position : Nat} {assembly next : Assembly} {step : Step} {tree : Expr}
  {rest : List Subtree} {refusal : Option SyntaxError}

/-- The check of a node sees its height and the limit, and nothing else. -/
theorem settle_checked (assembly : Assembly) (rest : List Subtree) (limit position : Nat)
    (tree : Expr) :
    assembly.settle rest (Subtree.checked limit position (.ofExpr tree)) =
      if tree.height ≤ limit then
        (none, { assembly with built := .ofExpr tree :: rest })
      else
        (some (.tooDeep limit position), { assembly with built := rest }) := by
  by_cases fits : tree.height ≤ limit
  · have passes : Subtree.checked limit position (.ofExpr tree) = .ok (.ofExpr tree) := if_pos fits
    rw [passes, if_pos fits]
    rfl
  · have refused : Subtree.checked limit position (.ofExpr tree) =
        .error (.tooDeep limit position) := if_neg fits
    rw [refused, if_neg fits]
    rfl

/-- A node is refused exactly if the tree that it would make is taller than the
limit, at whichever level. -/
theorem perform_builds (builds : step.Builds assembly.built tree position rest) :
    assembly.perform step = some (
      if tree.height ≤ assembly.nesting.limit then
        (none, { assembly with built := .ofExpr tree :: rest })
      else
        (some (.tooDeep assembly.nesting.limit position), { assembly with built := rest })) := by
  rw [← settle_checked]
  generalize same : assembly.built = built at builds
  cases builds with
  | signed sign operand => simp only [perform, same, Subtree.signed_eq]
  | binary operator left right => simp only [perform, same, Subtree.binary_eq]
  | call name reversed =>
      have enough : reversed.length ≤ (reversed ++ rest).length := by simp
      rw [perform, same, if_pos enough, List.take_left, List.drop_left, Subtree.call_eq]

/-- A descent is refused exactly at the limit. -/
theorem perform_descend (assembly : Assembly) (position : Nat) :
    assembly.perform (.descend position) = some (
      if assembly.nesting.level < assembly.nesting.limit then
        (none, { assembly with nesting := ⟨assembly.nesting.limit, assembly.nesting.level + 1⟩ })
      else
        (some (.tooDeep assembly.nesting.limit position), assembly)) := by
  rw [perform, Nesting.descend]
  by_cases room : assembly.nesting.level < assembly.nesting.limit
  · rw [if_pos room, if_pos room]
    rfl
  · rw [if_neg room, if_neg room]
    rfl

/-- A step takes its operands from the top of the stack. -/
theorem perform_eq_none_iff :
    assembly.perform step = none ↔ assembly.built.length < step.operandCount := by
  rcases assembly with ⟨nesting, built⟩
  cases step with
  | descend position => simp [perform, Step.operandCount]
  | literal value => simp [perform, Step.operandCount]
  | signed sign position => cases built <;> simp [perform, Step.operandCount]
  | binary operator position =>
      rcases built with _ | ⟨right, _ | ⟨left, rest⟩⟩ <;> simp [perform, Step.operandCount]
  | call name count position => simp [perform, Step.operandCount]

theorem builds_call {name : String} {count : Nat} {built : List Subtree}
    (enough : count ≤ built.length) :
    Step.Builds (.call name count position) built
      (.call name (Subtree.exprs (built.take count).reverse)) position (built.drop count) := by
  have builds := Step.Builds.call name (built.take count) position (built.drop count)
  rwa [List.take_append_drop, List.length_take, Nat.min_eq_left enough] at builds

/-- A step that is made is a descent, a literal, or one that builds a node. -/
theorem perform_cases (performed : assembly.perform step = some (refusal, next)) :
    (Exists fun position : Nat => step = .descend position) ∨
      (Exists fun value : Float => step = .literal value) ∨
      Exists fun tree : Expr => Exists fun position : Nat => Exists fun rest : List Subtree =>
        step.Builds assembly.built tree position rest := by
  cases step with
  | descend position => exact .inl ⟨position, rfl⟩
  | literal value => exact .inr (.inl ⟨value, rfl⟩)
  | signed sign position =>
      refine .inr (.inr ?_)
      cases among : assembly.built with
      | nil => simp [perform, among] at performed
      | cons operand rest => exact ⟨_, _, _, .signed sign operand position rest⟩
  | binary operator position =>
      refine .inr (.inr ?_)
      rcases among : assembly.built with _ | ⟨right, _ | ⟨left, rest⟩⟩
      · simp [perform, among] at performed
      · simp [perform, among] at performed
      · exact ⟨_, _, _, .binary operator left right position rest⟩
  | call name count position =>
      by_cases enough : count ≤ assembly.built.length
      · exact .inr (.inr ⟨_, _, _, builds_call enough⟩)
      · rw [perform, if_neg enough] at performed
        cases performed

namespace Step.Builds

variable {built : List Subtree} {subtree : Subtree}

theorem mem_of_mem_rest (builds : step.Builds built tree position rest) (member : subtree ∈ rest) :
    subtree ∈ built := by
  cases builds with
  | signed => exact List.mem_cons_of_mem _ member
  | binary => exact List.mem_cons_of_mem _ (List.mem_cons_of_mem _ member)
  | call => exact List.mem_append_right _ member

theorem isDescent_eq (builds : step.Builds built tree position rest)
    (refusal : Option SyntaxError) : Record.isDescent ⟨step, refusal⟩ = false := by
  cases builds <;> rfl

end Step.Builds

/-! ## What every step keeps -/

/-- The level and all heights keep to the limit, except that a literal has a
height of one under any limit. -/
structure Keeps (limit : Nat) (assembly : Assembly) : Prop where
  limit_eq : assembly.nesting.limit = limit
  level_le : assembly.nesting.level ≤ limit
  height_le : forall subtree, subtree ∈ assembly.built -> subtree.height ≤ max limit 1

theorem start_keeps (limit : Nat) : (start limit).Keeps limit :=
  ⟨rfl, Nat.zero_le limit, nofun⟩

/-- A tree on top keeps to the limit if it was checked, or is a literal. -/
theorem Keeps.push (keeps : assembly.Keeps limit) {subtree : Subtree}
    (low : subtree.height ≤ max limit 1)
    (remain : forall other, other ∈ rest -> other ∈ assembly.built) :
    Keeps limit { assembly with built := subtree :: rest } where
  limit_eq := keeps.limit_eq
  level_le := keeps.level_le
  height_le := by
    rintro other (_ | ⟨_, member⟩)
    · exact low
    · exact keeps.height_le other (remain other member)

theorem Keeps.drop (keeps : assembly.Keeps limit)
    (remain : forall other, other ∈ rest -> other ∈ assembly.built) :
    Keeps limit { assembly with built := rest } :=
  ⟨keeps.limit_eq, keeps.level_le, fun other member => keeps.height_le other (remain other member)⟩

/-- The next level counts one descent more if the step is one that was made. -/
structure Advances (limit : Nat) (assembly : Assembly) (record : Record) (next : Assembly) :
    Prop where
  keeps : next.Keeps limit
  level_eq : next.nesting.level = assembly.nesting.level + if record.isDescent then 1 else 0

theorem descend_advances (keeps : assembly.Keeps limit)
    (performed : assembly.perform (.descend position) = some (refusal, next)) :
    Advances limit assembly ⟨.descend position, refusal⟩ next := by
  rw [perform_descend, keeps.limit_eq] at performed
  by_cases room : assembly.nesting.level < limit
  · rw [if_pos room] at performed
    cases performed
    exact ⟨⟨rfl, room, keeps.height_le⟩, rfl⟩
  · rw [if_neg room] at performed
    cases performed
    exact ⟨keeps, rfl⟩

theorem literal_advances (keeps : assembly.Keeps limit) {value : Float}
    (performed : assembly.perform (.literal value) = some (refusal, next)) :
    Advances limit assembly ⟨.literal value, refusal⟩ next := by
  cases performed
  exact ⟨keeps.push (Nat.le_max_right limit 1) fun _ member => member, rfl⟩

theorem builds_advances (keeps : assembly.Keeps limit)
    (builds : step.Builds assembly.built tree position rest)
    (performed : assembly.perform step = some (refusal, next)) :
    Advances limit assembly ⟨step, refusal⟩ next := by
  have remain := fun other (member : other ∈ rest) => builds.mem_of_mem_rest member
  rw [perform_builds builds, keeps.limit_eq] at performed
  by_cases fits : tree.height ≤ limit
  · rw [if_pos fits] at performed
    cases performed
    have low : (Subtree.ofExpr tree).height ≤ max limit 1 :=
      Nat.le_trans fits (Nat.le_max_left limit 1)
    exact ⟨keeps.push low remain, by rw [builds.isDescent_eq]; rfl⟩
  · rw [if_neg fits] at performed
    cases performed
    exact ⟨keeps.drop remain, by rw [builds.isDescent_eq]; rfl⟩

theorem perform_advances (keeps : assembly.Keeps limit)
    (performed : assembly.perform step = some (refusal, next)) :
    Advances limit assembly ⟨step, refusal⟩ next := by
  rcases perform_cases performed with ⟨_, rfl⟩ | ⟨_, rfl⟩ | ⟨_, _, _, builds⟩
  · exact descend_advances keeps performed
  · exact literal_advances keeps performed
  · exact builds_advances keeps builds performed

theorem run_cons_eq_some {steps : List Step} {history : List Record} {last : Assembly}
    (ran : assembly.run (step :: steps) = some (history, last)) :
    Exists fun refusal : Option SyntaxError => Exists fun next : Assembly =>
      Exists fun later : List Record => assembly.perform step = some (refusal, next) ∧
        next.run steps = some (later, last) ∧ history = ⟨step, refusal⟩ :: later := by
  rcases Option.bind_eq_some_iff.mp ran with ⟨⟨refusal, next⟩, performed, ranOn⟩
  rcases Option.bind_eq_some_iff.mp ranOn with ⟨⟨later, final⟩, ranLater, gathered⟩
  cases gathered
  exact ⟨refusal, next, later, performed, ranLater, rfl⟩

/-- A run keeps what its steps keep, and counts the descents that were made. -/
theorem run_keeps {steps : List Step} {history : List Record} {last : Assembly}
    (keeps : assembly.Keeps limit) (ran : assembly.run steps = some (history, last)) :
    last.Keeps limit ∧
      last.nesting.level = assembly.nesting.level + history.countP Record.isDescent := by
  induction steps generalizing assembly history with
  | nil =>
      cases ran
      exact ⟨keeps, rfl⟩
  | cons step steps ih =>
      rcases run_cons_eq_some ran with ⟨refusal, next, later, performed, ranLater, rfl⟩
      have advances := perform_advances keeps performed
      rcases ih advances.keeps ranLater with ⟨keepsLast, level_eq⟩
      refine ⟨keepsLast, ?_⟩
      rw [level_eq, advances.level_eq, List.countP_cons]
      omega

/-- After any steps the level is the number of descents that were made and does
not exceed the limit, and every tree is carried with the length of its longest
path, which only a literal can have in excess of the limit.  Then a node is
refused exactly if its tree would be taller than the limit, and a descent
exactly at the limit; a step is impossible only if operands are missing. -/
theorem bookkeeping_is_exact (limit : Nat) (steps : List Step) (history : List Record)
    (assembly : Assembly) (ran : (start limit).run steps = some (history, assembly)) :
    assembly.nesting = ⟨limit, history.countP Record.isDescent⟩ ∧
    history.countP Record.isDescent ≤ limit ∧
    (forall subtree : Subtree, subtree ∈ assembly.built ->
      IsGreatest subtree.expr.pathLengths subtree.height ∧ subtree.height ≤ max limit 1) ∧
    (forall (step : Step) (tree : Expr) (position : Nat) (rest : List Subtree),
      step.Builds assembly.built tree position rest ->
        assembly.perform step = some (
          if tree.height ≤ limit then
            (none, { assembly with built := .ofExpr tree :: rest })
          else
            (some (.tooDeep limit position), { assembly with built := rest }))) ∧
    (forall position : Nat, assembly.perform (.descend position) = some (
      if history.countP Record.isDescent < limit then
        (none, { assembly with nesting := ⟨limit, history.countP Record.isDescent + 1⟩ })
      else
        (some (.tooDeep limit position), assembly))) ∧
    (forall step : Step,
      assembly.perform step = none ↔ assembly.built.length < step.operandCount) := by
  rcases run_keeps (start_keeps limit) ran with ⟨keeps, level_eq⟩
  have nesting_eq : assembly.nesting = ⟨limit, history.countP Record.isDescent⟩ := by
    rw [show (start limit).nesting.level = 0 from rfl, Nat.zero_add] at level_eq
    rw [← level_eq, ← keeps.limit_eq]
  refine ⟨nesting_eq, ?_, ?_, ?_, ?_, fun step => perform_eq_none_iff⟩
  · have bound := keeps.level_le
    rwa [nesting_eq] at bound
  · intro subtree member
    refine ⟨?_, keeps.height_le subtree member⟩
    rw [subtree.height_eq]
    exact subtree.expr.height_isGreatest
  · intro step tree position rest builds
    rw [perform_builds builds, keeps.limit_eq]
  · intro position
    rw [perform_descend, nesting_eq]

/-- With one level allowed, the sign is refused for its height although the
descent before it was not, and takes its operand with it.  The call without
arguments is as low as a literal. -/
theorem bookkeeping_is_exact_one_level :
    Exists fun history : List Record => Exists fun assembly : Assembly =>
      (start 1).run [.descend 0, .literal 2, .signed .minus 1, .literal 3, .call "f" 0 5,
        .descend 7] = some (history, assembly) ∧
      history.map Record.refusal =
        [none, none, some (.tooDeep 1 1), none, none, some (.tooDeep 1 7)] ∧
      assembly.built.map Subtree.expr = [.call "f" [], .literal 3] ∧
      assembly.nesting = ⟨1, 1⟩ ∧
      (forall subtree : Subtree, subtree ∈ assembly.built ->
        IsGreatest subtree.expr.pathLengths subtree.height ∧ subtree.height ≤ 1) ∧
      assembly.perform (.binary .add 9) =
        some (some (.tooDeep 1 9), { assembly with built := [] }) := by
  have kept := bookkeeping_is_exact 1 [.descend 0, .literal 2, .signed .minus 1, .literal 3,
    .call "f" 0 5, .descend 7] _ _ rfl
  refine ⟨_, _, rfl, rfl, rfl, kept.1, kept.2.2.1, ?_⟩
  exact kept.2.2.2.1 _ _ _ _ (.binary .add (.literal 3) (.ofExpr (.call "f" [])) 9 [])

end Assembly
end DeskCalculator

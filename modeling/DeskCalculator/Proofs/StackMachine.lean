import DeskCalculator.Proofs.Evaluation
import DeskCalculator.Proofs.Failures

namespace DeskCalculator

/-!
# Evaluation on a stack

The nodes of a tree in postorder are a program for a machine with a stack of
values: operands come before their operation, from left to right.  A tree that
fits below the limit has the outcome of its program.  The machine stops at the
first operation that fails, so the failure of a tree is that of its first node in
postorder that fails although its operands have values; names and numbers of
arguments are judged only then.
-/

namespace Expr

mutual

/-- A tree and all trees inside it, each after those inside it. -/
def postorder : Expr -> List Expr
  | .literal value => [.literal value]
  | .signed sign operand => postorder operand ++ [.signed sign operand]
  | .binary operator left right =>
      postorder left ++ (postorder right ++ [.binary operator left right])
  | .call name arguments => postorderAll arguments ++ [.call name arguments]

/-- Several trees and all trees inside them. -/
def postorderAll : List Expr -> List Expr
  | [] => []
  | argument :: arguments => postorder argument ++ postorderAll arguments

end

end Expr

/-! ## The machine -/

/-- One step of the machine. -/
inductive Instruction where
  | push (value : Float)
  | sign (sign : Sign)
  | operate (operator : Operator)
  | call (name : String) (count : Nat)
deriving DecidableEq

/-- Why the machine stops before the end of its program. -/
inductive Stop where
  | underflow
  | failed (error : EvaluationError)
deriving DecidableEq

namespace Instruction

/-- What a node does once its operands have values. -/
def ofNode : Expr -> Instruction
  | .literal value => .push value
  | .signed applied _ => .sign applied
  | .binary operator _ _ => .operate operator
  | .call name arguments => .call name arguments.length

/-- Takes the operands from the stack, the last one first, and puts the result
there.  The top of the stack is the head of the list. -/
def execute : Instruction -> List Float -> Except Stop (List Float)
  | .push value, stack => return value :: stack
  | .sign applied, operand :: stack => return applied.apply operand :: stack
  | .operate operator, right :: left :: stack => do
      return (← (operator.apply left right).mapError .failed) :: stack
  | .call name count, stack =>
      if count ≤ stack.length then do
        let result ← (Function.callByName name (stack.take count).reverse).mapError .failed
        return result :: stack.drop count
      else
        throw .underflow
  | _, _ => throw .underflow

end Instruction

namespace StackMachine

/-- Runs a program up to its end or to the first step that fails. -/
def run : List Instruction -> List Float -> Except Stop (List Float)
  | [], stack => return stack
  | instruction :: program, stack => do run program (← instruction.execute stack)

end StackMachine

/-- The program of a tree: its nodes in postorder. -/
def Expr.program (tree : Expr) : List Instruction :=
  tree.postorder.map Instruction.ofNode

/-- The programs of several trees one after the other. -/
def Expr.programAll (trees : List Expr) : List Instruction :=
  (postorderAll trees).map Instruction.ofNode

/-! ## Running the program of a tree -/

namespace Instruction

/-- A call finds its arguments on the stack in the order in which they were
evaluated. -/
theorem execute_call (name : String) (values stack : List Float) :
    (Instruction.call name values.length).execute (values.reverse ++ stack) =
      (Function.callByName name values).mapError .failed >>= fun result =>
        .ok (result :: stack) := by
  have enough : values.length ≤ (values.reverse ++ stack).length := by simp
  have taken : ((values.reverse ++ stack).take values.length).reverse = values := by
    rw [List.take_left' List.length_reverse, List.reverse_reverse]
  have left : (values.reverse ++ stack).drop values.length = stack :=
    List.drop_left' List.length_reverse
  rw [execute, if_pos enough, taken, left]
  rfl

end Instruction

namespace StackMachine

mutual

/-- The program of a tree puts its value on the stack, whatever is below and
whatever comes next. -/
theorem run_program (tree : Expr) (next : List Instruction) (stack : List Float) :
    run (tree.program ++ next) stack =
      tree.outcome.mapError .failed >>= fun value => run next (value :: stack) := by
  match tree with
  | .literal value => rfl
  | .signed sign operand =>
      have step := run_program operand (.sign sign :: next) stack
      rw [Expr.program, Expr.postorder, List.map_append, List.append_assoc]
      refine step.trans ?_
      rw [Expr.outcome]
      cases operand.outcome <;> rfl
  | .binary operator left right =>
      have stepLeft := run_program left (right.program ++ .operate operator :: next) stack
      rw [Expr.program, Expr.postorder, List.map_append, List.map_append, List.append_assoc,
        List.append_assoc]
      refine stepLeft.trans ?_
      rw [Expr.outcome]
      cases left.outcome with
      | error cause => rfl
      | ok leftValue =>
          refine (run_program right (.operate operator :: next) (leftValue :: stack)).trans ?_
          cases right.outcome with
          | error cause => rfl
          | ok rightValue =>
              change (Instruction.operate operator).execute (rightValue :: leftValue :: stack) >>=
                run next = (operator.apply leftValue rightValue).mapError .failed >>= _
              rw [Instruction.execute]
              cases operator.apply leftValue rightValue <;> rfl
  | .call name arguments =>
      have steps := run_programAll arguments (.call name arguments.length :: next) stack
      rw [Expr.program, Expr.postorder, List.map_append, List.append_assoc]
      refine steps.trans ?_
      rw [Expr.outcome]
      cases evaluated : Expr.outcomes arguments with
      | error cause => rfl
      | ok values =>
          change (Instruction.call name arguments.length).execute (values.reverse ++ stack) >>=
            run next = (Function.callByName name values).mapError .failed >>= _
          rw [← Expr.length_outcomes evaluated, Instruction.execute_call]
          cases Function.callByName name values <;> rfl

/-- The programs of several trees put their values on the stack, the last one on
top. -/
theorem run_programAll (trees : List Expr) (next : List Instruction) (stack : List Float) :
    run (Expr.programAll trees ++ next) stack =
      (Expr.outcomes trees).mapError .failed >>= fun values =>
        run next (values.reverse ++ stack) := by
  match trees with
  | [] => rfl
  | tree :: trees =>
      rw [Expr.programAll, Expr.postorderAll, List.map_append, List.append_assoc]
      refine (run_program tree (Expr.programAll trees ++ next) stack).trans ?_
      rw [Expr.outcomes]
      cases tree.outcome with
      | error cause => rfl
      | ok value =>
          refine (run_programAll trees next (value :: stack)).trans ?_
          cases Expr.outcomes trees with
          | error cause => rfl
          | ok values =>
              change run next (values.reverse ++ value :: stack) =
                run next ((value :: values).reverse ++ stack)
              rw [List.reverse_cons, List.append_assoc]
              rfl

end

end StackMachine

/-! ## The first node that fails -/

namespace Expr

/-- The operands of the tree have values under the limit, and its own operation
fails on them. -/
inductive FailsItself (limit : Nat) : Expr -> EvaluationError -> Prop
  | binary {operator : Operator} {left right : Expr} {leftValue rightValue : Float}
      {error : EvaluationError} :
      left.evaluate limit = .ok leftValue -> right.evaluate limit = .ok rightValue ->
      operator.apply leftValue rightValue = .error error ->
      FailsItself limit (.binary operator left right) error
  | call {name : String} {arguments : List Expr} {values : List Float}
      {error : EvaluationError} :
      List.Forall₂ (fun argument value => argument.evaluate limit = .ok value) arguments values ->
      Function.callByName name values = .error error ->
      FailsItself limit (.call name arguments) error

/-- Among several nodes there is a first one that fails, with this error; those
before it have values. -/
def FailsFirst (limit : Nat) (nodes : List Expr) (error : EvaluationError) : Prop :=
  Exists fun front : List Expr => Exists fun node : Expr => Exists fun back : List Expr =>
    nodes = front ++ node :: back ∧
      (forall earlier, earlier ∈ front ->
        Exists fun value : Float => earlier.evaluate limit = .ok value) ∧
      node.FailsItself limit error

namespace FailsFirst

variable {limit : Nat} {first second : List Expr} {error : EvaluationError}

theorem append (fails : FailsFirst limit first error) (more : List Expr) :
    FailsFirst limit (first ++ more) error := by
  rcases fails with ⟨front, node, back, rfl, valued, itself⟩
  exact ⟨front, node, back ++ more, by simp, valued, itself⟩

theorem prepend (fails : FailsFirst limit second error)
    (valued : forall earlier, earlier ∈ first ->
      Exists fun value : Float => earlier.evaluate limit = .ok value) :
    FailsFirst limit (first ++ second) error := by
  rcases fails with ⟨front, node, back, rfl, valuedFront, itself⟩
  exact ⟨first ++ front, node, back, by simp, List.forall_mem_append.mpr ⟨valued, valuedFront⟩,
    itself⟩

theorem last {node : Expr} (itself : node.FailsItself limit error)
    (valued : forall earlier, earlier ∈ first ->
      Exists fun value : Float => earlier.evaluate limit = .ok value) :
    FailsFirst limit (first ++ [node]) error :=
  ⟨first, node, [], rfl, valued, itself⟩

end FailsFirst

mutual

/-- The nodes of a tree in postorder are the trees inside it. -/
theorem mem_postorder_iff (tree part : Expr) :
    part ∈ tree.postorder ↔ part ∈ tree.subtrees := by
  match tree with
  | .literal value => rfl
  | .signed sign operand =>
      rw [postorder, subtrees, List.mem_append, List.mem_singleton, List.mem_cons,
        mem_postorder_iff operand, or_comm]
  | .binary operator left right =>
      rw [postorder, subtrees, List.mem_append, List.mem_append, List.mem_singleton,
        List.mem_cons, List.mem_append, mem_postorder_iff left, mem_postorder_iff right,
        ← or_assoc, or_comm]
  | .call name arguments =>
      rw [postorder, subtrees, List.mem_append, List.mem_singleton, List.mem_cons,
        mem_postorderAll_iff arguments, or_comm]

theorem mem_postorderAll_iff (trees : List Expr) (part : Expr) :
    part ∈ postorderAll trees ↔ part ∈ allSubtrees trees := by
  match trees with
  | [] => rfl
  | tree :: trees =>
      simp only [postorderAll, allSubtrees, List.mem_append, mem_postorder_iff tree,
        mem_postorderAll_iff trees]

end

mutual

theorem height_le_of_mem_subtrees (tree : Expr) {part : Expr} (member : part ∈ tree.subtrees) :
    part.height ≤ tree.height := by
  match tree with
  | .literal value => exact Nat.le_of_eq (List.mem_singleton.mp member ▸ rfl)
  | .signed sign operand =>
      rcases List.mem_cons.mp member with rfl | inside
      · exact Nat.le_refl _
      · have lower := height_le_of_mem_subtrees operand inside
        rw [height]
        omega
  | .binary operator left right =>
      rcases List.mem_cons.mp member with rfl | inside
      · exact Nat.le_refl _
      · rw [height]
        rcases List.mem_append.mp inside with inLeft | inRight
        · have lower := height_le_of_mem_subtrees left inLeft
          omega
        · have lower := height_le_of_mem_subtrees right inRight
          omega
  | .call name arguments =>
      rcases List.mem_cons.mp member with rfl | inside
      · exact Nat.le_refl _
      · have lower := height_le_of_mem_allSubtrees arguments inside
        rw [height]
        omega

theorem height_le_of_mem_allSubtrees (trees : List Expr) {part : Expr}
    (member : part ∈ allSubtrees trees) : part.height ≤ tallest trees := by
  match trees with
  | [] => cases member
  | tree :: trees =>
      rw [tallest]
      rcases List.mem_append.mp member with inFirst | inOthers
      · have lower := height_le_of_mem_subtrees tree inFirst
        omega
      · have lower := height_le_of_mem_allSubtrees trees inOthers
        omega

end

section Fitting

variable {limit : Nat}

/-- Where a tree that fits has a value, so has every node of it. -/
theorem evaluate_visits {tree : Expr} {value : Float} (fits : tree.height ≤ limit)
    (evaluated : tree.evaluate limit = .ok value) :
    forall earlier, earlier ∈ tree.postorder ->
      Exists fun result : Float => earlier.evaluate limit = .ok result := by
  intro earlier member
  have inside := (mem_postorder_iff tree earlier).mp member
  rw [evaluate_eq_outcome (Nat.le_trans (height_le_of_mem_subtrees tree inside) fits)]
  exact outcome_visits tree earlier value (outcome_of_evaluate evaluated) inside

theorem evaluate_visits_all {trees : List Expr} {values : List Float}
    (fit : tallest trees ≤ limit)
    (evaluated : List.Forall₂ (fun tree value => tree.evaluate limit = .ok value) trees values) :
    forall earlier, earlier ∈ postorderAll trees ->
      Exists fun result : Float => earlier.evaluate limit = .ok result := by
  induction evaluated with
  | nil => exact nofun
  | cons valued _ ih =>
      rw [tallest] at fit
      exact List.forall_mem_append.mpr ⟨evaluate_visits (by omega) valued, ih (by omega)⟩

/-- The values of several trees are the values of each of them. -/
theorem outcomes_eq_ok_iff {trees : List Expr} (fit : tallest trees ≤ limit)
    {values : List Float} :
    outcomes trees = .ok values ↔
      List.Forall₂ (fun tree value => tree.evaluate limit = .ok value) trees values := by
  induction trees generalizing values with
  | nil =>
      constructor
      · rintro ⟨⟩
        exact .nil
      · rintro ⟨⟩
        rfl
  | cons tree trees ih =>
      rw [tallest] at fit
      have first : tree.evaluate limit = tree.outcome := evaluate_eq_outcome (by omega)
      constructor
      · intro evaluated
        rcases Outcome.bind_eq_ok_iff.mp evaluated with ⟨value, valued, later⟩
        rcases Outcome.bind_eq_ok_iff.mp later with ⟨others, valuedOthers, gathered⟩
        cases gathered
        exact .cons (first.trans valued) ((ih (by omega)).mp valuedOthers)
      · rintro (_ | ⟨valued, others⟩)
        rw [first] at valued
        rw [outcomes, valued]
        exact Outcome.bind_eq_ok_iff.mpr ⟨_, rfl, by rw [(ih (by omega)).mpr others]; rfl⟩

mutual

/-- A tree that fits and fails does so at its first node that fails. -/
theorem failsFirst_of_outcome (tree : Expr) (fits : tree.height ≤ limit)
    {error : EvaluationError} (failed : tree.outcome = .error error) :
    FailsFirst limit tree.postorder error := by
  match tree with
  | .literal value => cases failed
  | .signed sign operand =>
      rw [height] at fits
      rcases Outcome.bind_eq_error_iff.mp failed with failedOperand | ⟨_, _, applied⟩
      · exact (failsFirst_of_outcome operand (by omega) failedOperand).append _
      · cases applied
  | .binary operator left right =>
      rw [height] at fits
      have fitsLeft : left.height ≤ limit := by omega
      have fitsRight : right.height ≤ limit := by omega
      rcases Outcome.bind_eq_error_iff.mp failed with failedLeft | ⟨leftValue, valuedLeft, later⟩
      · exact (failsFirst_of_outcome left fitsLeft failedLeft).append _
      · rw [← evaluate_eq_outcome fitsLeft] at valuedLeft
        refine FailsFirst.prepend ?_ (evaluate_visits fitsLeft valuedLeft)
        rcases Outcome.bind_eq_error_iff.mp later with failedRight | ⟨rightValue, valuedRight, last⟩
        · exact (failsFirst_of_outcome right fitsRight failedRight).append _
        · rw [← evaluate_eq_outcome fitsRight] at valuedRight
          exact .last (.binary valuedLeft valuedRight last) (evaluate_visits fitsRight valuedRight)
  | .call name arguments =>
      rw [height] at fits
      have fit : tallest arguments ≤ limit := by omega
      rcases Outcome.bind_eq_error_iff.mp failed with failedSome | ⟨values, valuedAll, called⟩
      · exact (failsFirst_of_outcomes arguments fit failedSome).append _
      · have valued := (outcomes_eq_ok_iff fit).mp valuedAll
        exact .last (.call valued called) (evaluate_visits_all fit valued)

theorem failsFirst_of_outcomes (trees : List Expr) (fit : tallest trees ≤ limit)
    {error : EvaluationError} (failed : outcomes trees = .error error) :
    FailsFirst limit (postorderAll trees) error := by
  match trees with
  | [] => cases failed
  | tree :: trees =>
      rw [tallest] at fit
      have fits : tree.height ≤ limit := by omega
      rcases Outcome.bind_eq_error_iff.mp failed with failedFirst | ⟨value, valued, later⟩
      · exact (failsFirst_of_outcome tree fits failedFirst).append _
      · rw [← evaluate_eq_outcome fits] at valued
        refine FailsFirst.prepend ?_ (evaluate_visits fits valued)
        rcases Outcome.bind_eq_error_iff.mp later with failedLater | ⟨_, _, gathered⟩
        · exact failsFirst_of_outcomes trees (by omega) failedLater
        · cases gathered

end

end Fitting

end Expr

/-! ## Calls that fail as calls -/

/-- Only a call that all arguments of have values fails as a call. -/
theorem Expr.FailsItself.call_of_isOfCall {limit : Nat} {node : Expr} {error : EvaluationError}
    (itself : node.FailsItself limit error) (ofCall : error.IsOfCall) :
    Exists fun name : String => Exists fun arguments : List Expr =>
      node = .call name arguments ∧
        (forall argument, argument ∈ arguments ->
          Exists fun value : Float => argument.evaluate limit = .ok value) ∧
        Function.Refuses name arguments.length error := by
  have notArithmetic : ¬ error.IsArithmetic := by
    cases error with
    | unsupportedFunction name | argumentCount name expected found => exact id
    | unsupportedOperator symbol | divisionByZero | domain details | tooDeep deepest =>
        exact ofCall.elim
  cases itself with
  | @binary operator left right leftValue rightValue _ _ _ applied =>
      have arithmetic := FailsArithmetically.operator operator leftValue rightValue
      rw [applied] at arithmetic
      exact absurd arithmetic notArithmetic
  | @call name arguments values _ valued called =>
      refine ⟨name, arguments, rfl, ?_, ?_⟩
      · intro argument member
        rcases List.mem_iff_get.mp member with ⟨index, rfl⟩
        exact ⟨_, valued.get index.isLt (valued.length_eq ▸ index.isLt)⟩
      · rw [valued.length_eq]
        exact (Function.callByName_error called).resolve_right notArithmetic

namespace StackMachine

/-- A tree that fits below the limit has the outcome of its program on a stack,
whatever is on the stack already; on an empty one the value is the only element
that is left.  The failure of a tree is that of the first node in postorder that
fails itself, and a wrong name or a wrong number of arguments is reported only
of a call whose arguments have values. -/
theorem evaluate_runs_program (limit : Nat) (tree : Expr) (fits : tree.height ≤ limit) :
    (forall stack : List Float, run tree.program stack =
      ((tree.evaluate limit).mapError Stop.failed).map (· :: stack)) ∧
    forall error : EvaluationError, tree.evaluate limit = .error error ->
      Exists fun front : List Expr => Exists fun node : Expr => Exists fun back : List Expr =>
        tree.postorder = front ++ node :: back ∧
          (forall earlier, earlier ∈ front ->
            Exists fun value : Float => earlier.evaluate limit = .ok value) ∧
          node.FailsItself limit error ∧
          (error.IsOfCall -> Exists fun name : String => Exists fun arguments : List Expr =>
            node = .call name arguments ∧
              (forall argument, argument ∈ arguments ->
                Exists fun value : Float => argument.evaluate limit = .ok value) ∧
              Function.Refuses name arguments.length error) := by
  constructor
  · intro stack
    have ran := run_program tree [] stack
    rw [List.append_nil] at ran
    rw [ran, Expr.evaluate_eq_outcome fits]
    cases tree.outcome <;> rfl
  · intro error failed
    rw [Expr.evaluate_eq_outcome fits] at failed
    rcases Expr.failsFirst_of_outcome tree fits failed with
      ⟨front, node, back, same, valued, itself⟩
    exact ⟨front, node, back, same, valued, itself, itself.call_of_isOfCall⟩

/-- The second argument fails before the name of the call is looked up, and the
value of the first one is below it on the stack. -/
theorem evaluate_runs_program_quotient :
    (Expr.call "foo" [.literal 1, .binary .divide (.literal 2) (.literal 0)]).height ≤ 3 ∧
      (Expr.call "foo" [.literal 1, .binary .divide (.literal 2) (.literal 0)]).evaluate 3 =
        .error .divisionByZero ∧
      run [.push 1, .push 2, .push 0, .operate .divide, .call "foo" 2] [] =
        .error (.failed .divisionByZero) := by
  have fits :
      (Expr.call "foo" [.literal 1, .binary .divide (.literal 2) (.literal 0)]).height ≤ 3 := by
    decide
  have failed : (Expr.call "foo" [.literal 1, .binary .divide (.literal 2)
      (.literal 0)]).evaluate 3 = .error .divisionByZero := rfl
  have ran := (evaluate_runs_program 3 _ fits).1 []
  rw [failed] at ran
  exact ⟨fits, failed, ran⟩

end StackMachine

end DeskCalculator

import DeskCalculator.Expr.Evaluation
import DeskCalculator.Expr.Subtree
import DeskCalculator.Proofs.Grammar

namespace DeskCalculator

/-!
# Calls that may be nested only so deeply

Expressions can also be read by recursive descent, with a function for each rule
of the grammar, and evaluation calls itself on the parts of a tree.  Here every
call takes the number of calls that may be nested in one another from here on,
itself included, and hands one less to the calls that it makes.  Where none is
left the outcome is `exhausted`, which is no failure of the reading or of the
evaluation.

A loop goes on from turn to turn without nesting anything: all its turns make
their calls with the same number.  That it ends is another matter, and it does
because every part that is read leaves fewer lexemes.
-/

/-- Why there is no result: no further call may be nested, or a failure. -/
inductive Halt (Cause : Type) where
  | exhausted
  | failed (cause : Cause)
deriving DecidableEq

/-- An outcome of calls that need not have been enough. -/
abbrev Limited (Cause Result : Type) :=
  Except (Halt Cause) Result

/-- An outcome that needs no call. -/
def Limited.ofOutcome {Cause Result : Type} (outcome : Except Cause Result) :
    Limited Cause Result :=
  outcome.mapError .failed

/-- What has been read and the lexemes after it, of which fewer than `bound` are
left. -/
structure Parsed (Part : Type) (bound : Nat) where
  part : Part
  rest : List Lexeme
  fewer : rest.length < bound

namespace Parsed

variable {Part : Type} {bound wider : Nat}

/-- What has been read is among more lexemes. -/
def widen (parsed : Parsed Part bound) (le : bound ≤ wider) : Parsed Part wider :=
  ⟨parsed.part, parsed.rest, Nat.lt_of_lt_of_le parsed.fewer le⟩

theorem fewer_of_cons {parsed : Parsed Part bound} {next : Lexeme} {rest : List Lexeme}
    (after : parsed.rest = next :: rest) : rest.length < bound := by
  have fewer := parsed.fewer
  rw [after, List.length_cons] at fewer
  omega

end Parsed

/-- A way of reading one part off the front of some lexemes. -/
abbrev Rule (Part : Type) :=
  (ahead : List Lexeme) -> Limited SyntaxError (Parsed Part ahead.length)

namespace Descent

open Limited (ofOutcome)

/-- The loop over the operators of one category; the operands to the right are
read by `operand`, and each operator takes all before it as its left operand. -/
def chain (limit : Nat) (category : Category) (operand : Rule Subtree) (left : Subtree)
    (ahead : List Lexeme) : Limited SyntaxError (Parsed Subtree (ahead.length + 1)) :=
  match ahead with
  | ⟨.operator operator, position⟩ :: rest =>
      if operator.category = category then do
        let right ← operand rest
        let larger ← ofOutcome (Subtree.binary limit operator left right.part position)
        let whole ← chain limit category operand larger right.rest
        return whole.widen (Nat.le_succ_of_le (Nat.succ_le_succ (Nat.le_of_lt right.fewer)))
      else
        return ⟨left, ⟨.operator operator, position⟩ :: rest, Nat.lt_succ_self _⟩
  | ahead => return ⟨left, ahead, Nat.lt_succ_self _⟩
termination_by ahead.length
decreasing_by exact Nat.lt_succ_of_lt right.fewer

/-- The loop over the arguments of a call whose parenthesis opened at `opened`,
up to the closing one. -/
def arguments (opened : Nat) (argument : Rule Subtree) (reversed : List Subtree)
    (ahead : List Lexeme) : Limited SyntaxError (Parsed (List Subtree) ahead.length) := do
  let next ← argument ahead
  match after : next.rest with
  | ⟨.comma, _⟩ :: rest =>
      have fewer := Parsed.fewer_of_cons after
      let others ← arguments opened argument (next.part :: reversed) rest
      return others.widen (Nat.le_of_lt fewer)
  | ⟨.closeParen, _⟩ :: rest =>
      return ⟨(next.part :: reversed).reverse, rest, Parsed.fewer_of_cons after⟩
  | [] | ⟨.endOfInput, _⟩ :: _ => throw (.failed (.unclosedParen opened))
  | ⟨token, position⟩ :: _ => throw (.failed (.missingSeparator token position))
termination_by ahead.length

mutual

/-- `expression := additive` -/
def expression (calls : Nat) (nesting : Nesting) : Rule Subtree := fun ahead =>
  match calls with
  | 0 => throw .exhausted
  | calls + 1 => additive calls nesting ahead

/-- `additive := multiplicative (('+' | '-') multiplicative)*` -/
def additive (calls : Nat) (nesting : Nesting) : Rule Subtree := fun ahead =>
  match calls with
  | 0 => throw .exhausted
  | calls + 1 => do
      let first ← multiplicative calls nesting ahead
      let whole ←
        chain nesting.limit .expression (multiplicative calls nesting) first.part first.rest
      return whole.widen first.fewer

/-- `multiplicative := power (('*' | '/' | '%') power)*` -/
def multiplicative (calls : Nat) (nesting : Nesting) : Rule Subtree := fun ahead =>
  match calls with
  | 0 => throw .exhausted
  | calls + 1 => do
      let first ← power calls nesting ahead
      let whole ← chain nesting.limit .term (power calls nesting) first.part first.rest
      return whole.widen first.fewer

/-- `power := unary ('**' power)?` -/
def power (calls : Nat) (nesting : Nesting) : Rule Subtree := fun ahead =>
  match calls with
  | 0 => throw .exhausted
  | calls + 1 => do
      let base ← unary calls nesting ahead
      match after : base.rest with
      | ⟨.operator .power, position⟩ :: rest =>
          let inside ← ofOutcome (nesting.descend position)
          let exponent ← power calls inside rest
          let whole ← ofOutcome
            (Subtree.binary nesting.limit .power base.part exponent.part position)
          return ⟨whole, exponent.rest, Nat.lt_trans exponent.fewer (Parsed.fewer_of_cons after)⟩
      | _ => return base

/-- `unary := ('+' | '-') unary | primary` -/
def unary (calls : Nat) (nesting : Nesting) : Rule Subtree := fun ahead =>
  match calls with
  | 0 => throw .exhausted
  | calls + 1 =>
      match ahead with
      | ⟨.operator operator, position⟩ :: rest =>
          match Sign.ofOperator? operator with
          | some sign => do
              let inside ← ofOutcome (nesting.descend position)
              let operand ← unary calls inside rest
              let whole ← ofOutcome (Subtree.signed nesting.limit sign operand.part position)
              return ⟨whole, operand.rest, Nat.lt_succ_of_lt operand.fewer⟩
          | none => primary calls nesting (⟨.operator operator, position⟩ :: rest)
      | ahead => primary calls nesting ahead

/-- `primary := number | name call | '(' grouping` -/
def primary (calls : Nat) (nesting : Nesting) : Rule Subtree := fun ahead =>
  match calls with
  | 0 => throw .exhausted
  | calls + 1 =>
      match ahead with
      | ⟨.number value, _⟩ :: rest => return ⟨.literal value, rest, Nat.lt_succ_self _⟩
      | ⟨.openParen, opened⟩ :: rest => do
          return (← grouping calls nesting opened rest).widen (Nat.le_succ _)
      | ⟨.identifier name, position⟩ :: rest => do
          return (← call calls nesting name position rest).widen (Nat.le_succ _)
      | ⟨.endOfInput, position⟩ :: _ => throw (.failed (.unexpectedEnd position))
      | ⟨token, position⟩ :: _ => throw (.failed (.unexpectedToken token position))
      | [] => throw (.failed (.unexpectedEnd 0))

/-- `grouping := expression ')'`, where the opening parenthesis stands at
`opened`. -/
def grouping (calls : Nat) (nesting : Nesting) (opened : Nat) : Rule Subtree := fun ahead =>
  match calls with
  | 0 => throw .exhausted
  | calls + 1 => do
      let inside ← ofOutcome (nesting.descend opened)
      let inner ← expression calls inside ahead
      match after : inner.rest with
      | ⟨.closeParen, _⟩ :: rest =>
          return ⟨inner.part, rest, Parsed.fewer_of_cons after⟩
      | _ => throw (.failed (.unclosedParen opened))

/-- `call := '(' commaSeparated`, after a name that stands at `position`. -/
def call (calls : Nat) (nesting : Nesting) (name : String) (position : Nat) : Rule Subtree :=
  fun ahead =>
    match calls with
    | 0 => throw .exhausted
    | calls + 1 =>
        match ahead with
        | ⟨.openParen, opened⟩ :: rest => do
            let inside ← ofOutcome (nesting.descend opened)
            let several ← commaSeparated calls inside opened rest
            let whole ← ofOutcome (Subtree.call nesting.limit name several.part position)
            return ⟨whole, several.rest, Nat.lt_succ_of_lt several.fewer⟩
        | _ => throw (.failed (.bareIdentifier name position))

/-- `commaSeparated := [expression (',' expression)*] ')'` -/
def commaSeparated (calls : Nat) (nesting : Nesting) (opened : Nat) : Rule (List Subtree) :=
  fun ahead =>
    match calls with
    | 0 => throw .exhausted
    | calls + 1 =>
        match ahead with
        | ⟨.closeParen, _⟩ :: rest => return ⟨[], rest, Nat.lt_succ_self _⟩
        | ahead => arguments opened (expression calls nesting) [] ahead

end

/-- Reads the expression that some lexemes form. -/
def parse (calls limit : Nat) (lexemes : List Lexeme) : Limited SyntaxError Expr :=
  match calls with
  | 0 => throw .exhausted
  | calls + 1 =>
      match lexemes with
      | [] => throw (.failed (.emptyExpression 0))
      | ⟨.endOfInput, position⟩ :: _ => throw (.failed (.emptyExpression position))
      | first :: more => do
          let whole ← expression calls (.outermost limit) (first :: more)
          match whole.rest with
          | ⟨.endOfInput, _⟩ :: _ => return whole.part.expr
          | ⟨.closeParen, position⟩ :: _ => throw (.failed (.unmatchedParen position))
          | ⟨token, position⟩ :: _ => throw (.failed (.trailingTokens token position))
          | [] => throw (.failed (.unexpectedEnd
              ((first :: more).getLast (List.cons_ne_nil _ _)).position))

end Descent

namespace Expr

mutual

/-- The value of a tree whose root is at `level`. -/
def evaluateNested (calls limit level : Nat) (tree : Expr) : Limited EvaluationError Float :=
  match calls with
  | 0 => throw .exhausted
  | calls + 1 =>
      if limit < level then
        throw (.failed (.tooDeep limit))
      else
        match tree with
        | .literal value => return value
        | .signed sign operand => do
            let value ← evaluateNested calls limit (level + 1) operand
            Limited.ofOutcome (sign.evaluate value)
        | .binary operator left right => do
            let leftValue ← evaluateNested calls limit (level + 1) left
            let rightValue ← evaluateNested calls limit (level + 1) right
            Limited.ofOutcome (operator.apply leftValue rightValue)
        | .call name arguments => do
            let values ← evaluateAllNested calls limit (level + 1) arguments
            Limited.ofOutcome (Function.callByName name values)

/-- The values of several trees whose roots are at `level`, one after the other. -/
def evaluateAllNested (calls limit level : Nat) :
    List Expr -> Limited EvaluationError (List Float)
  | [] => return []
  | argument :: arguments => do
      let value ← evaluateNested calls limit level argument
      return value :: (← evaluateAllNested calls limit level arguments)

end

end Expr

end DeskCalculator

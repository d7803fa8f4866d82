import DeskCalculator.Expr.Surroundings

namespace DeskCalculator

/-!
# Reading an expression

The reader goes over the lexemes once, from left to right, and keeps what
surrounds the place that it has reached.  An operand fills the pending
constructs before it as soon as the next lexeme shows that nothing binds it
more strongly: a sign is always filled first, an operator is if it yields to
the operator that follows, and everything pending is filled before a
delimiter.  The grammar this amounts to is

* `expression := term (('+' | '-') term)*`
* `term := power (('*' | '/' | '%') power)*`
* `power := unary ('**' power)?`
* `unary := ('+' | '-') unary | primary`
* `primary := number | name '(' [expression (',' expression)*] ')' | '(' expression ')'`

Neither the level of a place nor the height of a tree may exceed the limit.
What surrounds a place grows only with its level, never with the length of the
input.
-/

/-- What may come next at a place, and what surrounds it. -/
inductive Reading where
  | beforeOperand (around : Surroundings)
  | afterName (callee : Callee) (around : Surroundings)
  | beforeArguments (callee : Callee) (opened : Nat) (around : Surroundings)
  | afterOperand (operand : Subtree) (around : Surroundings)

namespace Reading

/-- The place before all lexemes. -/
def start : Reading :=
  beforeOperand .outermost

/-- Waits for the last operand of one more construct, which must not nest too
deeply. -/
def await (limit : Nat) (around : Surroundings) (pending : Pending) :
    Except SyntaxError Reading :=
  if pending.nests then do
    let _ ← (around.nesting limit).descend pending.position
    return beforeOperand (around.hold pending)
  else
    return beforeOperand (around.hold pending)

/-- A token where an operand has to start. -/
def readOperand (limit : Nat) (around : Surroundings) (token : Token) (position : Nat) :
    Except SyntaxError Reading :=
  match token with
  | .number value => return afterOperand (.literal value) around
  | .identifier name => return afterName ⟨name, position⟩ around
  | .openParen => do
      let _ ← (around.nesting limit).descend position
      return beforeOperand (around.enclose (.group position))
  | .operator operator =>
      match Sign.ofOperator? operator with
      | some sign => await limit around (.signed sign position)
      | none => throw (.unexpectedToken token position)
  | _ => throw (.unexpectedToken token position)

/-- The opening parenthesis of an argument list. -/
def openArguments (limit : Nat) (callee : Callee) (around : Surroundings) (opened : Nat) :
    Except SyntaxError Reading := do
  let _ ← (around.nesting limit).descend opened
  return beforeArguments callee opened around

/-- The closing parenthesis of an argument list. -/
def closeArguments (limit : Nat) (callee : Callee) (arguments : List Subtree)
    (around : Surroundings) : Except SyntaxError Reading := do
  return afterOperand (← Subtree.call limit callee.name arguments callee.position) around

/-- An operator after an operand.  Everything pending that yields to the
operator becomes its left operand, and the rest stays pending. -/
def readOperator (limit : Nat) (left : Subtree) (around : Surroundings) (operator : Operator)
    (position : Nat) : Except SyntaxError Reading := do
  let larger ← Pending.fillAll limit left (around.pending.takeWhile (Pending.yieldsTo operator))
  let outside := { around with pending := around.pending.dropWhile (Pending.yieldsTo operator) }
  await limit outside (.binary operator larger position)

/-- A token that ends an expression, or should: what is enclosed is complete,
and the token closes the enclosure, goes on to its next argument, or is out of
place. -/
def readDelimiter (limit : Nat) (whole : Subtree) (enclosures : List (Enclosure × List Pending))
    (token : Token) (position : Nat) : Except SyntaxError Reading :=
  match enclosures, token with
  | [], .closeParen => throw (.unmatchedParen position)
  | [], _ => throw (.trailingTokens token position)
  | (.group _, pending) :: outer, .closeParen => return afterOperand whole ⟨pending, outer⟩
  | (.group opened, _) :: _, _ => throw (.unclosedParen opened)
  | (.call callee _ reversed, pending) :: outer, .closeParen =>
      closeArguments limit callee (whole :: reversed).reverse ⟨pending, outer⟩
  | (.call callee opened reversed, pending) :: outer, .comma =>
      return beforeOperand ⟨[], (.call callee opened (whole :: reversed), pending) :: outer⟩
  | (.call _ _ _, _) :: _, _ => throw (.missingSeparator token position)

/-- Goes on over one token other than the end of the input. -/
def step (limit : Nat) (reading : Reading) (token : Token) (position : Nat) :
    Except SyntaxError Reading :=
  match reading with
  | beforeOperand around => readOperand limit around token position
  | afterName callee around =>
      match token with
      | .openParen => openArguments limit callee around position
      | _ => throw (.bareIdentifier callee.name callee.position)
  | beforeArguments callee opened around =>
      match token with
      | .closeParen => closeArguments limit callee [] around
      | _ => readOperand limit (around.enclose (.call callee opened [])) token position
  | afterOperand operand around =>
      match token with
      | .operator operator => readOperator limit operand around operator position
      | _ => do
          let whole ← Pending.fillAll limit operand around.pending
          readDelimiter limit whole around.enclosures token position

/-- Ends the reading at `position`: there must be a complete expression that
nothing encloses. -/
def conclude (limit : Nat) (reading : Reading) (position : Nat) : Except SyntaxError Expr :=
  match reading with
  | beforeOperand _ | beforeArguments _ _ _ => throw (.unexpectedEnd position)
  | afterName callee _ => throw (.bareIdentifier callee.name callee.position)
  | afterOperand operand around => do
      let whole ← Pending.fillAll limit operand around.pending
      match around.enclosures with
      | [] => return whole.expr
      | (enclosure, _) :: _ => throw (.unclosedParen enclosure.opened)

/-- Goes on over all lexemes up to the end of the input.  Where the end is
missing, nothing says where the input ends: an operand that is still due is
missed at the start, and the end itself after the last lexeme. -/
def run (limit : Nat) (reading : Reading) (last : Nat) : List Lexeme -> Except SyntaxError Expr
  | [] => do
      let _ ← reading.conclude limit 0
      throw (.unexpectedEnd last)
  | ⟨.endOfInput, position⟩ :: _ => reading.conclude limit position
  | ⟨token, position⟩ :: rest => do
      run limit (← reading.step limit token position) position rest

end Reading

/-- Reads the expression that some lexemes form, up to the first end of input
among them. -/
def Expr.ofLexemes (limit : Nat) : List Lexeme -> Except SyntaxError Expr
  | [] => throw (.emptyExpression 0)
  | ⟨.endOfInput, position⟩ :: _ => throw (.emptyExpression position)
  | lexemes => Reading.start.run limit 0 lexemes

end DeskCalculator

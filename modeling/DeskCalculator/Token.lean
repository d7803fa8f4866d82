import DeskCalculator.Display
import DeskCalculator.Operator

namespace DeskCalculator

/-!
# Tokens

A token is the smallest piece of an expression that has a meaning of its own.
The same token stands for an operator and for the sign written like it; which
of the two it is depends on where it stands.  A lexeme is a token with the
place where it starts, counted in bytes of the text.
-/

/-- A piece of an expression. -/
inductive Token where
  | number (value : Float)
  | identifier (name : String)
  | operator (op : Operator)
  | openParen
  | closeParen
  | comma
  | endOfInput
deriving DecidableEq

namespace Token

/-- How messages refer to the token. -/
def text : Token -> String
  | number value => plainText value
  | identifier name => "'" ++ name ++ "'"
  | .operator op => "'" ++ op.symbol ++ "'"
  | openParen => "'('"
  | closeParen => "')'"
  | comma => "','"
  | endOfInput => "end of input"

/-- The operator that the token can stand for between two operands. -/
def operator? : Token -> Option Operator
  | .operator op => some op
  | _ => none

end Token

/-- A token together with the byte offset at which it starts. -/
structure Lexeme where
  token : Token
  position : Nat
deriving DecidableEq

end DeskCalculator

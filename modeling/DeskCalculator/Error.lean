import DeskCalculator.Arity
import DeskCalculator.Token

namespace DeskCalculator

/-!
# Errors

Each stage fails for causes of its own: the lexer for characters and literals,
the reader of expressions for tokens, the evaluation for values.  A cause
carries what its message names.  Positions are byte offsets in the respelled
text, and only the first two stages have them.
-/

/-- Why a text does not split into tokens. -/
inductive LexicalError where
  | unexpectedCharacter (character : Char) (position : Nat)
  | invalidNumber (literal : String) (position : Nat)
deriving Repr, DecidableEq

/-- Why tokens do not form an expression. -/
inductive SyntaxError where
  | emptyExpression (position : Nat)
  | unexpectedToken (found : Token) (position : Nat)
  | missingSeparator (found : Token) (position : Nat)
  | unexpectedEnd (position : Nat)
  | unclosedParen (position : Nat)
  | unmatchedParen (position : Nat)
  | trailingTokens (first : Token) (position : Nat)
  | bareIdentifier (name : String) (position : Nat)
  | tooDeep (limit : Nat) (position : Nat)
deriving DecidableEq

/-- Why an expression has no value. -/
inductive EvaluationError where
  | unsupportedOperator (symbol : String)
  | unsupportedFunction (name : String)
  | argumentCount (name : String) (expected : Arity) (found : Nat)
  | divisionByZero
  | domain (details : String)
  | tooDeep (limit : Nat)
deriving Repr, DecidableEq

/-- Why a calculation failed, at whichever stage. -/
inductive CalculationError where
  | lexical (error : LexicalError)
  | syntactic (error : SyntaxError)
  | evaluation (error : EvaluationError)
deriving DecidableEq

/-- A message about a place in the text. -/
def messageAt (position : Nat) (message : String) : String :=
  "Error at position " ++ toString position ++ ": " ++ message

/-- The message about trees and texts that nest too deeply. -/
def depthMessage (limit : Nat) : String :=
  "Expression nests deeper than the limit of " ++ toString limit ++ "."

namespace LexicalError

/-- Where the lexer could not go on. -/
def position : LexicalError -> Nat
  | unexpectedCharacter _ position | invalidNumber _ position => position

/-- What is wrong, in words. -/
def message : LexicalError -> String
  | unexpectedCharacter character position =>
      messageAt position ("Unexpected character '" ++ character.toString ++ "'.")
  | invalidNumber literal position => messageAt position ("Invalid number '" ++ literal ++ "'.")

end LexicalError

namespace SyntaxError

/-- The place the error refers to. -/
def position : SyntaxError -> Nat
  | emptyExpression position | unexpectedToken _ position | missingSeparator _ position
  | unexpectedEnd position | unclosedParen position | unmatchedParen position
  | trailingTokens _ position | bareIdentifier _ position | tooDeep _ position => position

/-- What is wrong, without the place. -/
def details : SyntaxError -> String
  | emptyExpression _ => "Empty expression."
  | unexpectedToken found _ => "Unexpected token: " ++ found.text ++ "."
  | missingSeparator found _ =>
      "Unexpected token: expected ',' or ')', found " ++ found.text ++ "."
  | unexpectedEnd _ => "Unexpected end of input."
  | unclosedParen _ => "Expected closing parenthesis ')' for the '(' opened here."
  | unmatchedParen _ => "Closing parenthesis ')' without a matching '('."
  | trailingTokens first _ => "Extra tokens after expression, starting at " ++ first.text ++ "."
  | bareIdentifier name _ =>
      "'" ++ name ++ "' is not a value. Only function calls such as " ++ name ++
        "(...) are allowed."
  | tooDeep limit _ => depthMessage limit

/-- What is wrong and where, in words. -/
def message (error : SyntaxError) : String :=
  messageAt error.position error.details

end SyntaxError

namespace EvaluationError

/-- The kind of the error, as results and listings name it. -/
def kind : EvaluationError -> String
  | unsupportedOperator _ => "UnsupportedOperator"
  | unsupportedFunction _ => "UnsupportedFunction"
  | argumentCount _ _ _ => "InvalidArgumentCount"
  | divisionByZero => "DivisionByZero"
  | domain _ => "DomainError"
  | tooDeep _ => "EvaluationTooDeep"

/-- What is wrong, in words. -/
def message : EvaluationError -> String
  | unsupportedOperator symbol => "Operator '" ++ symbol ++ "' is not supported."
  | unsupportedFunction name => "Function '" ++ name ++ "' is not supported."
  | argumentCount name expected found =>
      "Function '" ++ name ++ "' expects " ++ expected.text ++ " argument(s), but " ++
        toString found ++ " were given."
  | divisionByZero => "Division by zero."
  | domain details => "Math domain error: " ++ details ++ "."
  | tooDeep limit => depthMessage limit

end EvaluationError

namespace CalculationError

/-- The kind of the error, as results and listings name it. -/
def kind : CalculationError -> String
  | lexical _ => "LexError"
  | syntactic _ => "ParseError"
  | evaluation error => error.kind

/-- What is wrong, in words. -/
def message : CalculationError -> String
  | lexical error => error.message
  | syntactic error => error.message
  | evaluation error => error.message

/-- The place the error refers to, if it refers to the text. -/
def position? : CalculationError -> Option Nat
  | lexical error => some error.position
  | syntactic error => some error.position
  | evaluation _ => none

end CalculationError

end DeskCalculator

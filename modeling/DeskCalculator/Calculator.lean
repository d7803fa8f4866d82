import DeskCalculator.Expr.Evaluation
import DeskCalculator.Expr.Reading
import DeskCalculator.Glyph
import DeskCalculator.Token.Lexer

namespace DeskCalculator

/-!
# Calculators

A calculator turns a text into a value: it respells the glyphs, splits the
text into lexemes, reads the expression and evaluates it.  Its only setting is
the limit on nesting, which reading and evaluation share.
-/

/-- A calculator with its limit on nesting. -/
structure Calculator where
  maxDepth : Nat
deriving Repr, DecidableEq

namespace Calculator

/-- The limit on nesting where none is set. -/
def defaultMaxDepth : Nat := 128

/-- The largest limit on nesting that can be set. -/
def largestMaxDepth : Nat := 256

/-- The calculator where nothing is set. -/
def standard : Calculator :=
  ⟨defaultMaxDepth⟩

/-- The calculator whose limit is the allowed one closest to `depth`. -/
def withMaxDepth (depth : Nat) : Calculator :=
  ⟨max 1 (min depth largestMaxDepth)⟩

/-- Splits a text into lexemes, glyphs included. -/
def lexemes (text : String) : Except CalculationError (List Lexeme) :=
  (tokenize (normalize text)).mapError .lexical

/-- The expression that a text is. -/
def parse (calculator : Calculator) (text : String) : Except CalculationError Expr := do
  (Expr.ofLexemes calculator.maxDepth (← lexemes text)).mapError .syntactic

/-- The value of a tree. -/
def evaluateTree [Elementary] (calculator : Calculator) (tree : Expr) :
    Except CalculationError Float :=
  (tree.evaluate calculator.maxDepth).mapError .evaluation

/-- The value of a text. -/
def evaluate [Elementary] (calculator : Calculator) (text : String) :
    Except CalculationError Float := do
  calculator.evaluateTree (← calculator.parse text)

end Calculator

end DeskCalculator

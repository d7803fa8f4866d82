import DeskCalculator.Calculator
import DeskCalculator.CommandLine
import DeskCalculator.Display
import DeskCalculator.Expr.Text
import DeskCalculator.Main
import DeskCalculator.Preview
import DeskCalculator.Proofs.Grammar
import DeskCalculator.Proofs.Grammar.Soundness
import DeskCalculator.Proofs.Grammar.Completeness
import DeskCalculator.Proofs.Grammar.Acceptance
import DeskCalculator.Proofs.Evaluation
import DeskCalculator.Proofs.Failures
import DeskCalculator.Proofs.Lexemes
import DeskCalculator.Proofs.Parsing
import DeskCalculator.Proofs.Sandbox
import DeskCalculator.Proofs.Depth
import DeskCalculator.Proofs.Binary64
import DeskCalculator.Proofs.Floats
import DeskCalculator.Proofs.Printing
import DeskCalculator.Proofs.Definedness
import DeskCalculator.Proofs.Endings
import DeskCalculator.Proofs.LargerLimit
import DeskCalculator.Proofs.Overflow
import DeskCalculator.Proofs.Beginnings
import DeskCalculator.Proofs.Typing
import DeskCalculator.Proofs.StackMachine
import DeskCalculator.Proofs.MaximalMunch
import DeskCalculator.Proofs.ErrorPlaces
import DeskCalculator.Proofs.Relocation
import DeskCalculator.Proofs.WhiteSpace
import DeskCalculator.Proofs.PreviewAgreement
import DeskCalculator.Proofs.Spacing
import DeskCalculator.Proofs.Descent
import DeskCalculator.Proofs.NestedCalls
import DeskCalculator.Proofs.Denotation
import DeskCalculator.Proofs.IntegerArithmetic
import DeskCalculator.Proofs.Nearest
import DeskCalculator.Proofs.Retyping
import DeskCalculator.Proofs.GlyphTokens
import DeskCalculator.Proofs.Respelling
import DeskCalculator.Proofs.FileLines
import DeskCalculator.Proofs.ViablePrefix
import DeskCalculator.Proofs.Parentheses
import DeskCalculator.Proofs.FlooredRemainder
import DeskCalculator.Proofs.DisplayedNumbers
import DeskCalculator.Proofs.UndefinedResults
import DeskCalculator.Proofs.FailureClasses
import DeskCalculator.Proofs.Paths
import DeskCalculator.Proofs.StoppingPlaces
import DeskCalculator.Proofs.TreeAssembly

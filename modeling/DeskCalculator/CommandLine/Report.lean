import DeskCalculator.Preview

namespace DeskCalculator
namespace CommandLine

/-!
# What the command prints

A report is what has been printed to the standard output and to the standard
error, line by line.  A command has failed exactly if it reported an error.
Reports are put together by appending, so that what is printed for several
lines is what is printed for each of them.
-/

/-- The lines printed to the standard output and to the standard error. -/
structure Report where
  output : List String
  errors : List String
deriving Repr, DecidableEq

namespace Report

/-- Nothing printed. -/
def empty : Report :=
  ⟨[], []⟩

/-- One line on the standard output. -/
def line (text : String) : Report :=
  ⟨[text], []⟩

/-- One line on the standard error. -/
def failure (text : String) : Report :=
  ⟨[], [text]⟩

instance : Append Report :=
  ⟨fun earlier later => ⟨earlier.output ++ later.output, earlier.errors ++ later.errors⟩⟩

/-- Several reports, one after the other. -/
def concat (reports : List Report) : Report :=
  reports.foldr (· ++ ·) empty

/-- Whether an error was reported. -/
def failed (report : Report) : Bool :=
  !report.errors.isEmpty

/-- The exit code of a command with this report. -/
def exitCode (report : Report) : Nat :=
  if report.failed then 1 else 0

/-- Lines as a text, each with a line feed at its end. -/
def linesText (lines : List String) : String :=
  String.join (lines.map fun line => line ++ "\n")

/-- The text on the standard output. -/
def outputText (report : Report) : String :=
  linesText report.output

/-- The text on the standard error. -/
def errorText (report : Report) : String :=
  linesText report.errors

end Report

/-- The column at which previews start, less the space before them. -/
def typedWidth : Nat := 32

/-- A text with spaces at its end up to the width of a column. -/
def padRight (width : Nat) (text : String) : String :=
  text ++ String.ofList (List.replicate (width - text.length) ' ')

/-- The value of an expression, or the error. -/
def valueReport (calculator : Calculator) (text : String) : Report :=
  match calculator.evaluate text with
  | .ok value => .line (displayText value)
  | .error error => .failure (error.kind ++ ": " ++ error.message)

/-- What a display shows while an expression is typed, one line for each
character. -/
def previewReport (calculator : Calculator) (text : String) : Report :=
  .concat ((Preview.typing calculator text).map fun (typed, preview) =>
    .line (padRight typedWidth typed ++ " " ++ preview.text))

/-- The report on one expression. -/
def expressionReport (calculator : Calculator) (preview : Bool) (text : String) : Report :=
  if preview then previewReport calculator text else valueReport calculator text

/-- The report on a file with one expression in each line.  Blank lines do not
count. -/
def fileReport (calculator : Calculator) (preview : Bool) (contents : String) : Report :=
  .concat ((trimmedLines contents).map (expressionReport calculator preview))

/-- The functions that may be called, with their arities. -/
def functionsReport : Report :=
  .concat (Function.table.map fun function =>
    .line (function.name ++ ": " ++ function.arity.text ++ " argument(s)"))

end CommandLine
end DeskCalculator

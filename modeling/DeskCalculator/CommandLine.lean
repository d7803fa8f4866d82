import DeskCalculator.CommandLine.Arguments
import DeskCalculator.CommandLine.Report

namespace DeskCalculator
namespace CommandLine

/-!
# The command

`plan` decides from the arguments and the environment what the command does.
The only thing left to the outside is to read a file; what is printed then is
a function of its contents, or of the reason why it could not be read.
-/

/-- The name of the command and its version. -/
def versionText : String := "safecalc 0.1.0"

/-- The environment variable that sets the nesting limit. -/
def depthVariable : String := "SAFECALC_MAX_DEPTH"

/-- The exit code of a command that was given wrongly. -/
def usageExitCode : Nat := 2

/-- How the command is used. -/
def helpLines : List String :=
  ["Usage: safecalc [OPTIONS] [CONTENTS]",
   "",
   "Arguments:",
   "  [CONTENTS]  The expression, or with --file the path of a file of expressions",
   "",
   "Options:",
   "  -f, --file           Evaluate each line of a file",
   "  -p, --preview        Show the live preview after each character",
   "      --functions      List the functions that may be called",
   "      --max-depth <N>  Set the limit on nesting, from 1 to 256",
   "  -h, --help           Print help",
   "  -V, --version        Print version"]

/-- What a command does. -/
inductive Plan where
  | refuse (error : UsageError)
  | print (report : Report)
  | fromFile (path : String) (report : Except String String -> Report)

/-- The report on a file that may not have been read. -/
def readReport (calculator : Calculator) (preview : Bool) (path : String) :
    Except String String -> Report
  | .ok contents => fileReport calculator preview contents
  | .error reason => .failure ("Failed to read the input file '" ++ path ++ "': " ++ reason)

/-- What a command does that has been given with these options.  Listing the
functions goes before everything else, and there must be a text for the rest. -/
def Options.plan (options : Options) : Plan :=
  if options.flags.contains .functions then
    .print functionsReport
  else
    match options.text? with
    | none => .print (.failure "No expression given.")
    | some text =>
        let calculator := match options.maxDepth? with
          | some depth => Calculator.withMaxDepth depth
          | none => Calculator.standard
        let preview := options.flags.contains .preview
        if options.flags.contains .file then
          .fromFile text (readReport calculator preview text)
        else
          .print (expressionReport calculator preview text)

/-- What a command does, given its arguments and the depth set in the
environment. -/
def plan (arguments : List String) (environmentDepth : Option String) : Plan :=
  match readArguments arguments environmentDepth with
  | .ok options => options.plan
  | .error .version => .print (.line versionText)
  | .error .help => .print ⟨helpLines, []⟩
  | .error (.misuse error) => .refuse error

end CommandLine
end DeskCalculator

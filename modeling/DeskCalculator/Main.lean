import DeskCalculator.CommandLine

namespace DeskCalculator

/-!
# The program

Carries out the plan of the command: reads the arguments, the environment and
at most one file, and prints.
-/

/-- A failure of the system in its own words, with its number. -/
def systemReason (code : UInt32) (details : String) : String :=
  details ++ " (os error " ++ toString code.toNat ++ ")"

/-- Why a file could not be read. -/
def readFailure : IO.Error -> String
  | .noFileOrDirectory _ code details => systemReason code details
  | .permissionDenied _ code details => systemReason code details
  | .inappropriateType _ code details => systemReason code details
  | .invalidArgument _ code details => systemReason code details
  | .resourceExhausted _ code details => systemReason code details
  | .hardwareFault code details => systemReason code details
  | .otherError code details => systemReason code details
  | error => error.toString

/-- The text of a file, or why there is none. -/
def readText (path : String) : IO (Except String String) := do
  try
    let handle ← IO.FS.Handle.mk path .read
    let bytes ← handle.readBinToEnd
    match String.fromUTF8? bytes with
    | some text => return .ok text
    | none => return .error "stream did not contain valid UTF-8"
  catch error =>
    return .error (readFailure error)

/-- Prints a report and returns the exit code that goes with it. -/
def printReport (report : CommandLine.Report) : IO UInt32 := do
  IO.print report.outputText
  IO.eprint report.errorText
  return report.exitCode.toUInt32

end DeskCalculator

open DeskCalculator in
/-- Runs the command. -/
def main (arguments : List String) : IO UInt32 := do
  let depth ← IO.getEnv CommandLine.depthVariable
  match CommandLine.plan arguments depth with
  | .refuse error =>
      IO.eprintln ("error: " ++ error.message)
      return CommandLine.usageExitCode.toUInt32
  | .print report => printReport report
  | .fromFile path report => do
      printReport (report (← readText path))

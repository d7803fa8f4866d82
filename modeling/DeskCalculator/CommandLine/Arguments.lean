import DeskCalculator.Calculator

namespace DeskCalculator
namespace CommandLine

/-!
# Arguments of the command

The command takes flags, one option with a value, and one text.  Flags and
options may stand before or after the text, short flags may be joined, and
everything after `--` is text.  Arguments are read one after the other, and
the first one that is wrong, or that asks for the version or for help, decides
the outcome.  Only then the rest is checked: there must be a text unless the
functions are to be listed, and a depth set in the environment counts where no
option sets one.

What is said about a depth that is refused is laid down here.  The other words
about a misuse are free, as those of the help are: nothing depends on them but
who reads them.
-/

/-- A switch without a value. -/
inductive Flag where
  | file
  | preview
  | functions
deriving Repr, DecidableEq

/-- The word for a flag after two dashes. -/
def Flag.ofWord? : String -> Option Flag
  | "file" => some .file
  | "preview" => some .preview
  | "functions" => some .functions
  | _ => none

/-- The letter for a flag after one dash. -/
def Flag.ofLetter? : Char -> Option Flag
  | 'f' => some .file
  | 'p' => some .preview
  | _ => none

/-- Why a text is not the number of something. -/
inductive NumberError where
  | empty
  | invalidDigit
  | tooLarge
deriving Repr, DecidableEq

/-- What is wrong with the number, in words. -/
def NumberError.message : NumberError -> String
  | empty => "cannot parse integer from empty string"
  | invalidDigit => "invalid digit found in string"
  | tooLarge => "number too large to fit in target type"

/-- Why a value is not a nesting limit. -/
inductive DepthError where
  | notNumber (value : String) (error : NumberError)
  | outOfRange
deriving Repr, DecidableEq

/-- What is wrong with the nesting limit, in words. -/
def DepthError.message : DepthError -> String
  | notNumber value error => "'" ++ value ++ "' is not a depth: " ++ error.message
  | outOfRange => "depth must be between 1 and " ++ toString Calculator.largestMaxDepth

/-- Why a command cannot be carried out as it was given. -/
inductive UsageError where
  | unknownOption (option : String)
  | unexpectedValue (option : String)
  | repeatedOption (option : String)
  | missingValue (option : String)
  | invalidDepth (value : String) (error : DepthError)
  | secondText (text : String)
  | missingText
deriving Repr, DecidableEq

/-- What is wrong with the command, in words. -/
def UsageError.message : UsageError -> String
  | unknownOption option => "unknown option '" ++ option ++ "'"
  | unexpectedValue option => "option '" ++ option ++ "' takes no value"
  | repeatedOption option => "option '" ++ option ++ "' was given twice"
  | missingValue option => "option '" ++ option ++ "' needs a value"
  | invalidDepth value error => "invalid value '" ++ value ++ "': " ++ error.message
  | secondText text => "unexpected argument '" ++ text ++ "'"
  | missingText => "no expression given"

/-- What a command asks for. -/
structure Options where
  flags : List Flag
  maxDepth? : Option Nat
  text? : Option String
deriving Repr, DecidableEq

/-- What ends the reading of arguments before the last one. -/
inductive Interruption where
  | version
  | help
  | misuse (error : UsageError)
deriving Repr, DecidableEq

/-- How far the arguments have been read: the options so far, whether the
last argument waits for a depth, and whether `--` has been passed. -/
structure Progress where
  options : Options
  awaitsDepth : Bool
  optionsEnded : Bool

/-- Before all arguments. -/
def Progress.start : Progress :=
  ⟨⟨[], none, none⟩, false, false⟩

/-- The largest number of anything that is counted. -/
def largestSize : Nat := UInt64.size - 1

/-- Goes on with a number by one more digit. -/
def readDigit (number : Nat) (digit : Char) : Except NumberError Nat :=
  let longer := 10 * number + (digit.toNat - '0'.toNat)
  if !digit.isDigit then throw .invalidDigit
  else if largestSize < longer then throw .tooLarge
  else return longer

/-- Reads a number: decimal digits, perhaps after a plus sign. -/
def readNumber (value : String) : Except NumberError Nat :=
  match value.toList with
  | [] => throw .empty
  | ['+'] => throw .invalidDigit
  | '+' :: digits => digits.foldlM readDigit 0
  | digits => digits.foldlM readDigit 0

/-- Reads a nesting limit, which must be a number that is allowed. -/
def readDepth (value : String) : Except UsageError Nat := do
  let depth ← (readNumber value).mapError fun error => .invalidDepth value (.notNumber value error)
  if depth < 1 || Calculator.largestMaxDepth < depth then
    throw (.invalidDepth value .outOfRange)
  return depth

/-- Turns on a flag, which may be given only once. -/
def Progress.addFlag (progress : Progress) (flag : Flag) (option : String) :
    Except Interruption Progress :=
  if progress.options.flags.contains flag then
    throw (.misuse (.repeatedOption option))
  else
    return { progress with
      options := { progress.options with flags := progress.options.flags ++ [flag] } }

/-- Sets the nesting limit, which may be given only once. -/
def Progress.addDepth (progress : Progress) (value : String) : Except Interruption Progress := do
  if progress.options.maxDepth?.isSome then
    throw (.misuse (.repeatedOption "--max-depth"))
  let depth ← (readDepth value).mapError .misuse
  return { progress with
    options := { progress.options with maxDepth? := some depth }, awaitsDepth := false }

/-- Takes an argument as the text, of which there is only one. -/
def Progress.addText (progress : Progress) (text : String) : Except Interruption Progress :=
  if progress.options.text?.isSome then
    throw (.misuse (.secondText text))
  else
    return { progress with options := { progress.options with text? := some text } }

/-- Reads the word after two dashes.  A value may follow it after an equals
sign. -/
def Progress.readWord (progress : Progress) (characters : List Char) :
    Except Interruption Progress :=
  let word := String.ofList (characters.takeWhile (· != '='))
  let option := "--" ++ word
  match word, characters.dropWhile (· != '=') with
  | "max-depth", [] => return { progress with awaitsDepth := true }
  | "max-depth", _ :: value => progress.addDepth (String.ofList value)
  | "version", [] => throw .version
  | "help", [] => throw .help
  | _, value =>
      match Flag.ofWord? word with
      | some flag =>
          if value.isEmpty then progress.addFlag flag option
          else throw (.misuse (.unexpectedValue option))
      | none => throw (.misuse (.unknownOption option))

/-- Reads a letter after one dash. -/
def Progress.readLetter (progress : Progress) (letter : Char) : Except Interruption Progress :=
  let option := String.ofList ['-', letter]
  match letter with
  | 'V' => throw .version
  | 'h' => throw .help
  | _ =>
      match Flag.ofLetter? letter with
      | some flag => progress.addFlag flag option
      | none => throw (.misuse (.unknownOption option))

/-- Reads one argument.  An option cannot be the value of another; a single
dash is no option. -/
def Progress.readArgument (progress : Progress) (argument : String) :
    Except Interruption Progress :=
  if progress.optionsEnded then
    progress.addText argument
  else
    match argument.toList with
    | '-' :: character :: characters =>
        if progress.awaitsDepth then
          throw (.misuse (.missingValue "--max-depth"))
        else if character = '-' then
          if characters.isEmpty then return { progress with optionsEnded := true }
          else progress.readWord characters
        else
          (character :: characters).foldlM Progress.readLetter progress
    | _ =>
        if progress.awaitsDepth then progress.addDepth argument
        else progress.addText argument

/-- Reads all arguments.  The depth set in the environment is looked at only
where no option sets one. -/
def readArguments (arguments : List String) (environmentDepth : Option String) :
    Except Interruption Options := do
  let progress ← arguments.foldlM Progress.readArgument .start
  if progress.awaitsDepth then
    throw (.misuse (.missingValue "--max-depth"))
  let options ← match progress.options.maxDepth?, environmentDepth with
    | none, some value => do
        let depth ← (readDepth value).mapError .misuse
        pure { progress.options with maxDepth? := some depth }
    | _, _ => pure progress.options
  if options.text?.isNone && !options.flags.contains .functions then
    throw (.misuse .missingText)
  return options

end CommandLine
end DeskCalculator

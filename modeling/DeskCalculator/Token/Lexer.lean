import DeskCalculator.Error

namespace DeskCalculator

/-!
# Splitting a text into tokens

The lexer takes the longest lexeme at each place and skips blanks between
lexemes.  `Recognition.ofChars` decides from the characters ahead which token
starts there and how many characters it has; `scan` walks over the text once,
recognizing a token at each place that is not inside the one before.  Letters
and digits are those of ASCII; any other character is refused.  Positions
count bytes of UTF-8.
-/

/-- Blanks between lexemes: space, tab, line feed, carriage return and form
feed. -/
def isBlank (character : Char) : Bool :=
  character == ' ' || character == '\t' || character == '\n' || character == '\r' ||
    character == '\x0c'

/-- What starts at a place in the text.  The count is that of the characters
after the first. -/
inductive Recognition where
  | lexeme (token : Token) (more : Nat)
  | unreadable (literal : List Char)
  | unexpected

namespace Recognition

/-- A number, provided that it is within the range of floats. -/
def ofNumeral (numeral : Numeral) (literal : List Char) : Recognition :=
  if numeral.toFloat.isFinite then .lexeme (.number numeral.toFloat) (literal.length - 1)
  else .unreadable literal

/-- A number that starts with a digit; the point needs no digits after it. -/
def ofDigits (characters : List Char) : Recognition :=
  let whole := characters.takeWhile Char.isDigit
  match characters.dropWhile Char.isDigit with
  | '.' :: rest =>
      let fraction := rest.takeWhile Char.isDigit
      ofNumeral (Numeral.ofDigitChars whole fraction) (whole ++ '.' :: fraction)
  | _ => ofNumeral (Numeral.ofDigitChars whole []) whole

/-- A number that starts with its point, given what follows the point; a point
without a digit after it is nothing. -/
def ofPoint (rest : List Char) : Recognition :=
  let fraction := rest.takeWhile Char.isDigit
  if fraction.isEmpty then .unexpected
  else ofNumeral (Numeral.ofDigitChars [] fraction) ('.' :: fraction)

/-- A name: the run of letters at this place. -/
def ofLetters (characters : List Char) : Recognition :=
  let name := characters.takeWhile Char.isAlpha
  .lexeme (.identifier (String.ofList name)) (name.length - 1)

/-- The token that a single character is, if it is one. -/
def symbol? : Char -> Option Token
  | '+' => some (.operator .add)
  | '-' => some (.operator .subtract)
  | '*' => some (.operator .multiply)
  | '/' => some (.operator .divide)
  | '%' => some (.operator .modulo)
  | '(' => some .openParen
  | ')' => some .closeParen
  | ',' => some .comma
  | _ => none

/-- The longest lexeme at the start of some characters. -/
def ofChars : List Char -> Recognition
  | [] => .unexpected
  | '*' :: '*' :: _ => .lexeme (.operator .power) 1
  | first :: rest =>
      match symbol? first with
      | some token => .lexeme token 0
      | none =>
          if first.isDigit then ofDigits (first :: rest)
          else if first.isAlpha then ofLetters (first :: rest)
          else if first = '.' then ofPoint rest
          else .unexpected

end Recognition

/-- Splits the characters from byte `position` on.  The first `inside`
characters belong to the lexeme before and are passed over. -/
def scan : (inside : Nat) -> (position : Nat) -> List Char -> Except LexicalError (List Lexeme)
  | _, position, [] => .ok [⟨.endOfInput, position⟩]
  | inside + 1, position, character :: rest => scan inside (position + character.utf8Size) rest
  | 0, position, character :: rest =>
      if isBlank character then
        scan 0 (position + character.utf8Size) rest
      else
        match Recognition.ofChars (character :: rest) with
        | .lexeme token more =>
            (scan more (position + character.utf8Size) rest).map (⟨token, position⟩ :: ·)
        | .unreadable literal => .error (.invalidNumber (String.ofList literal) position)
        | .unexpected => .error (.unexpectedCharacter character position)

/-- Splits a text into lexemes.  The last one marks the end of the text. -/
def tokenize (text : String) : Except LexicalError (List Lexeme) :=
  scan 0 0 text.toList

/-- Passing over the rest of a lexeme only moves the position by its bytes. -/
theorem scan_append_inside (piece rest : List Char) (position : Nat) :
    scan piece.length position (piece ++ rest) =
      scan 0 (position + (piece.map Char.utf8Size).sum) rest := by
  induction piece generalizing position with
  | nil => simp
  | cons character piece ih =>
      simp only [List.length_cons, List.cons_append, scan, ih, List.map_cons, List.sum_cons,
        Nat.add_assoc]

end DeskCalculator

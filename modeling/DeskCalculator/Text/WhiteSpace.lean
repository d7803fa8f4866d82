namespace DeskCalculator

/-!
# White space and lines

The white space characters of Unicode, and the cutting of texts at them.  The
table is the property `White_Space`; it has twenty-five members, and the blank
characters of ASCII are among them.  A line ends with a line feed or with a
carriage return and a line feed, and the last one need not end.
-/

/-- Whether a character has the property `White_Space`. -/
def isWhiteSpace (character : Char) : Bool :=
  let code := character.toNat
  (0x09 ≤ code && code ≤ 0x0D) || code == 0x20 || code == 0x85 || code == 0xA0 ||
    code == 0x1680 || (0x2000 ≤ code && code ≤ 0x200A) || code == 0x2028 || code == 0x2029 ||
    code == 0x202F || code == 0x205F || code == 0x3000

/-- The characters without white space at either end. -/
def trimChars (characters : List Char) : List Char :=
  ((characters.dropWhile isWhiteSpace).reverse.dropWhile isWhiteSpace).reverse

/-- The text without white space at either end. -/
def trimText (text : String) : String :=
  String.ofList (trimChars text.toList)

/-- Puts a character in front of the first of several lines. -/
def consFirst (character : Char) : List (List Char) -> List (List Char)
  | [] => [[character]]
  | line :: others => (character :: line) :: others

/-- The lines of a text, without the characters that end them.  Nothing after
the last end is no line, and a carriage return alone ends none. -/
def lines : List Char -> List (List Char)
  | [] => []
  | '\n' :: rest => [] :: lines rest
  | '\r' :: '\n' :: rest => [] :: lines rest
  | character :: rest => consFirst character (lines rest)

/-- The lines of a text without white space at either end, less those that are
empty then. -/
def trimmedLines (text : String) : List String :=
  (((lines text.toList).map trimChars).filter fun line => !line.isEmpty).map String.ofList

end DeskCalculator

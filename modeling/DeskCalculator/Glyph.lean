namespace DeskCalculator

/-!
# Display glyphs

A calculator shows `×`, `÷` and `^` where an expression has `*`, `/` and `**`.
`normalize` respells the glyphs and leaves every other character as it is, so
that only one spelling of each operator reaches the lexer.
-/

/-- How a character is spelled in an expression. -/
def glyphSpelling : Char -> List Char
  | '×' => ['*']
  | '÷' => ['/']
  | '^' => ['*', '*']
  | character => [character]

/-- The characters with every glyph respelled. -/
def normalizeChars (characters : List Char) : List Char :=
  characters.flatMap glyphSpelling

/-- The text with every glyph respelled. -/
def normalize (text : String) : String :=
  String.ofList (normalizeChars text.toList)

/-- Texts are respelled piece by piece. -/
theorem normalizeChars_append (first second : List Char) :
    normalizeChars (first ++ second) = normalizeChars first ++ normalizeChars second :=
  List.flatMap_append

end DeskCalculator

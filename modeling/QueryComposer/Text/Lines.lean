import QueryComposer.Text.Split

/-!
# Lines of a text

A line ends with a line feed, and a carriage return directly before it belongs to the line end.
What follows the last line feed is a line of its own unless it is empty: a line end at the end of
the text begins no line.
-/

namespace QueryComposer.Text

/-- The line without the carriage return of its line end. -/
def dropReturn (line : List Char) : List Char :=
  if line.getLast? = some '\r' then line.dropLast else line

/-- The lines among the parts between line feeds, of which the last has no line end. -/
def linesOfParts : List (List Char) → List (List Char)
  | [] | [[]] => []
  | [last] => [last]
  | line :: rest => dropReturn line :: linesOfParts rest

/-- The lines of a text, without their line ends. -/
def lines (text : String) : List String :=
  (linesOfParts (splitChars '\n' text.toList)).map String.ofList

end QueryComposer.Text

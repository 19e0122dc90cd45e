import TwinScheme.Text.Blank

/-!
# Lines

A line ends at a line feed, and a carriage return right before that line feed
belongs to the ending and not to the line. What follows the last line feed is
a line of its own unless it is empty; it has no ending, so a carriage return
at its end stays.

Indentation, which the error reports use, is the other operation on lines: it
puts the same margin in front of each.
-/

namespace TwinScheme.Text

/-- A line without the carriage return of its ending. -/
def dropReturn (line : List Char) : List Char :=
  if line.getLast? = some '\r' then line.dropLast else line

/-- Each piece but the last was ended by a line feed. -/
def endLines : List (List Char) → List (List Char)
  | [] => []
  | [last] => if last.isEmpty then [] else [last]
  | line :: rest => dropReturn line :: endLines rest

/-- The lines of a text. -/
def lines (cs : List Char) : List (List Char) :=
  endLines (split (· == '\n') cs)

/-- The text with `margin` in front of each of its lines. -/
def indent (margin text : String) : String :=
  "\n".intercalate (((split (· == '\n') text.toList)).map fun line => margin ++ String.ofList line)

end TwinScheme.Text

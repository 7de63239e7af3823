import DisplayFile.Text.Pieces

/-!
# Physical lines

A member is a text whose lines end in a line feed, or in a carriage return and a line feed. The
last line need not be ended, and an end of line at the end of the text starts no further line.

The cut is made in two steps. The pieces of the text between its line feeds are taken first; all but
the last of them were ended. `linesOfPieces` then drops the carriage return of each ended piece, and
the last piece when it is empty.
-/

namespace DisplayFile.Text

/-- An ended piece without the carriage return before its line feed. -/
def dropReturn (piece : List Char) : List Char :=
  if piece.getLast? = some '\r' then piece.dropLast else piece

/-- The lines of a text given by its pieces: all but the last were ended. -/
def linesOfPieces : List (List Char) → List (List Char)
  | [] => []
  | [last] => if last.isEmpty then [] else [last]
  | piece :: rest => dropReturn piece :: linesOfPieces rest

/-- The physical lines of a text. -/
def lines (text : String) : List String :=
  (linesOfPieces (pieces '\n' text.toList)).map String.ofList

end DisplayFile.Text

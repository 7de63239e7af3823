import DisplayFile.Text.Blank

/-!
# Columns of a line

A line is read by position. Columns are characters, counted from 0, and a line reads as if blanks
followed it, so every column of every line holds something.
-/

namespace DisplayFile.Text

/-- What stands in one column. -/
def column (line : List Char) (i : Nat) : Char :=
  line.getD i ' '

/-- The columns from `start` up to but not including `stop`. -/
def span (line : List Char) (start stop : Nat) : List Char :=
  ((line.drop start).take (stop - start)).rightpad (stop - start) ' '

/-- The same columns without the blanks around what they hold. -/
def trimmedSpan (line : List Char) (start stop : Nat) : String :=
  String.ofList (trim (span line start stop))

theorem length_span (line : List Char) (start stop : Nat) :
    (span line start stop).length = stop - start := by
  simp only [span, List.rightpad, List.length_append, List.length_replicate, List.length_take]
  omega

end DisplayFile.Text

/-!
# Aligned columns

Reports put text into columns of a least width. A width counts characters, and a text wider than
its column is written in full.
-/

namespace DisplayFile.Text

/-- As many spaces as bring `text` to `width` characters. -/
def fill (width : Nat) (text : String) : String :=
  String.ofList (List.replicate (width - text.length) ' ')

/-- The text at the left of a column. -/
def alignLeft (width : Nat) (text : String) : String :=
  text ++ fill width text

/-- The text at the right of a column. -/
def alignRight (width : Nat) (text : String) : String :=
  fill width text ++ text

end DisplayFile.Text

import DisplayFile.Text.Columns

/-!
# Entries

A physical line of a member is an entry or a comment. What an entry says is given by position: each
attribute has its columns, and only the characters there count. Columns are counted in characters
from 0.

    column   6  16 18  29    35 37 38  41  44
             |  |  |   |     |  |  |   |   |
    zone ----   |  |   |  type  |  |   |   keyword area, to the end of the line
    marker -----   |   length   |  |   column
    name ----------    decimals    row
                              usage

A line reads as if blanks followed it, so a short line has all columns, and blanks at the end of a
line say nothing. The conditioning zone is kept as it stands, since its slots are columns too. The
keyword area keeps its leading blanks, which belong to a constant continued from the line before.

Decoding the columns into numbers and kinds is left to the field that is built from them: an entry
only says what stands where.
-/

namespace DisplayFile

/-- One line that is not a comment, cut into its columns. -/
structure Entry where
  /-- The ten columns of the conditioning zone. -/
  zone : String
  /-- `R` opens a record format, a blank belongs to the one that is open, and any other marker
  does not concern the layout. -/
  marker : Char
  name : String
  length : String
  /-- The data type, in capitals. -/
  dataType : Char
  decimals : String
  /-- The usage, in capitals. -/
  usage : Char
  row : String
  column : String
  /-- The keyword area without the blanks that end it. -/
  keywords : String
deriving DecidableEq, Repr

namespace Entry

/-- A star at the head of the conditioning zone makes the line a comment. -/
def isComment (line : List Char) : Bool :=
  Text.column line 6 = '*'

/-- Cut a line into its columns. -/
def ofColumns (line : List Char) : Entry :=
  { zone := String.ofList (Text.span line 6 16)
    marker := Text.column line 16
    name := Text.trimmedSpan line 18 28
    length := Text.trimmedSpan line 29 34
    dataType := (Text.column line 34).toUpper
    decimals := Text.trimmedSpan line 35 37
    usage := (Text.column line 37).toUpper
    row := Text.trimmedSpan line 38 41
    column := Text.trimmedSpan line 41 44
    keywords := String.ofList (Text.trimEnd (line.drop 44)) }

/-- The entry on a line, or nothing for a comment. -/
def ofLine? (line : String) : Option Entry :=
  let cs := line.toList
  if isComment cs then none else some (ofColumns cs)

/-- The entry opens a record format. -/
def opensRecord (e : Entry) : Bool := e.marker = 'R'

/-- The entry belongs to the layout of the member. -/
def isLayout (e : Entry) : Bool := e.marker = 'R' || e.marker = ' '

/-- The entry opens a field: it places one, hides one or names one. -/
def opensField (e : Entry) : Bool :=
  !e.column.isEmpty || e.usage = 'H' || !e.name.isEmpty

theorem ofLine?_eq_none_iff {line : String} :
    ofLine? line = none ↔ Text.column line.toList 6 = '*' := by
  simp [ofLine?, isComment]

theorem ofLine?_eq_some_iff {line : String} {e : Entry} :
    ofLine? line = some e ↔ Text.column line.toList 6 ≠ '*' ∧ ofColumns line.toList = e := by
  simp [ofLine?, isComment]

end Entry

end DisplayFile

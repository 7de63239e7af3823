import DisplayFile.Proofs.Member.Columns

/-!
# Lines written in their columns

`Row` has what stands in each of the columns of a line, and `Row.text` writes the line: the text
columns filled up with spaces behind what they hold, the numeric ones in front. `Row.ofLine?_text`
says that the entry on the line has each attribute of the row, trimmed as it is read.

A row is one way to fill the columns of a line (`Row.filled`), so it is read as every filled line
is.
-/

namespace DisplayFile

/-- What stands in the columns of a line that is not a comment. -/
structure Row where
  /-- The slots of the conditioning zone. -/
  conditions : List Char := []
  marker : Char := ' '
  name : List Char := []
  length : List Char := []
  dataType : Char := ' '
  decimals : List Char := []
  usage : Char := ' '
  row : List Char := []
  column : List Char := []
  keywords : List Char := []

namespace Row

/-- Every attribute has room in its columns. -/
structure Fits (r : Row) : Prop where
  conditions : r.conditions.length ≤ 9
  name : r.name.length ≤ 10
  length : r.length.length ≤ 5
  decimals : r.decimals.length ≤ 2
  row : r.row.length ≤ 3
  column : r.column.length ≤ 3

/-- The characters of the line. -/
def print (r : Row) : List Char :=
  [' ', ' ', ' ', ' ', ' ', 'A'] ++ (' ' :: r.conditions.rightpad 9 ' ' ++ (r.marker :: ' ' ::
    (r.name.rightpad 10 ' ' ++ (' ' :: (r.length.leftpad 5 ' ' ++ (r.dataType ::
      (r.decimals.leftpad 2 ' ' ++ (r.usage :: (r.row.leftpad 3 ' ' ++
        (r.column.leftpad 3 ' ' ++ r.keywords))))))))))

/-- The line. -/
def text (r : Row) : String := String.ofList r.print

/-- The entry on the line. -/
def entry (r : Row) : Entry :=
  { zone := String.ofList (' ' :: r.conditions.rightpad 9 ' ')
    marker := r.marker
    name := String.ofList (Text.trim r.name)
    length := String.ofList (Text.trim r.length)
    dataType := r.dataType.toUpper
    decimals := String.ofList (Text.trim r.decimals)
    usage := r.usage.toUpper
    row := String.ofList (Text.trim r.row)
    column := String.ofList (Text.trim r.column)
    keywords := String.ofList (Text.trimEnd r.keywords) }

/-- The columns of the line. In front of the slots the zone is blank. -/
def filled (r : Row) (h : r.Fits) : FilledLine where
  sequence := [' ', ' ', ' ', ' ', ' ', 'A']
  zone := ' ' :: r.conditions.rightpad 9 ' '
  marker := r.marker
  beforeName := ' '
  name := .left r.name h.name
  behindName := ' '
  length := .right r.length h.length
  dataType := r.dataType
  decimals := .right r.decimals h.decimals
  usage := r.usage
  row := .right r.row h.row
  column := .right r.column h.column
  keywords := r.keywords
  length_sequence := rfl
  length_zone := by rw [List.length_cons, List.length_rightpad, Nat.max_eq_left h.conditions]

theorem print_filled {r : Row} (h : r.Fits) : (r.filled h).print = r.print := by
  simp only [FilledLine.print, filled, Cell.print_left, Cell.print_right, print]

/-- **The entry on the line has the attributes of the row.** -/
theorem ofLine?_text {r : Row} (h : r.Fits) : Entry.ofLine? r.text = some r.entry := by
  rw [text, ← print_filled h]
  exact (r.filled h).ofLine?_text

example :
    Row.text
        { conditions := "N01".toList, name := "AMOUNT".toList, length := ['7'], dataType := 'Y',
          decimals := ['2'], usage := 'O', row := ['4'], column := ['2', '1'],
          keywords := "EDTCDE(J)".toList } =
      "     A N01        AMOUNT         7Y 2O  4 21EDTCDE(J)" := by
  decide

end Row

end DisplayFile

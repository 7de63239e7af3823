import DisplayFile.Keyword.Basic

/-!
# Members

A member is the source of a display or printer file: a list of record formats, each with keywords
and fields. The first format is `GLOBAL` and holds what stands before the first record line.
Keywords and fields are looked up by name, and of several with one name the first one counts.

Lengths, positions and window dimensions are 32-bit words, because that is the width in which their
arithmetic is done. Line numbers count lines of a text and are natural numbers.
-/

namespace DisplayFile

/-- The kind of data in a field. -/
inductive DataKind where
  | char
  | decimal
deriving DecidableEq, Repr

/-- How a field takes part in the dialogue. -/
inductive Usage where
  | input
  | output
  | both
  | hidden
  /-- Text without a field name. -/
  | constant
deriving DecidableEq, Repr

/-- A place on the screen or the page. A row of 0 leaves the row to the lines around the field. -/
structure Position where
  row : UInt32
  column : UInt32
deriving DecidableEq, Repr

/-- A field of a record format. -/
structure Field where
  name : String
  kind : DataKind
  usage : Usage
  /-- The declared length, or 0 for the width of `value`. -/
  length : UInt32
  decimals : UInt32
  position : Position
  /-- The conditions of the line that opened the field. -/
  conditions : List Condition
  keywords : List Keyword
  /-- The text of a constant. -/
  value : String
deriving DecidableEq, Repr

/-- The lines from `start` up to but not including `stop`, counted from 0. -/
structure LineRange where
  start : Nat
  stop : Nat
deriving DecidableEq, Repr

/-- Whether a line is in the range. -/
def LineRange.contains (r : LineRange) (line : Nat) : Bool :=
  r.start ≤ line && line < r.stop

/-- Where a window stands on the screen, and how large it is. -/
structure Window where
  originRow : UInt32
  originColumn : UInt32
  width : UInt32
  height : UInt32
deriving DecidableEq, Repr

/-- The whole screen. -/
def Window.screen : Window :=
  { originRow := 0, originColumn := 0, width := 80, height := 24 }

/-- A record format: a named layout. -/
structure RecordFormat where
  name : String
  lines : LineRange
  isWindow : Bool
  /-- The format whose window this one borrows. -/
  windowReference : Option String
  window : Window
  keywords : List Keyword
  fields : List Field
deriving DecidableEq, Repr

namespace RecordFormat

/-- The name of the format before the first record line. -/
def globalName : String := "GLOBAL"

/-- The first keyword of the format with a name. -/
def keyword? (f : RecordFormat) (name : String) : Option Keyword :=
  f.keywords.find? (·.name = name)

/-- The first field of the format with a name. -/
def field? (f : RecordFormat) (name : String) : Option Field :=
  f.fields.find? (·.name = name)

end RecordFormat

/-- The source of a display or printer file. -/
structure Member where
  formats : List RecordFormat
deriving DecidableEq, Repr

end DisplayFile

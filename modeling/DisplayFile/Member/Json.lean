import DisplayFile.Failure
import DisplayFile.Json.Record
import DisplayFile.Member.Basic

/-!
# Members in JSON

Each type of a member has its JSON form, with `toJson` for writing and `ofJson?` for reading. The
names of the attributes are those of the JSON form and need not be the names used here.

The objects are written with their keys in ascending order, as every object has them.
-/

namespace DisplayFile

/-- A text as a JSON value. -/
abbrev Json.ofString (s : String) : Json := .string s

namespace Condition

/-- The JSON form of a condition. -/
def toJson (c : Condition) : Json :=
  .object [("indicator", Json.ofNat c.indicator.toNat), ("negate", .bool c.negated)]

/-- Read a condition. -/
def ofJson? (j : Json) : Option Condition :=
  match j.attributes? ["indicator", "negate"] with
  | some [indicator, negated] => do
    return { indicator := ← Json.required Json.byte? indicator
             negated := ← Json.required Json.bool? negated }
  | _ => none

end Condition

namespace Keyword

/-- The JSON form of a keyword. -/
def toJson (k : Keyword) : Json :=
  .object
    [("conditions", Json.ofList Condition.toJson k.conditions),
     ("name", .string k.name),
     ("value", Json.ofOption Json.ofString k.value)]

/-- Read a keyword. -/
def ofJson? (j : Json) : Option Keyword :=
  match j.attributes? ["name", "value", "conditions"] with
  | some [name, value, conditions] => do
    return { name := ← Json.required Json.string? name
             value := ← Json.optional Json.string? value
             conditions := ← Json.required (Json.list? Condition.ofJson?) conditions }
  | _ => none

end Keyword

namespace DataKind

/-- The JSON form of a kind of data. -/
def toJson : DataKind → Json
  | char => .string "char"
  | decimal => .string "decimal"

/-- Read a kind of data. -/
def ofJson? (j : Json) : Option DataKind :=
  match j.choice? with
  | some "char" => some char
  | some "decimal" => some decimal
  | _ => none

end DataKind

namespace Usage

/-- The name of a usage. -/
def name : Usage → String
  | input => "input"
  | output => "output"
  | both => "both"
  | hidden => "hidden"
  | constant => "const"

/-- The JSON form of a usage. -/
def toJson (u : Usage) : Json := .string u.name

/-- Read a usage. -/
def ofJson? (j : Json) : Option Usage :=
  match j.choice? with
  | some "input" => some input
  | some "output" => some output
  | some "both" => some both
  | some "hidden" => some hidden
  | some "const" => some constant
  | _ => none

end Usage

namespace Position

/-- The JSON form of a position. -/
def toJson (p : Position) : Json :=
  .object [("col", Json.ofNat p.column.toNat), ("row", Json.ofNat p.row.toNat)]

/-- Read a position. -/
def ofJson? (j : Json) : Option Position :=
  match j.attributes? ["row", "col"] with
  | some [row, column] => do
    return { row := ← Json.required Json.word? row
             column := ← Json.required Json.word? column }
  | _ => none

end Position

namespace Field

/-- The JSON form of a field. -/
def toJson (f : Field) : Json :=
  .object
    [("conditions", Json.ofList Condition.toJson f.conditions),
     ("decimals", Json.ofNat f.decimals.toNat),
     ("displayMode", f.usage.toJson),
     ("keywords", Json.ofList Keyword.toJson f.keywords),
     ("kind", f.kind.toJson),
     ("length", Json.ofNat f.length.toNat),
     ("name", .string f.name),
     ("position", f.position.toJson),
     ("value", .string f.value)]

/-- Read a field. -/
def ofJson? (j : Json) : Option Field :=
  match j.attributes? ["name", "kind", "displayMode", "length", "decimals", "position",
      "conditions", "keywords", "value"] with
  | some [name, kind, usage, length, decimals, position, conditions, keywords, value] => do
    return { name := ← Json.required Json.string? name
             kind := ← Json.required DataKind.ofJson? kind
             usage := ← Json.required Usage.ofJson? usage
             length := ← Json.required Json.word? length
             decimals := ← Json.required Json.word? decimals
             position := ← Json.required Position.ofJson? position
             conditions := ← Json.required (Json.list? Condition.ofJson?) conditions
             keywords := ← Json.required (Json.list? Keyword.ofJson?) keywords
             value := ← Json.required Json.string? value }
  | _ => none

end Field

namespace LineRange

/-- The JSON form of a range of lines. -/
def toJson (r : LineRange) : Json :=
  .object [("end", Json.ofNat r.stop), ("start", Json.ofNat r.start)]

/-- Read a range of lines. -/
def ofJson? (j : Json) : Option LineRange :=
  match j.attributes? ["start", "end"] with
  | some [start, stop] => do
    return { start := ← Json.required Json.nat? start
             stop := ← Json.required Json.nat? stop }
  | _ => none

end LineRange

namespace Window

/-- The JSON form of a window. -/
def toJson (w : Window) : Json :=
  .object
    [("height", Json.ofNat w.height.toNat),
     ("originCol", Json.ofNat w.originColumn.toNat),
     ("originRow", Json.ofNat w.originRow.toNat),
     ("width", Json.ofNat w.width.toNat)]

/-- Read a window. -/
def ofJson? (j : Json) : Option Window :=
  match j.attributes? ["originRow", "originCol", "width", "height"] with
  | some [originRow, originColumn, width, height] => do
    return { originRow := ← Json.required Json.word? originRow
             originColumn := ← Json.required Json.word? originColumn
             width := ← Json.required Json.word? width
             height := ← Json.required Json.word? height }
  | _ => none

end Window

namespace RecordFormat

/-- The JSON form of a record format. -/
def toJson (f : RecordFormat) : Json :=
  .object
    [("fields", Json.ofList Field.toJson f.fields),
     ("isWindow", .bool f.isWindow),
     ("keywords", Json.ofList Keyword.toJson f.keywords),
     ("name", .string f.name),
     ("sourceRange", f.lines.toJson),
     ("windowReference", Json.ofOption Json.ofString f.windowReference),
     ("windowSize", f.window.toJson)]

/-- Read a record format. -/
def ofJson? (j : Json) : Option RecordFormat :=
  match j.attributes? ["name", "sourceRange", "isWindow", "windowReference", "windowSize",
      "keywords", "fields"] with
  | some [name, lines, isWindow, windowReference, window, keywords, fields] => do
    return { name := ← Json.required Json.string? name
             lines := ← Json.required LineRange.ofJson? lines
             isWindow := ← Json.required Json.bool? isWindow
             windowReference := ← Json.optional Json.string? windowReference
             window := ← Json.required Window.ofJson? window
             keywords := ← Json.required (Json.list? Keyword.ofJson?) keywords
             fields := ← Json.required (Json.list? Field.ofJson?) fields }
  | _ => none

end RecordFormat

namespace Member

/-- The JSON form of a member. -/
def toJson (m : Member) : Json :=
  .object [("formats", Json.ofList RecordFormat.toJson m.formats)]

/-- Read a member. -/
def ofJson? (j : Json) : Option Member :=
  match j.attributes? ["formats"] with
  | some [formats] => do
    return { formats := ← Json.required (Json.list? RecordFormat.ofJson?) formats }
  | _ => none

end Member

/-- The JSON form of a failure. -/
def Failure.toJson (f : Failure) : Json :=
  .object [("error", .string f.kind), ("message", .string f.message)]

end DisplayFile

import DisplayFile.Command.Settings
import DisplayFile.Json.Printer
import DisplayFile.Member.Json
import DisplayFile.Member.Query
import DisplayFile.Text.Align

/-!
# Answers about a member

What the commands print about a member, as text for people or as JSON. Answers are texts without the
end of their last line, except for the list of formats, in which each format ends its own line.
-/

namespace DisplayFile

/-- A number as it is written. -/
def natText (n : Nat) : String := toString n

/-- A range of lines as it is shown. -/
def LineRange.text (r : LineRange) : String :=
  natText r.start ++ ".." ++ natText r.stop

/-! ### The formats of a member -/

namespace RecordFormat

/-- What is said about the window in the line of a format. -/
def windowNote (f : RecordFormat) : String :=
  match f.windowReference with
  | some reference => "  window(" ++ reference ++ ")"
  | none => if f.isWindow then "  window" else ""

/-- The line of a format. -/
def summaryLine (f : RecordFormat) : String :=
  Text.alignLeft 10 f.name ++ " " ++ Text.alignLeft 9 f.lines.text ++ " " ++
    Text.alignRight 3 (natText f.fields.length) ++ " fields" ++ f.windowNote

/-- The summary of a format in JSON. -/
def summaryJson (f : RecordFormat) : Json :=
  .object
    [("fields", Json.ofNat f.fields.length),
     ("isWindow", .bool f.isWindow),
     ("name", .string f.name),
     ("sourceRange", f.lines.toJson),
     ("windowReference", Json.ofOption Json.ofString f.windowReference)]

end RecordFormat

namespace Member

/-- The whole member. -/
def modelText (m : Member) : String :=
  m.toJson.pretty

/-- The list of formats. -/
def formatsText (m : Member) : OutputForm → String
  | .json => (Json.ofList RecordFormat.summaryJson m.formats).pretty ++ "\n"
  | .text => String.join (m.formats.map fun f ↦ f.summaryLine ++ "\n")

end Member

/-! ### The fields of a format -/

/-- The line of a field: its place, its name, its length, its usage and its text. -/
def Field.line (f : Field) : String :=
  let text :=
    Text.alignRight 3 (natText f.position.row.toNat) ++ " " ++
      Text.alignRight 3 (natText f.position.column.toNat) ++ "  " ++
      Text.alignLeft 10 f.name ++ " " ++
      Text.alignRight 4 (natText f.effectiveLength.toNat) ++ "  " ++
      Text.alignLeft 6 f.usage.name ++ " " ++ f.value
  String.ofList (Text.trimEnd text.toList)

/-- A field that is drawn, in JSON. -/
def Field.drawnJson (f : Field) : Json :=
  .object
    [("col", Json.ofNat f.position.column.toNat),
     ("displayMode", f.usage.toJson),
     ("length", Json.ofNat f.effectiveLength.toNat),
     ("name", .string f.name),
     ("row", Json.ofNat f.position.row.toNat),
     ("value", .string f.value)]

/-- The line of a window. -/
def Window.line (w : Window) : String :=
  "window at row " ++ natText w.originRow.toNat ++ " col " ++ natText w.originColumn.toNat ++
    ", " ++ natText w.height.toNat ++ " rows x " ++ natText w.width.toNat ++ " cols"

namespace RecordFormat

/-- A format with its window, if it is one, and with fields. -/
def shownText (f : RecordFormat) (window : Option Window) (fields : List Field) : String :=
  String.intercalate "\n"
    ((f.name ++ " (lines " ++ f.lines.text ++ ")") ::
      (window.map Window.line).toList ++ fields.map Field.line)

/-- The same in JSON, with the indicators that are on. -/
def shownJson (f : RecordFormat) (window : Option Window) (fields : List Field)
    (s : Indicators) : Json :=
  .object
    [("fields", Json.ofList Field.drawnJson fields),
     ("indicators", Json.ofList (fun n : UInt8 ↦ Json.ofNat n.toNat) s.toList),
     ("name", .string f.name),
     ("window", Json.ofOption Window.toJson window)]

end RecordFormat

namespace Member

/-- The window of a format that is one. -/
def windowOf (m : Member) (f : RecordFormat) (name : String) : Except Failure (Option Window) :=
  if f.isWindow then (m.window name).map some else .ok none

/-- The fields of a format that are drawn while indicators are on. -/
def shownText (m : Member) (name : String) (s : Indicators) (form : OutputForm) :
    Except Failure String := do
  let f ← m.format name
  let window ← m.windowOf f name
  let fields := f.visibleFields s
  return match form with
    | .json => (f.shownJson window fields s).pretty
    | .text => f.shownText window fields

/-! ### The format of a line -/

/-- The name of the format that covers a line, counted from 1. -/
def locate? (m : Member) : Nat → Option String
  | 0 => none
  | line + 1 => (m.formatAtLine? line).map (·.name)

/-- The answer to where a line belongs. -/
def locatedText (line : Nat) (name : String) : OutputForm → String
  | .json => (Json.object [("format", .string name), ("line", Json.ofNat line)]).compact
  | .text => name

end Member

end DisplayFile

import DisplayFile.Entry
import DisplayFile.Keyword.Scan
import DisplayFile.Member.Window

/-!
# Assembling a member

A member is assembled in one pass over its lines. At any point one record format is open, and within
it at most one field. A record line closes the open format and opens the next one; an entry that
opens a field closes the open field first. Every entry of the layout adds its keyword area to the
open field, or to the open format while that has no field yet.

Closing is where keyword areas are read and windows are settled. Nothing that is closed is touched
again: what crosses a record line is the number of the line and the count of unnamed constants,
which are numbered through the whole member.

Assembling cannot fail. What a line gets wrong falls back to a default.
-/

namespace DisplayFile

/-! ### The attributes of a field -/

namespace Entry

/-- The line that the entry adds to a keyword area. -/
def keywordLine (e : Entry) : Keyword.Line :=
  { text := e.keywords, zone := e.zone }

/-- A numeric attribute, 0 when it is blank or no number. -/
def amount (text : String) : UInt32 :=
  (Text.number? text).getD 0

/-- Whether the entry is placed relative to the field before it: a column with a plus sign and no
row, except for hidden fields. -/
def isRelative (e : Entry) : Bool :=
  e.row.isEmpty && e.usage ≠ 'H' && e.column.toList.head? = some '+'

/-- The usage of a named field. -/
def fieldUsage (e : Entry) : Usage :=
  match e.usage with
  | 'I' => .input
  | 'B' => .both
  | 'H' => .hidden
  | _ => .output

/-- The field of an entry without a name. Its length is left to its text. -/
def constantField (e : Entry) (ordinal : UInt32) (position : Position) : Field :=
  { name := "TEXT" ++ toString ordinal.toNat
    kind := .char
    usage := .constant
    length := 0
    decimals := 0
    position
    conditions := Condition.ofZone e.zone
    keywords := []
    value := "" }

/-- The field of an entry with a name. Decimals count only for the decimal types. Dates and times
have a fixed length and a keyword that says what they are. -/
def namedField (e : Entry) (position : Position) : Field :=
  let field : Field :=
    { name := e.name
      kind := .char
      usage := e.fieldUsage
      length := amount e.length
      decimals := 0
      position
      conditions := Condition.ofZone e.zone
      keywords := []
      value := "" }
  match e.dataType with
  | 'D' | 'Z' | 'Y' => { field with kind := .decimal, decimals := amount e.decimals }
  | 'L' => { field with length := 8, keywords := [.flag "DATE"] }
  | 'T' => { field with length := 8, keywords := [.flag "TIME"] }
  | _ => field

end Entry

/-- The number of characters in a field's text, as a word. -/
def Field.textWidth (f : Field) : UInt32 :=
  UInt32.ofNat f.value.length

/-! ### Open fields and formats -/

/-- A field whose keyword area is still being collected. -/
structure OpenField where
  field : Field
  area : Array Keyword.Line

/-- Read the keyword area of a field. The constant in it is the text of the field. -/
def OpenField.close (o : OpenField) : Field :=
  let resolved := Keyword.resolve o.area.toList
  { o.field with
    keywords := o.field.keywords ++ resolved.keywords
    value := resolved.constant }

/-- A record format still being collected. -/
structure OpenFormat where
  name : String
  start : Nat
  area : Array Keyword.Line := #[]
  /-- The fields that are closed. -/
  fields : Array Field := #[]
  field : Option OpenField := none

namespace OpenFormat

/-- Close the open field, if there is one. -/
def closeField (o : OpenFormat) : OpenFormat :=
  match o.field with
  | some f => { o with fields := o.fields.push f.close, field := none }
  | none => o

/-- Where an entry places its field, after the fields that are closed. A relative column starts
where the text of the field before it ends. -/
def position (o : OpenFormat) (e : Entry) : Position :=
  if e.column.isEmpty then { row := Entry.amount e.row, column := 0 }
  else if e.isRelative then
    let offset := Entry.amount e.column
    { row := 0
      column :=
        match o.fields.back? with
        | some before => before.position.column + offset + before.textWidth
        | none => offset }
  else { row := Entry.amount e.row, column := Entry.amount e.column }

/-- Add a line to the keyword area that is open. -/
def addLine (o : OpenFormat) (line : Keyword.Line) : OpenFormat :=
  match o.field with
  | some f => { o with field := some { f with area := f.area.push line } }
  | none => { o with area := o.area.push line }

/-- Close the format. It ends before line `stop`. -/
def close (o : OpenFormat) (stop : Nat) : RecordFormat :=
  let o := o.closeField
  RecordFormat.resolveWindow
    { name := o.name
      lines := { start := o.start, stop }
      isWindow := false
      windowReference := none
      window := Window.screen
      keywords := (Keyword.resolve o.area.toList).keywords
      fields := o.fields.toList }

end OpenFormat

/-! ### The pass over the lines -/

/-- A member assembled up to some line. -/
structure Assembly where
  /-- The formats that are closed. -/
  formats : Array RecordFormat := #[]
  /-- The open format. -/
  current : OpenFormat := { name := RecordFormat.globalName, start := 0 }
  /-- How many constants were numbered. -/
  constants : UInt32 := 0

namespace Assembly

/-- Open a record format on line `index`. -/
def openFormat (a : Assembly) (index : Nat) (e : Entry) : Assembly :=
  { a with
    formats := a.formats.push (a.current.close index)
    current := { name := e.name, start := index, area := #[e.keywordLine] } }

/-- Open a field. One without a name takes the next number. -/
def openField (a : Assembly) (e : Entry) : Assembly :=
  let current := a.current.closeField
  let position := current.position e
  if e.name.isEmpty then
    let ordinal := a.constants + 1
    { a with
      current := { current with field := some ⟨e.constantField ordinal position, #[]⟩ }
      constants := ordinal }
  else
    { a with current := { current with field := some ⟨e.namedField position, #[]⟩ } }

/-- Place an entry of the open format. -/
def place (a : Assembly) (e : Entry) : Assembly :=
  let a := if e.opensField then a.openField e else a
  { a with current := a.current.addLine e.keywordLine }

/-- Add an entry on line `index`. -/
def add (a : Assembly) (index : Nat) (e : Entry) : Assembly :=
  if e.opensRecord then a.openFormat index e
  else if e.isLayout then a.place e
  else a

/-- Add a physical line. -/
def line (a : Assembly) (index : Nat) (text : String) : Assembly :=
  match Entry.ofLine? text with
  | some e => a.add index e
  | none => a

/-- Add physical lines, of which the first has number `index`. -/
def lines (a : Assembly) (index : Nat) (texts : List String) : Assembly :=
  (texts.zipIdx index).foldl (fun a l ↦ a.line l.2 l.1) a

/-- Close the member after `count` lines. -/
def close (a : Assembly) (count : Nat) : Member :=
  { formats := (a.formats.push (a.current.close count)).toList }

@[simp] theorem lines_nil (a : Assembly) (index : Nat) : a.lines index [] = a := rfl

theorem lines_cons (a : Assembly) (index : Nat) (text : String) (texts : List String) :
    a.lines index (text :: texts) = (a.line index text).lines (index + 1) texts := rfl

theorem lines_append (a : Assembly) (index : Nat) (as bs : List String) :
    a.lines index (as ++ bs) = (a.lines index as).lines (index + as.length) bs := by
  simp [lines, List.zipIdx_append, List.foldl_append]

end Assembly

/-- Assemble a member from its physical lines. -/
def Member.ofLines (texts : List String) : Member :=
  (Assembly.lines {} 0 texts).close texts.length

end DisplayFile

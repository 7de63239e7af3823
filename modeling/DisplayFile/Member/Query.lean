import DisplayFile.Failure
import DisplayFile.Member.Assembly

/-!
# Questions about a member

Formats are looked up by name, and where a name occurs more than once the first one counts. A format
is also found by a line of the source.

**Borrowed windows.** The window of a format that borrows is found by going from format to format
until one has its own. As each name stands for one format, a chain that visits more formats than the
member has comes back to one of them and never ends, so the number of formats bounds the search, and
no record of the formats visited is needed.

**Conditions.** What is drawn depends on the indicators that are on: a field is drawn when it is not
hidden and its conditions hold.
-/

namespace DisplayFile

namespace Member

/-- The first format with a name. -/
def format? (m : Member) (name : String) : Option RecordFormat :=
  m.formats.find? (·.name = name)

/-- The first format with a name, or the failure to find one. -/
def format (m : Member) (name : String) : Except Failure RecordFormat :=
  match m.format? name with
  | some f => .ok f
  | none => .error (.formatNotFound name)

/-- The format that covers a line, counted from 0. -/
def formatAtLine? (m : Member) (line : Nat) : Option RecordFormat :=
  m.formats.find? (·.lines.contains line)

/-- The window of a format, going on to at most `bound` further formats from which it is borrowed.
`first` is the format for which the window is looked up. -/
def borrowedWindow (m : Member) (first : String) : Nat → RecordFormat → Except Failure Window
  | bound, f =>
    match f.windowReference with
    | none => .ok f.window
    | some reference =>
      match bound with
      | 0 => .error (.windowCycle first)
      | bound + 1 =>
        match m.format? reference with
        | none => .error (.windowNotFound f.name reference)
        | some next => m.borrowedWindow first bound next

/-- The window of the named format, its own or borrowed. -/
def window (m : Member) (name : String) : Except Failure Window := do
  let f ← m.format name
  m.borrowedWindow name m.formats.length f

end Member

namespace Field

/-- The declared length of a field, or the width of its text. -/
def effectiveLength (f : Field) : UInt32 :=
  if f.length > 0 then f.length else f.textWidth

/-- Whether the conditions of a field hold. -/
def isActive (f : Field) (s : Indicators) : Bool :=
  Condition.allHold f.conditions s

/-- Whether a field is drawn. -/
def isVisible (f : Field) (s : Indicators) : Bool :=
  f.usage ≠ .hidden && f.isActive s

/-- The keywords of a field that are in effect. -/
def activeKeywords (f : Field) (s : Indicators) : List Keyword :=
  f.keywords.filter (·.isActive s)

end Field

namespace RecordFormat

/-- The fields that are drawn, in the order of the source. -/
def visibleFields (f : RecordFormat) (s : Indicators) : List Field :=
  f.fields.filter (·.isVisible s)

end RecordFormat

end DisplayFile

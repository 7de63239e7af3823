import DisplayFile.Keyword.Parameters
import DisplayFile.Member.Basic
import DisplayFile.Text.Numeral

/-!
# Windows

A record format with the keyword `WINDOW` is a window. Its first such keyword says where the window
stands, in one of three forms: the default origin and a size (`*DFT 10 70`), an origin and a size
(`6 6 6 54`), or the name of the format whose window it borrows. With any other parameters the
format is a window all the same, and keeps the geometry that it has.

The form is decided by the parameters alone (`WindowForm.ofParameters`) and then applied, so that
what a form changes can be read off `RecordFormat.withForm`.
-/

namespace DisplayFile

/-- What the parameters of `WINDOW` say. -/
inductive WindowForm where
  /-- The default origin and a size in rows and columns. -/
  | sized (rows columns : String)
  /-- An origin and a size in rows and columns. -/
  | placed (row column rows columns : String)
  /-- The window of another format. -/
  | borrowed (format : String)
  | unrecognised
deriving DecidableEq, Repr

namespace WindowForm

/-- Whether a parameter asks for the default origin, in capitals or not. -/
def isDefaultOrigin (parameter : String) : Bool :=
  parameter.toList.map Char.toUpper = ['*', 'D', 'F', 'T']

/-- The form of a parameter list. -/
def ofParameters : List String → WindowForm
  | [format] => .borrowed format
  | first :: second :: third :: rest =>
    if isDefaultOrigin first then .sized second third
    else
      match rest with
      | fourth :: _ => .placed first second third fourth
      | [] => .unrecognised
  | _ => .unrecognised

end WindowForm

/-- The origin that is meant where none is given. -/
def Window.defaultOrigin : UInt32 := 2

/-- An origin: a number above 0. A field of the program, or 0, leaves it to the default. -/
def Window.origin (parameter : String) : UInt32 :=
  match Text.number? parameter with
  | some n => if n = 0 then Window.defaultOrigin else n
  | none => Window.defaultOrigin

namespace RecordFormat

/-- The format with the geometry that a form asks for. A dimension that is no number is kept. -/
def withForm (f : RecordFormat) : WindowForm → RecordFormat
  | .sized rows columns =>
    { f with window :=
      { originRow := Window.defaultOrigin
        originColumn := Window.defaultOrigin
        height := (Text.number? rows).getD f.window.height
        width := (Text.number? columns).getD f.window.width } }
  | .placed row column rows columns =>
    { f with window :=
      { originRow := Window.origin row
        originColumn := Window.origin column
        height := (Text.number? rows).getD f.window.height
        width := (Text.number? columns).getD f.window.width } }
  | .borrowed format => { f with windowReference := some format }
  | .unrecognised => f

/-- The form that the first keyword `WINDOW` asks for. -/
def windowForm? (f : RecordFormat) : Option WindowForm :=
  (f.keyword? "WINDOW").map fun k ↦
    WindowForm.ofParameters (Keyword.parameters (k.value.getD ""))

/-- Settle whether the format is a window, and which. -/
def resolveWindow (f : RecordFormat) : RecordFormat :=
  match f.windowForm? with
  | some form => { f.withForm form with isWindow := true }
  | none => f

end RecordFormat

end DisplayFile

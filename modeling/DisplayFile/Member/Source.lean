import DisplayFile.Failure
import DisplayFile.Member.Assembly
import DisplayFile.Text.Lines
import DisplayFile.Text.Utf8

/-!
# Where members come from

A member is assembled from lines, from a text, from the bytes of a file, or from a store of texts
under paths. Bytes need not be valid UTF-8.

Paths in a store are compared by their components. Repeated and final slashes do not count, nor does
a component `.` unless it is the first; a component `..` is not resolved. Messages show a path as it
was given.
-/

namespace DisplayFile

/-- Assemble a member from its text. -/
def Member.ofText (text : String) : Member :=
  Member.ofLines (Text.lines text)

/-- Assemble a member from the bytes of a file. -/
def Member.ofBytes (bytes : ByteArray) : Member :=
  Member.ofText (Text.Utf8.decodeLossy bytes)

/-- A path as it is compared. -/
structure PathKey where
  isAbsolute : Bool
  components : List String
deriving DecidableEq, Repr

namespace PathKey

/-- The key of a path. -/
def ofPath (path : String) : PathKey :=
  match (Text.pieces '/' path.toList).map String.ofList with
  | [] => { isAbsolute := false, components := [] }
  | first :: rest =>
    let rest := rest.filter fun c ↦ c ≠ "" ∧ c ≠ "."
    if first = "" then { isAbsolute := path ≠ "", components := rest }
    else { isAbsolute := false, components := first :: rest }

end PathKey

/-- Texts under paths. -/
structure Store where
  entries : List (PathKey × String)

namespace Store

/-- The store of a list of paths and texts. Where a path occurs again the later text counts. -/
def ofList (files : List (String × String)) : Store :=
  ⟨files.foldl (fun entries file ↦ (PathKey.ofPath file.1, file.2) :: entries) []⟩

/-- The text under a path. -/
def text? (s : Store) (path : String) : Option String :=
  s.entries.lookup (PathKey.ofPath path)

/-- Assemble the member under a path. -/
def member (s : Store) (path : String) : Except Failure Member :=
  match s.text? path with
  | some text => .ok (Member.ofText text)
  | none => .error (.unreadable path s!"not found: {path}")

end Store

end DisplayFile

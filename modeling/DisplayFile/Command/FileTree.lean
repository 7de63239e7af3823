import DisplayFile.Command.Files
import DisplayFile.Text.Pieces

/-!
# Trees of files

A tree of files held in memory answers the questions of `Files` as an operating system does for a
process that has the tree as its current folder. A path is followed component by component. It has
to go through folders: a component after a file is an error even if it is `.` or empty, as after a
final slash, and `..` after a component that is not there does not lead back. The lengths of names
and paths are limited, and too long a name is an error of its own in place of not being there.

Outside the tree are folders only, and nothing is found in them.
-/

namespace DisplayFile

/-- Files and empty folders with the components of their paths. Other folders are the ones that
these paths go through. -/
structure FileTree where
  /-- A path with the bytes of a file, or with none for a folder. -/
  entries : List (List String × Option ByteArray)

namespace FileTree

/-- What is in a tree at a path. -/
inductive Node where
  | file (bytes : ByteArray)
  | folder

/-- A point reached by following a path. -/
inductive Place where
  | inside (path : List String)
  | outside
deriving DecidableEq, Repr

/-- What is at the end of a row of components. -/
def node? (t : FileTree) (path : List String) : Option Node :=
  match t.entries.lookup path with
  | some (some bytes) => some (.file bytes)
  | some none => some .folder
  | none =>
    if path = [] ∨ t.entries.any (fun e ↦ path.isPrefixOf e.1) then some .folder else none

/-- A name has at most this many bytes. -/
def nameLimit : Nat := 255

/-- A path has at most this many bytes. -/
def pathLimit : Nat := 4095

/-- Why there is nothing under a name in a folder. -/
def absence (name : String) : FileError :=
  if nameLimit < name.utf8ByteSize then .nameTooLong else .absent

/-- Follow components from a point. -/
def follow (t : FileTree) : Place → List String → Except FileError Place
  | place, [] => .ok place
  | .outside, c :: cs =>
    if c = "" ∨ c = "." ∨ c = ".." then t.follow .outside cs else .error (absence c)
  | .inside path, c :: cs =>
    match t.node? path with
    | none => .error .absent
    | some (.file _) => .error .notFolder
    | some .folder =>
      if c = "" ∨ c = "." then t.follow (.inside path) cs
      else if c = ".." then
        if path = [] then t.follow .outside cs else t.follow (.inside path.dropLast) cs
      else if (t.node? (path ++ [c])).isSome then t.follow (.inside (path ++ [c])) cs
      else .error (absence c)

/-- The components of a path. -/
def components (path : String) : List String :=
  (Text.pieces '/' path.toList).map String.ofList

/-- The point that a path leads to. -/
def place (t : FileTree) (path : String) : Except FileError Place :=
  if path = "" then .error .absent
  else if pathLimit < path.utf8ByteSize then .error .nameTooLong
  else
    match components path with
    | "" :: rest => t.follow .outside rest
    | cs => t.follow (.inside []) cs

/-- What is at a path. -/
def nodeAt (t : FileTree) (path : String) : Except FileError Node :=
  match t.place path with
  | .error e => .error e
  | .ok .outside => .ok .folder
  | .ok (.inside cs) =>
    match t.node? cs with
    | some node => .ok node
    | none => .error .absent

/-- The names in the folder with the given components. -/
def namesIn (t : FileTree) (folder : List String) : List String :=
  (t.entries.filterMap fun e ↦
    if folder.isPrefixOf e.1 then (e.1.drop folder.length).head? else none).eraseDups

/-- The answers of a tree. -/
def files (t : FileTree) : Files Id where
  read path :=
    match t.nodeAt path with
    | .ok (.file bytes) => .ok bytes
    | .ok .folder => .error .isFolder
    | .error e => .error e
  kind? path :=
    match t.nodeAt path with
    | .ok (.file _) => some .file
    | .ok .folder => some .folder
    | .error _ => none
  names path :=
    match t.place path with
    | .ok (.inside cs) => t.namesIn cs
    | _ => []

/-- The tree of a list of paths, with the bytes of a file or none for a folder. -/
def ofList (entries : List (String × Option ByteArray)) : FileTree :=
  ⟨entries.map fun e ↦ ((components e.1).filter fun c ↦ c ≠ "" && c ≠ ".", e.2)⟩

end FileTree

end DisplayFile

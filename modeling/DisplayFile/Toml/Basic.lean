/-!
# TOML documents

A document is a table. Tables are written in several ways, and the way decides what may be added to
a table later: a header may open a table that so far was only passed through, a dotted key may go on
with a table that dotted keys have made, and a table in braces is complete. `Origin` keeps the way.

The members of a table are in the order in which they were first written.
-/

namespace DisplayFile

namespace Toml

/-- How a table came to be. -/
inductive Origin where
  /-- By a header of its own, or as the document. -/
  | header
  /-- On the way to a table with a header. -/
  | passed
  /-- On the way of a dotted key. -/
  | dotted
  /-- In braces. -/
  | closed
deriving DecidableEq, Repr

end Toml

/-- A TOML value. -/
inductive Toml where
  | string (s : String)
  | integer (n : Int)
  | float
  | boolean (b : Bool)
  /-- A date, a time or both. -/
  | moment
  | array (items : List Toml)
  | table (origin : Toml.Origin) (members : List (String × Toml))
  /-- The tables written under one header in double brackets, the last one first. -/
  | tables (last : List (String × Toml)) (before : List (List (String × Toml)))
deriving Repr

namespace Toml

/-- Why a text is not a TOML document. -/
inductive Error where
  | endOfText
  | unexpected (c : Char)
  | badEscape
  | badValue (token : String)
  | tooDeep
  | duplicateKey (key : String)
  /-- A key goes through a value that is not a table. -/
  | notATable (key : String)
deriving DecidableEq, Repr

/-- What an error says. -/
def Error.message : Error → String
  | endOfText => "unexpected end of text"
  | unexpected c => s!"unexpected character {c.quote}"
  | badEscape => "invalid escape"
  | badValue token => s!"invalid value {token}"
  | tooDeep => "nesting too deep"
  | duplicateKey key => s!"duplicate key {key}"
  | notATable key => s!"{key} is not a table"

/-- The members of a table. -/
abbrev Members := List (String × Toml)

/-- The value of a key. -/
def find? (key : String) (members : Members) : Option Toml :=
  members.lookup key

/-- Give a key a value, in the place of the one it has or else at the end. -/
def set (key : String) (value : Toml) : Members → Members
  | [] => [(key, value)]
  | (k, v) :: rest => if k = key then (key, value) :: rest else (k, v) :: set key value rest

/-- The members without a key. -/
def erase (key : String) (members : Members) : Members :=
  members.filter (·.1 ≠ key)

/-- Change the table at the end of a path. Tables that are missing on the way are made with the
origin `made`. A dotted key (`made` is `dotted`) does not go through tables with a header. -/
def changeAt (made : Origin) (change : Origin → Members → Except Error Members)
    (origin : Origin) (members : Members) : List String → Except Error Members
  | [] => change origin members
  | key :: path =>
    match find? key members with
    | none => do
      return set key (.table made (← changeAt made change made [] path)) members
    | some (.table o ms) =>
      if o = .closed then .error (.notATable key)
      else if made = .dotted ∧ o = .header then .error (.duplicateKey key)
      else do return set key (.table o (← changeAt made change o ms path)) members
    | some (.tables last before) => do
      return set key (.tables (← changeAt made change .header last path) before) members
    | some _ => .error (.notATable key)

/-- Add a key with its value to a table, through the tables of a dotted key. The last of these has
to be one that dotted keys have made. -/
def addKey (members : Members) (path : List String) (key : String) (value : Toml) :
    Except Error Members :=
  changeAt .dotted (fun origin ms ↦
      if (path ≠ [] ∧ origin ≠ .dotted) ∨ (find? key ms).isSome then .error (.duplicateKey key)
      else .ok (set key value ms))
    .header members path

/-- Open the table of a header. -/
def openTable (document : Members) (path : List String) (key : String) : Except Error Members :=
  changeAt .passed (fun _ ms ↦
      match find? key ms with
      | none => .ok (set key (.table .header []) ms)
      | some (.table .passed inner) => .ok (set key (.table .header inner) (erase key ms))
      | some _ => .error (.duplicateKey key))
    .header document path

/-- Open the next table of a header in double brackets. -/
def openElement (document : Members) (path : List String) (key : String) : Except Error Members :=
  changeAt .passed (fun _ ms ↦
      match find? key ms with
      | none => .ok (set key (.tables [] []) ms)
      | some (.tables last before) => .ok (set key (.tables [] (last :: before)) ms)
      | some _ => .error (.duplicateKey key))
    .header document path

/-- Add a key with its value to the table that a header has opened. -/
def addUnder (document : Members) (header path : List String) (key : String) (value : Toml) :
    Except Error Members :=
  changeAt .passed (fun _ ms ↦ addKey ms path key value) .header document header

end Toml

end DisplayFile

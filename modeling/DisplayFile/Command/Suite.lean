import DisplayFile.Command.Files
import DisplayFile.Json.Difference
import DisplayFile.Json.Printer
import DisplayFile.Json.Reader
import DisplayFile.Member.Json
import DisplayFile.Member.Source

/-!
# Conformance suites

A suite is a folder with a folder `positive`. Each member in it, a file whose extension is `dspf`,
is a fixture: beside it lies the JSON form that is expected of it, under the same name with the
extension `expected.json`. A fixture passes when the JSON form of the member agrees with the
expected value.

The fixtures are run in the order of their names, and the results are written as a TAP report: a
plan, a line for each fixture with the reasons of a failure below it, and the totals.
-/

namespace DisplayFile

/-- What came of a fixture. -/
structure TestPoint where
  name : String
  /-- Why the fixture has failed, if it has. -/
  failure : Option String
deriving DecidableEq, Repr

namespace TestPoint

/-- Whether the fixture has passed. -/
def passed (p : TestPoint) : Bool := p.failure.isNone

/-- The lines of the point with a number in the report. -/
def lines (p : TestPoint) (number : Nat) : List String :=
  let status := if p.passed then "ok " else "not ok "
  (status ++ toString number ++ " - " ++ p.name) ::
    match p.failure with
    | none => []
    | some reason => (Text.lines reason).map ("  # " ++ ·)

end TestPoint

/-- The results of a suite. -/
structure Report where
  points : List TestPoint
deriving DecidableEq, Repr

namespace Report

/-- How many fixtures have passed. -/
def passes (r : Report) : Nat := r.points.countP (·.passed)

/-- How many fixtures have failed. -/
def failures (r : Report) : Nat := r.points.length - r.passes

/-- The lines of the report. -/
def lines (r : Report) : List String :=
  ["TAP version 14", "1.." ++ toString r.points.length] ++
    (r.points.zipIdx 1).flatMap (fun (p, number) ↦ p.lines number) ++
    ["# tests " ++ toString r.points.length,
     "# pass  " ++ toString r.passes,
     "# fail  " ++ toString r.failures]

/-- The report as it is written. -/
def text (r : Report) : String :=
  String.join (r.lines.map (· ++ "\n"))

end Report

/-! ### Fixtures -/

/-- A fixture of a suite. -/
structure Fixture where
  /-- The name of the member without its extension. -/
  stem : String
  /-- The path of the member. -/
  member : String
  /-- The path of the expected value. -/
  expected : String
deriving DecidableEq, Repr

namespace Fixture

/-- The folder of a suite that holds its fixtures. -/
def folderName : String := "positive"

/-- The parts of a file name before and after its last dot. A dot at the start of a name separates
nothing. -/
def splitName? (name : String) : Option (String × String) :=
  let cs := name.toList
  let extension := (cs.reverse.takeWhile (· ≠ '.')).reverse
  let stem := cs.take (cs.length - extension.length - 1)
  if extension.length < cs.length ∧ stem ≠ [] ∧ name ≠ ".." then
    some (String.ofList stem, String.ofList extension)
  else none

/-- The fixture that a name in the folder stands for. -/
def ofName? (folder name : String) : Option Fixture :=
  match splitName? name with
  | some (stem, "dspf") =>
    some
      { stem
        member := joinPath folder name
        expected := joinPath folder (stem ++ ".expected.json") }
  | _ => none

/-- The fixtures in a folder with some names, in the order of these names. -/
def ofNames (folder : String) (names : List String) : List Fixture :=
  (names.mergeSort (fun a b ↦ decide (a ≤ b))).filterMap (ofName? folder)

/-- The name of the fixture in the report. -/
def pointName (f : Fixture) : String := folderName ++ "/" ++ f.stem

/-- The value in the file of an expected value. -/
def expectedValue (f : Fixture) (source : Except FileError String) : Except String Json :=
  match source with
  | .error e => .error s!"cannot read {f.expected}: {e.message}"
  | .ok source =>
    match Json.read source with
    | .ok value => .ok value
    | .error e => .error s!"invalid JSON in {f.expected}: {e.message}"

/-- What is said about values that do not agree. -/
def mismatch (expected got : Json) : String :=
  let places := String.intercalate ", " ((Json.differences expected got).map Json.Difference.text)
  s!"output mismatch:\ndiffers at: {places}\n--- expected\n{expected.pretty}\n+++ got\n{got.pretty}"

/-- The result for a member whose JSON form has to agree with a value. -/
def judge (expected : Json) : Except Failure Member → Option String
  | .error e => some s!"could not parse member: {e.message}"
  | .ok m => if m.toJson.agrees expected then none else some (mismatch expected m.toJson)

end Fixture

/-- Read and assemble the member at a path. -/
def readMember {m : Type → Type} [Monad m] (files : Files m) (path : String) :
    m (Except Failure Member) := do
  match ← files.read path with
  | .ok bytes => return .ok (Member.ofBytes bytes)
  | .error e => return .error (.unreadable path e.message)

/-- Why a fixture fails, if it does. -/
def Fixture.failure? {m : Type → Type} [Monad m] (files : Files m) (f : Fixture) :
    m (Option String) := do
  match ← files.kind? f.expected with
  | none => return some s!"missing expected file: {f.expected}"
  | some _ =>
    match f.expectedValue (← files.readText f.expected) with
    | .error reason => return some s!"failed to read expected file: {reason}"
    | .ok expected => return Fixture.judge expected (← readMember files f.member)

/-- Run the fixtures of a suite. -/
def runSuite {m : Type → Type} [Monad m] (files : Files m) (suite : String) : m Report := do
  let folder := joinPath suite Fixture.folderName
  let fixtures := Fixture.ofNames folder (← files.names folder)
  return ⟨← fixtures.mapM fun f ↦ do return ⟨f.pointName, ← f.failure? files⟩⟩

end DisplayFile

import DisplayFile.Command.Run

/-!
# The program

The program answers the questions of a command about files with the operating system, and hands over
its outcome. It decides nothing.
-/

namespace DisplayFile

/-- An error of the operating system by its number, which some calls report negated. -/
def FileError.ofNumber (details : String) (reported : UInt32) : FileError :=
  let number :=
    if reported.toNat < UInt32.size / 2 then reported.toNat else UInt32.size - reported.toNat
  match number with
  | 2 => .absent
  | 20 => .notFolder
  | 21 => .isFolder
  | 36 => .nameTooLong
  | _ => .system details.capitalize number

/-- An error of the operating system. -/
def FileError.ofIO : IO.Error → FileError
  | .noFileOrDirectory _ number details => .ofNumber details number
  | .inappropriateType _ number details => .ofNumber details number
  | .permissionDenied _ number details => .ofNumber details number
  | .invalidArgument _ number details => .ofNumber details number
  | .otherError number details => .ofNumber details number
  | e => .system (toString e) 0

/-- The files of the operating system, seen from the current folder. -/
def systemFiles : IO (Files IO) := do
  let here ← IO.currentDir
  return {
    read := fun path ↦ do
      try return .ok (← IO.FS.readBinFile (here / path))
      catch e => return .error (.ofIO e)
    kind? := fun path ↦ do
      try
        match (← (here / path).metadata).type with
        | .dir => return some .folder
        | .file => return some .file
        | _ => return some .other
      catch _ => return none
    names := fun path ↦ do
      try return (← (here / path).readDir).toList.map (·.fileName)
      catch _ => return [] }

end DisplayFile

/-- Run the command line and leave its outcome behind. -/
def main (arguments : List String) : IO UInt32 := do
  let outcome ← DisplayFile.run (← DisplayFile.systemFiles) arguments
  (← IO.getStdout).putStr outcome.stdout
  (← IO.getStderr).putStr outcome.stderr
  return UInt32.ofNat outcome.code

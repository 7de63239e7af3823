import DisplayFile.Text.Utf8

/-!
# Access to files

Commands ask three questions about a path: what a file holds, whether there is a file, a folder or
something else, and which names a folder has. `Files` is the answers to these questions in some
monad. A program runs on those of the operating system; a computation with no effects at all can run
on any functions from paths to answers, which is how the commands are reasoned about.
-/

namespace DisplayFile

/-- Why a file cannot be read. -/
inductive FileError where
  /-- The operating system refuses, with the number that it gives to this error. -/
  | system (text : String) (code : Nat)
  /-- The file is not text. -/
  | notText
deriving DecidableEq, Repr

namespace FileError

/-- Nothing is at the path. -/
def absent : FileError := system "No such file or directory" 2

/-- The path goes through a file as if it were a folder. -/
def notFolder : FileError := system "Not a directory" 20

/-- A folder is at the path. -/
def isFolder : FileError := system "Is a directory" 21

/-- The path or a name in it is longer than the operating system allows. -/
def nameTooLong : FileError := system "File name too long" 36

/-- What an error says. -/
def message : FileError → String
  | system text code => s!"{text} (os error {code})"
  | notText => "stream did not contain valid UTF-8"

end FileError

/-- What is at a path. -/
inductive FileKind where
  | file
  | folder
  /-- Neither a file nor a folder, as a device is. -/
  | other
deriving DecidableEq, Repr

/-- The answers to questions about paths. -/
structure Files (m : Type → Type) where
  /-- The bytes of the file at a path. -/
  read : String → m (Except FileError ByteArray)
  /-- What is at a path, if anything. -/
  kind? : String → m (Option FileKind)
  /-- The names in the folder at a path, in any order, and none where there is no folder. -/
  names : String → m (List String)

/-- The text in bytes that have to be valid UTF-8. -/
def textOfBytes (bytes : Except FileError ByteArray) : Except FileError String :=
  match bytes with
  | .error e => .error e
  | .ok bytes =>
    match Text.Utf8.decode? bytes with
    | some text => .ok text
    | none => .error .notText

/-- The text of the file at a path, which has to be valid UTF-8. -/
def Files.readText {m : Type → Type} [Monad m] (files : Files m) (path : String) :
    m (Except FileError String) := do
  return textOfBytes (← files.read path)

/-- The path of a name in a folder. -/
def joinPath (folder name : String) : String :=
  if folder.toList.getLast? = some '/' then folder ++ name else folder ++ "/" ++ name

end DisplayFile

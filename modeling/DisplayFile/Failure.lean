/-!
# Failures

Reading a member's layout never fails. What can fail is getting hold of the member, and finding
something in it. Each failure has a kind, which programs test, and a message for people.
-/

namespace DisplayFile

/-- Why a question about a member has no answer. -/
inductive Failure where
  /-- The member at `path` cannot be read. -/
  | unreadable (path reason : String)
  /-- No record format has this name. -/
  | formatNotFound (name : String)
  /-- A record format borrows a window from a format that does not exist. -/
  | windowNotFound (format reference : String)
  /-- The formats from which a window is borrowed in turn never come to one with its own. -/
  | windowCycle (format : String)
deriving DecidableEq, Repr

namespace Failure

/-- The kind of a failure, the same in every message of that kind. -/
def kind : Failure → String
  | unreadable _ _ => "io"
  | formatNotFound _ => "format_not_found"
  | windowNotFound _ _ => "window_reference_not_found"
  | windowCycle _ => "window_reference_cycle"

/-- What a failure says. -/
def message : Failure → String
  | unreadable path reason => s!"could not read '{path}': {reason}"
  | formatNotFound name => s!"record format not found: {name}"
  | windowNotFound format reference =>
    s!"record format {format} references window {reference}, which does not exist"
  | windowCycle format => s!"window references starting at {format} form a cycle"

end Failure

end DisplayFile

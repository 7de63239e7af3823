import DisplayFile.Keyword.Basic
import DisplayFile.Text.Uppercase

/-!
# Scanning keyword text

The keyword areas of a record format or a field are collected line by line and read together, since
a keyword's value or a quoted constant may run over any number of lines.

The scan goes over the characters of each line and is always in one of four modes. In the plain mode
a blank ends a keyword, a bracket opens its value and a quote opens a constant. Inside brackets all
is kept but the brackets, which nest. Inside quotes all is kept but the signs, and a quote there
leaves the scan undecided (`Mode.closing`) until the next character: another quote makes both one
apostrophe, anything else ends the constant. So no character is looked at before its turn.

A line that ends in a sign continues on the next line, and that sign is never content. The end of a
line ends a keyword as a blank does, but inside brackets or quotes it adds nothing: a value or a
constant that is not closed goes on with the next line, whether or not it was continued.

**The value under construction is shared.** A sign outside brackets and quotes goes into it, and it
is emptied only when a keyword or a constant takes it. That is why `A(b)'c'` has the constant `bc`,
and why `A+B` is the keyword `AB` with the value `+`.

**What a token is stamped with is a parameter.** Each line comes with a stamp, and a token gets the
stamp of the line on which it ends. Members use the conditioning zone of the line.
-/

namespace DisplayFile.Keyword

/-- One line of a keyword area, with the conditioning zone of the same physical line. -/
structure Line where
  text : String
  zone : String
deriving DecidableEq, Repr

/-- Where a scan stands. -/
inductive Mode where
  /-- Between and inside names. -/
  | plain
  /-- Inside the brackets of a value and this many further ones. -/
  | bracketed (depth : Nat)
  /-- Inside a quoted constant. -/
  | quoted
  /-- After a quote inside a constant, before it is known whether the constant goes on. -/
  | closing
deriving DecidableEq, Repr

/-- A keyword as it is written: the name before it is put in capitals, and the value, empty when
there is none. -/
structure Token (α : Type) where
  word : String
  value : String
  stamp : α
deriving DecidableEq, Repr

/-- A scan under way. -/
structure Scan (α : Type) where
  mode : Mode := .plain
  /-- The name under construction. -/
  word : String := ""
  /-- The value or the constant under construction. -/
  inner : String := ""
  /-- The keywords that have ended. -/
  tokens : Array (Token α) := #[]
  /-- The constant closed last, or nothing. -/
  constant : String := ""

/-- A sign continues a line when it is the last character of it. -/
def isSign (c : Char) : Bool := c = '+' || c = '-'

/-- The text of a line without the sign that continues it. -/
def withoutContinuation (text : List Char) : List Char :=
  if text.getLast?.any isSign then text.dropLast else text

namespace Scan

variable {α : Type}

/-- Add a character to the value under construction. -/
def keep (s : Scan α) (c : Char) : Scan α :=
  { s with inner := s.inner.push c }

/-- End the name under construction, if there is one. -/
def endWord (s : Scan α) (stamp : α) : Scan α :=
  if s.word.isEmpty then s
  else { s with tokens := s.tokens.push ⟨s.word, s.inner, stamp⟩, word := "", inner := "" }

/-- End the constant under construction. -/
def endConstant (s : Scan α) : Scan α :=
  { s with mode := .plain, constant := s.inner, inner := "" }

/-- Read a character outside brackets and quotes. -/
def plain (stamp : α) (s : Scan α) (c : Char) : Scan α :=
  if c = ' ' then s.endWord stamp
  else if c = '\'' then { s with mode := .quoted }
  else if c = '(' then { s with mode := .bracketed 0 }
  else if c = ')' then s
  else if isSign c then s.keep c
  else { s with word := s.word.push c }

/-- Read a character inside brackets. -/
def bracketed (depth : Nat) (s : Scan α) (c : Char) : Scan α :=
  if c = '(' then { s with mode := .bracketed (depth + 1) }
  else if c = ')' then
    match depth with
    | 0 => { s with mode := .plain }
    | outer + 1 => { s with mode := .bracketed outer }
  else s.keep c

/-- Read a character inside a constant. -/
def quoted (s : Scan α) (c : Char) : Scan α :=
  if c = '\'' then { s with mode := .closing }
  else if isSign c then s
  else s.keep c

/-- Read a character after a quote inside a constant. -/
def closing (stamp : α) (s : Scan α) (c : Char) : Scan α :=
  if c = '\'' then { s.keep c with mode := .quoted }
  else s.endConstant.plain stamp c

/-- Read one character of a line. -/
def char (stamp : α) (s : Scan α) (c : Char) : Scan α :=
  match s.mode with
  | .plain => s.plain stamp c
  | .bracketed depth => s.bracketed depth c
  | .quoted => s.quoted c
  | .closing => s.closing stamp c

/-- Read characters of a line. -/
def chars (stamp : α) (s : Scan α) (cs : List Char) : Scan α :=
  cs.foldl (char stamp) s

/-- Read the end of a line. -/
def endLine (stamp : α) (s : Scan α) : Scan α :=
  match s.mode with
  | .plain => s.endWord stamp
  | .closing => s.endConstant.endWord stamp
  | .bracketed _ | .quoted => s

/-- Read a line. -/
def line (s : Scan α) (text : String) (stamp : α) : Scan α :=
  (s.chars stamp (withoutContinuation text.toList)).endLine stamp

/-- Read lines, each with its stamp. -/
def lines (s : Scan α) (ls : List (String × α)) : Scan α :=
  ls.foldl (fun s l ↦ s.line l.1 l.2) s

@[simp] theorem chars_nil (stamp : α) (s : Scan α) : s.chars stamp [] = s := rfl

@[simp] theorem chars_cons (stamp : α) (s : Scan α) (c : Char) (cs : List Char) :
    s.chars stamp (c :: cs) = (s.char stamp c).chars stamp cs := rfl

theorem chars_append (stamp : α) (s : Scan α) (as bs : List Char) :
    s.chars stamp (as ++ bs) = (s.chars stamp as).chars stamp bs :=
  List.foldl_append

theorem lines_append (s : Scan α) (as bs : List (String × α)) :
    s.lines (as ++ bs) = (s.lines as).lines bs :=
  List.foldl_append

end Scan

/-- The keyword that a token stands for. -/
def ofToken (t : Token String) : Keyword :=
  { name := Text.upper t.word
    value := if t.value.isEmpty then none else some t.value
    conditions := Condition.ofZone t.stamp }

/-- What a keyword area says. -/
structure Resolved where
  keywords : List Keyword
  /-- The text of the constant closed last, or nothing. -/
  constant : String
deriving DecidableEq, Repr

/-- Read a keyword area. -/
def resolve (area : List Line) : Resolved :=
  let s : Scan String := Scan.lines {} (area.map fun l ↦ (l.text, l.zone))
  { keywords := s.tokens.toList.map ofToken, constant := s.constant }

@[simp] theorem resolve_nil : resolve [] = ⟨[], ""⟩ := rfl

end DisplayFile.Keyword

import DisplayFile.Member.Assembly
import DisplayFile.Proofs.Keyword.Items
import DisplayFile.Proofs.Member.Row
import DisplayFile.Proofs.Text.Decimal

/-!
# Drafts

A draft is a member as its author thinks of it: keywords, records and fields, without lines or
columns. This module says how a draft is laid out on lines (`Draft.lines`) and which member it means
(`Draft.member`), and each of the two without the other. A record line has its name alone. Every
keyword stands on a line of its own with its own conditions. A field has a line with its attributes,
or with its text in quotes when it is a constant, followed by the lines of its keywords.

The types hold only what can be written. A name fits in its columns and has no blanks around it, a
number has at most as many digits as there are columns for it, a keyword is written in capitals and
without the characters that would end its name, and a text has no sign.

What a draft means depends on where its records stand and on how many constants come before them, so
`DraftRecord.format` takes a line number and a count, and `formatsOfDrafts` hands them on.
-/

namespace DisplayFile

/-! ### What is written -/

/-- A name of a record or a field. -/
structure DraftName where
  chars : List Char
  ne_nil : chars ≠ []
  length_le : chars.length ≤ 10
  trim_eq : Text.trim chars = chars

/-- The conditions of one line: indicators, each with whether it is negated. -/
structure DraftConditions where
  list : List (Fin 100 × Bool)
  length_le : list.length ≤ 3

/-- The value of a keyword. -/
structure DraftValue where
  chars : List Char
  ne_nil : chars ≠ []
  ne_bracket : ∀ c ∈ chars, c ≠ '(' ∧ c ≠ ')'

/-- A keyword with its conditions. -/
structure DraftKeyword where
  word : Keyword.Word
  upper_eq : Text.upper (String.ofList word.chars) = String.ofList word.chars
  isBlank_of_mem : ∀ c ∈ word.chars, Text.isBlank c = false
  value : Option DraftValue
  conditions : DraftConditions

/-- A row or a column on the screen. -/
structure DraftCoordinate where
  val : Nat
  pos : 0 < val
  lt : val < 1000

/-- What makes a field: a declaration or a text. -/
inductive DraftContent where
  | declared (name : DraftName) (length : Fin 100000) (dataType : Char) (decimals : Fin 100)
      (usage : Char)
  | constant (text : Keyword.ConstantText)

/-- A field of a record. -/
structure DraftField where
  content : DraftContent
  row : DraftCoordinate
  column : DraftCoordinate
  conditions : DraftConditions
  keywords : List DraftKeyword

/-- A record. -/
structure DraftRecord where
  name : DraftName
  keywords : List DraftKeyword
  fields : List DraftField

/-- A member: the keywords in front of the first record, and the records. -/
structure Draft where
  keywords : List DraftKeyword
  records : List DraftRecord

/-! ### How it is laid out -/

namespace DraftConditions

/-- A condition takes three columns: the negation, and the indicator in two digits. -/
def slot (c : Fin 100 × Bool) : List Char :=
  [if c.2 then 'N' else ' ', Nat.digitChar (c.1 / 10), Nat.digitChar (c.1 % 10)]

/-- The slots of a line. -/
def print (cs : DraftConditions) : List Char := cs.list.flatMap slot

end DraftConditions

theorem DraftValue.closes_chars (v : DraftValue) : Keyword.closes 0 v.chars = true := by
  have hclosed : ∀ cs : List Char, (∀ c ∈ cs, c ≠ '(' ∧ c ≠ ')') →
      Keyword.closes 0 cs = true := by
    intro cs h
    induction cs with
    | nil => rfl
    | cons c cs ih =>
      obtain ⟨⟨hopen, hclose⟩, hcs⟩ := List.forall_mem_cons.1 h
      rw [Keyword.closes_cons, if_neg hopen, if_neg hclose, ih hcs]
  exact hclosed v.chars v.ne_bracket

namespace DraftKeyword

/-- The keyword as an item of keyword text. -/
def item (k : DraftKeyword) : Keyword.Item :=
  match k.value with
  | none => .bare k.word
  | some v => .valued k.word ⟨v.chars, v.closes_chars⟩

/-- The line of the keyword. -/
def toRow (k : DraftKeyword) : Row :=
  { conditions := k.conditions.print, keywords := k.item.print }

end DraftKeyword

namespace DraftField

/-- The line that opens the field. -/
def opening (f : DraftField) : Row :=
  match f.content with
  | .declared name length dataType decimals usage =>
    { conditions := f.conditions.print
      name := name.chars
      length := Text.Numeral.digits length
      dataType
      decimals := Text.Numeral.digits decimals
      usage
      row := Text.Numeral.digits f.row.val
      column := Text.Numeral.digits f.column.val }
  | .constant text =>
    { conditions := f.conditions.print
      row := Text.Numeral.digits f.row.val
      column := Text.Numeral.digits f.column.val
      keywords := (Keyword.Item.constant text).print }

/-- The lines of the field. -/
def rows (f : DraftField) : List Row := f.opening :: f.keywords.map DraftKeyword.toRow

end DraftField

namespace DraftRecord

/-- The record line. -/
def heading (r : DraftRecord) : Row := { marker := 'R', name := r.name.chars }

/-- The lines of the record. -/
def rows (r : DraftRecord) : List Row :=
  r.heading :: (r.keywords.map DraftKeyword.toRow ++ r.fields.flatMap DraftField.rows)

end DraftRecord

namespace Draft

/-- The lines of the member, by their columns. -/
def rows (d : Draft) : List Row :=
  d.keywords.map DraftKeyword.toRow ++ d.records.flatMap DraftRecord.rows

/-- The lines of the member. -/
def lines (d : Draft) : List String := d.rows.map Row.text

end Draft

/-! ### What it means -/

/-- The conditions that are meant. -/
def DraftConditions.conditions (cs : DraftConditions) : List Condition :=
  cs.list.map fun c ↦ { indicator := UInt8.ofNat c.1, negated := c.2 }

/-- The keyword that is meant. -/
def DraftKeyword.keyword (k : DraftKeyword) : Keyword :=
  { name := String.ofList k.word.chars
    value := k.value.map fun v ↦ String.ofList v.chars
    conditions := k.conditions.conditions }

namespace DraftField

/-- The place that is meant. -/
def position (f : DraftField) : Position :=
  { row := UInt32.ofNat f.row.val, column := UInt32.ofNat f.column.val }

/-- The data types of numbers. -/
def isDecimal (dataType : Char) : Bool := dataType ∈ ['D', 'Z', 'Y']

/-- The keywords that a data type stands for. -/
def typeKeywords (dataType : Char) : List Keyword :=
  if dataType = 'L' then [.flag "DATE"] else if dataType = 'T' then [.flag "TIME"] else []

/-- The usage that a letter stands for. -/
def usageOf (letter : Char) : Usage :=
  if letter = 'I' then .input
  else if letter = 'B' then .both
  else if letter = 'H' then .hidden
  else .output

/-- The field that is meant. A constant has its number among all constants of the member. -/
def field (ordinal : Nat) (f : DraftField) : Field :=
  match f.content with
  | .declared name length dataType decimals usage =>
    let type := dataType.toUpper
    { name := String.ofList name.chars
      kind := if isDecimal type then .decimal else .char
      usage := usageOf usage.toUpper
      length := if type = 'L' ∨ type = 'T' then 8 else UInt32.ofNat length
      decimals := if isDecimal type then UInt32.ofNat decimals else 0
      position := f.position
      conditions := f.conditions.conditions
      keywords := typeKeywords type ++ f.keywords.map DraftKeyword.keyword
      value := "" }
  | .constant text =>
    { name := "TEXT" ++ toString (UInt32.ofNat ordinal).toNat
      kind := .char
      usage := .constant
      length := 0
      decimals := 0
      position := f.position
      conditions := f.conditions.conditions
      keywords := f.keywords.map DraftKeyword.keyword
      value := String.ofList text.chars }

/-- How many constants the field is. -/
def constants (f : DraftField) : Nat :=
  match f.content with
  | .declared .. => 0
  | .constant _ => 1

end DraftField

/-- How many constants fields have. -/
def constantsOfDrafts : List DraftField → Nat
  | [] => 0
  | f :: fs => f.constants + constantsOfDrafts fs

/-- The fields that are meant, after some number of constants. -/
def fieldsOfDrafts (constants : Nat) : List DraftField → List Field
  | [] => []
  | f :: fs => f.field (constants + 1) :: fieldsOfDrafts (constants + f.constants) fs

namespace DraftRecord

/-- How many constants the record has. -/
def constants (r : DraftRecord) : Nat := constantsOfDrafts r.fields

/-- The format that is meant, with its record line on line `start`. -/
def format (start constants : Nat) (r : DraftRecord) : RecordFormat :=
  RecordFormat.resolveWindow
    { name := String.ofList r.name.chars
      lines := { start, stop := start + r.rows.length }
      isWindow := false
      windowReference := none
      window := Window.screen
      keywords := r.keywords.map DraftKeyword.keyword
      fields := fieldsOfDrafts constants r.fields }

end DraftRecord

/-- The formats that are meant, from line `start` on. -/
def formatsOfDrafts (start constants : Nat) : List DraftRecord → List RecordFormat
  | [] => []
  | r :: rs =>
    r.format start constants :: formatsOfDrafts (start + r.rows.length) (constants + r.constants) rs

/-- The member that is meant. -/
def Draft.member (d : Draft) : Member :=
  { formats :=
      RecordFormat.resolveWindow
        { name := RecordFormat.globalName
          lines := { start := 0, stop := d.keywords.length }
          isWindow := false
          windowReference := none
          window := Window.screen
          keywords := d.keywords.map DraftKeyword.keyword
          fields := [] } ::
        formatsOfDrafts d.keywords.length 0 d.records }

end DisplayFile

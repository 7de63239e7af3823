import DisplayFile.Json.Reader
import DisplayFile.Text.Pieces
import DisplayFile.Toml.Basic

/-!
# Reading TOML

A document is read expression by expression. An expression is a header or a key with its value and
has a line to itself, but a value may go over several lines.

Values are read by recursion on `fuel`, of which each reader uses one for every item, so the length
of the text is enough. Dates, times and numbers are read as one token of the characters that can
stand in them, which is then judged as a whole; none of these characters can follow a value.
-/

namespace DisplayFile.Toml

/-- The result of a reader. With what it has read it returns the rest of the text. -/
abbrev Result := Except Error

/-! ### Blanks, comments and lines -/

/-- A blank within a line. -/
def isBlank (c : Char) : Bool := c = ' ' || c = '\t'

/-- The text after the blanks it starts with. -/
def skipBlanks (cs : List Char) : List Char := cs.dropWhile isBlank

/-- A character that may stand in a comment. -/
def isCommentChar (c : Char) : Bool :=
  c = '\t' || (' ' ≤ c && c ≤ '~') || 0x80 ≤ c.toNat

/-- The text after the comment it starts with, if it does. -/
def skipComment : List Char → List Char
  | '#' :: cs => cs.dropWhile isCommentChar
  | cs => cs

/-- The text after the end of line it starts with, if it does. -/
def afterLineEnd? : List Char → Option (List Char)
  | '\n' :: cs => some cs
  | '\r' :: '\n' :: cs => some cs
  | _ => none

/-- The failure to read on. -/
def unexpected {α : Type} : List Char → Result α
  | [] => .error .endOfText
  | c :: _ => .error (.unexpected c)

/-- Read the end of an expression: blanks, a comment, and the end of the line or of the text. -/
def endExpression (cs : List Char) : Result (List Char) :=
  let rest := skipComment (skipBlanks cs)
  match afterLineEnd? rest with
  | some rest => .ok rest
  | none => if rest.isEmpty then .ok [] else unexpected rest

/-- The text after blanks, comments and ends of lines. A comment has to be ended. -/
def skipLines : Nat → List Char → Result (List Char)
  | 0, cs => .ok cs
  | fuel + 1, cs =>
    let rest := skipBlanks cs
    match rest with
    | '#' :: _ =>
      match afterLineEnd? (skipComment rest) with
      | some rest => skipLines fuel rest
      | none => unexpected (skipComment rest)
    | _ =>
      match afterLineEnd? rest with
      | some rest => skipLines fuel rest
      | none => .ok rest

/-! ### Strings -/

/-- The kinds of strings. -/
structure Quoting where
  quote : Char
  /-- A backslash starts an escape. -/
  hasEscapes : Bool
  /-- The string may go over several lines and has three quotes at each end. -/
  hasLines : Bool
deriving DecidableEq, Repr

/-- A character that may stand for itself in a string. -/
def isStringChar (c : Char) : Bool := isCommentChar c

/-- The value of hexadecimal digits. -/
def hexValue? (digits : List Char) : Option Nat :=
  digits.foldlM (fun n c ↦ (Json.hexValue? c).map fun d ↦ n * 16 + d) 0

/-- The character with a code point. -/
def scalar? (digits : List Char) : Option Char :=
  (hexValue? digits).bind fun n ↦ if h : n.isValidChar then some (Char.ofNatAux n h) else none

/-- The character of an escape by one letter. -/
def unescape? (c : Char) : Option Char :=
  if c = '/' then none else Json.unescape? c

/-- The blanks and ends of lines after a backslash that ends a line are passed over. -/
def startsBlankLine (cs : List Char) : Bool :=
  (afterLineEnd? (skipBlanks cs)).isSome

/-- Read a string after its opening quotes, up to and with its closing ones. `acc` has the
characters read before, and `passing` is set after a backslash that ended a line. -/
def readString (q : Quoting) (passing : Bool) (acc : String) :
    List Char → Result (String × List Char)
  | [] => .error .endOfText
  | c :: cs =>
    if passing && (isBlank c || c = '\n' || (c = '\r' && cs.head? = some '\n')) then
      readString q true acc cs
    else if c = q.quote then
      if q.hasLines then
        -- Up to two quotes before the closing three belong to the string.
        let run := ((c :: cs).takeWhile (· = q.quote)).length
        if 3 ≤ run then
          let inner := min (run - 3) 2
          .ok (acc ++ String.ofList (List.replicate inner q.quote), (c :: cs).drop (inner + 3))
        else readString q false (acc.push c) cs
      else .ok (acc, cs)
    else if c = '\\' ∧ q.hasEscapes then
      match cs with
      | 'u' :: x₁ :: x₂ :: x₃ :: x₄ :: rest =>
        match scalar? [x₁, x₂, x₃, x₄] with
        | some c => readString q false (acc.push c) rest
        | none => .error .badEscape
      | 'U' :: x₁ :: x₂ :: x₃ :: x₄ :: x₅ :: x₆ :: x₇ :: x₈ :: rest =>
        match scalar? [x₁, x₂, x₃, x₄, x₅, x₆, x₇, x₈] with
        | some c => readString q false (acc.push c) rest
        | none => .error .badEscape
      | e :: rest =>
        match unescape? e with
        | some c => readString q false (acc.push c) rest
        | none =>
          if q.hasLines && startsBlankLine (e :: rest) then readString q true acc (e :: rest)
          else .error .badEscape
      | [] => .error .endOfText
    else if c = '\n' ∨ (c = '\r' ∧ cs.head? = some '\n') then
      if q.hasLines then readString q false (acc.push c) cs else .error (.unexpected c)
    else if isStringChar c then readString q false (acc.push c) cs
    else .error (.unexpected c)

/-- Read a string that may go over several lines, after its opening quotes. An end of line right
after them does not belong to it. -/
def readLines (q : Quoting) (cs : List Char) : Result (String × List Char) :=
  readString q false "" ((afterLineEnd? cs).getD cs)

/-! ### Keys -/

/-- A character that may stand in a key without quotes. -/
def isKeyChar (c : Char) : Bool :=
  c.isAlphanum || c = '_' || c = '-'

/-- Read one part of a key. -/
def readKeyPart : List Char → Result (String × List Char)
  | '"' :: cs => readString ⟨'"', true, false⟩ false "" cs
  | '\'' :: cs => readString ⟨'\'', false, false⟩ false "" cs
  | cs =>
    let part := cs.takeWhile isKeyChar
    if part.isEmpty then unexpected cs else .ok (String.ofList part, cs.drop part.length)

/-- Arrays and tables nest at most this deep, by brackets, by braces or by the parts of a key. -/
def nestingLimit : Nat := 79

/-- Read a dotted key with at most `limit` parts: the parts before the last, and the last. -/
def readKeyParts : Nat → List Char → Result ((List String × String) × List Char)
  | 0, _ => .error .tooDeep
  | limit + 1, cs => do
    let (part, rest) ← readKeyPart (skipBlanks cs)
    match skipBlanks rest with
    | '.' :: rest =>
      let ((path, key), rest) ← readKeyParts limit rest
      return ((part :: path, key), rest)
    | rest => return (([], part), rest)

/-- Read a dotted key. -/
def readKey (cs : List Char) : Result ((List String × String) × List Char) :=
  readKeyParts nestingLimit cs

/-! ### Numbers, dates and times -/

/-- Digits with single underscores between them. -/
def digits? (isDigit : Char → Bool) (cs : List Char) : Option (List Char) :=
  let groups := Text.pieces '_' cs
  if groups.all fun group ↦ !group.isEmpty && group.all isDigit then some groups.flatten else none

/-- The value of digits that follow those of `start`. -/
def valueOf (digits : List Char) (start : Nat) : Nat :=
  digits.foldl (fun n c ↦ n * 10 + Json.digitValue c) start

/-- A token without the sign it may start with. -/
def unsigned : List Char → List Char
  | '+' :: cs | '-' :: cs => cs
  | cs => cs

/-- Decimal digits that do not start with a 0 that could be left out. -/
def decimal? (cs : List Char) : Option Nat := do
  let ds ← digits? Char.isDigit cs
  if ds.head? = some '0' ∧ ds.length ≠ 1 then none else return valueOf ds 0

/-- Digits of a base that is a power of two. -/
def based? (base : Nat) (cs : List Char) : Option Nat := do
  let isDigit := fun c ↦ (Json.hexValue? c).any (· < base)
  let ds ← digits? isDigit cs
  return ds.foldl (fun n c ↦ n * base + (Json.hexValue? c).getD 0) 0

/-- An integer that fits in 64 bits. -/
def integer? (token : List Char) : Option Int :=
  let value : Option Int :=
    match token with
    | '0' :: 'x' :: cs => (based? 16 cs).map Int.ofNat
    | '0' :: 'o' :: cs => (based? 8 cs).map Int.ofNat
    | '0' :: 'b' :: cs => (based? 2 cs).map Int.ofNat
    | '-' :: cs => (decimal? cs).map fun n ↦ -(n : Int)
    | cs => (decimal? (unsigned cs)).map Int.ofNat
  value.filter fun n ↦ Int64.minValue.toInt ≤ n ∧ n ≤ Int64.maxValue.toInt

/-- An exponent with the sign that it may have. -/
def exponent? (cs : List Char) : Option Int := do
  let n := valueOf (← digits? Char.isDigit (unsigned cs)) 0
  return if cs.head? = some '-' then -(n : Int) else n

/-- A number without a sign that has a fraction, an exponent or both: its digits and the power of
ten at which the last of them stands. -/
def decimalFloat? (cs : List Char) : Option (Nat × Int) := do
  let mantissa := cs.takeWhile fun c ↦ c ≠ 'e' && c ≠ 'E'
  let exponent ←
    match cs.drop mantissa.length with
    | [] => some 0
    | _ :: rest => exponent? rest
  match Text.pieces '.' mantissa with
  | [whole] => if mantissa.length = cs.length then none else return (← decimal? whole, exponent)
  | [whole, fraction] =>
    let value ← decimal? whole
    let decimals ← digits? Char.isDigit fraction
    return (valueOf decimals value, exponent - decimals.length)
  | _ => none

/-- Whether a token is a number with a fraction or an exponent, or one of `inf` and `nan`. Below
zero a number may be of any size, but above zero it has to fit in 64 bits. -/
def isFloat (token : List Char) : Bool :=
  let cs := unsigned token
  cs = ['i', 'n', 'f'] || cs = ['n', 'a', 'n'] ||
    (decimalFloat? cs).any fun (digits, power) ↦
      token.head? = some '-' || (Binary64.ofDecimal false digits power).isSome

/-- The value of a field of exactly so many digits. -/
def field? (width : Nat) (cs : List Char) : Option Nat :=
  if cs.length = width ∧ cs.all Char.isDigit then some (valueOf cs 0) else none

/-- The days of a month. -/
def daysIn (year month : Nat) : Nat :=
  if month = 2 then
    if year % 4 = 0 ∧ (year % 100 ≠ 0 ∨ year % 400 = 0) then 29 else 28
  else if month = 4 ∨ month = 6 ∨ month = 9 ∨ month = 11 then 30
  else 31

/-- Whether a token is a date. -/
def isDate (cs : List Char) : Bool :=
  match Text.pieces '-' cs with
  | [year, month, day] =>
    match field? 4 year, field? 2 month, field? 2 day with
    | some y, some m, some d => 1 ≤ m && m ≤ 12 && 1 ≤ d && d ≤ daysIn y m
    | _, _, _ => false
  | _ => false

/-- Whether a token is hours and minutes. -/
def isHourMinute (cs : List Char) : Bool :=
  match Text.pieces ':' cs with
  | [hour, minute] =>
    match field? 2 hour, field? 2 minute with
    | some h, some m => h ≤ 23 && m ≤ 59
    | _, _ => false
  | _ => false

/-- Whether a token is a time of day. -/
def isTime (cs : List Char) : Bool :=
  let clock := cs.take 5
  match cs.drop 5 with
  | ':' :: rest =>
    let second := rest.take 2
    let fraction :=
      match rest.drop 2 with
      | [] => true
      | '.' :: ds => !ds.isEmpty && ds.all Char.isDigit
      | _ => false
    isHourMinute clock && (field? 2 second).any (· ≤ 60) && fraction
  | _ => false

/-- Whether a token is a time of day, with or without its distance from universal time. -/
def isZonedTime (cs : List Char) : Bool :=
  let time := cs.takeWhile fun c ↦ c ≠ 'Z' && c ≠ 'z' && c ≠ '+' && c ≠ '-'
  isTime time &&
    match cs.drop time.length with
    | [] | ['Z'] | ['z'] => true
    | '+' :: offset | '-' :: offset => isHourMinute offset
    | _ => false

/-- Whether a token is a date, a time or both. -/
def isMoment (cs : List Char) : Bool :=
  isDate cs || isTime cs ||
    match cs.drop 10 with
    | 'T' :: time | 't' :: time => isDate (cs.take 10) && isZonedTime time
    | _ => false

/-- The value of a token. -/
def ofToken? (token : List Char) : Option Toml :=
  if token = ['t', 'r', 'u', 'e'] then some (.boolean true)
  else if token = ['f', 'a', 'l', 's', 'e'] then some (.boolean false)
  else
    match integer? token with
    | some n => some (.integer n)
    | none =>
      if isFloat token then some .float
      else if isMoment token then some .moment
      else none

/-- A character that may stand in a number, a date or a time. -/
def isTokenChar (c : Char) : Bool :=
  isKeyChar c || c = '+' || c = '.' || c = ':'

/-- Read a value that is one token. A date may have its time after a space. -/
def readToken (cs : List Char) : Result (Toml × List Char) :=
  let token := cs.takeWhile isTokenChar
  let rest := cs.drop token.length
  let time := (rest.drop 1).takeWhile isTokenChar
  if token.isEmpty then unexpected cs
  else if isDate token && rest.head? = some ' ' && isZonedTime time then
    .ok (.moment, (rest.drop 1).drop time.length)
  else
    match ofToken? token with
    | some value => .ok (value, rest)
    | none => .error (.badValue (String.ofList token))

/-! ### Values -/

mutual

/-- Read a value, with at most `depth` containers inside each other. -/
def readValue : Nat → Nat → List Char → Result (Toml × List Char)
  | 0, _, _ => .error .endOfText
  | fuel + 1, depth, cs =>
    match cs with
    | '"' :: '"' :: '"' :: rest => do
      let (s, rest) ← readLines ⟨'"', true, true⟩ rest
      return (.string s, rest)
    | '\'' :: '\'' :: '\'' :: rest => do
      let (s, rest) ← readLines ⟨'\'', false, true⟩ rest
      return (.string s, rest)
    | '"' :: rest => do
      let (s, rest) ← readString ⟨'"', true, false⟩ false "" rest
      return (.string s, rest)
    | '\'' :: rest => do
      let (s, rest) ← readString ⟨'\'', false, false⟩ false "" rest
      return (.string s, rest)
    | '[' :: rest =>
      match depth with
      | 0 => .error .tooDeep
      | depth + 1 => do
        let (items, rest) ← readItems fuel depth #[] rest
        return (.array items, rest)
    | '{' :: rest =>
      match depth with
      | 0 => .error .tooDeep
      | depth + 1 =>
        match skipBlanks rest with
        | '}' :: rest => .ok (.table .closed [], rest)
        | rest => do
          let (members, rest) ← readMembers fuel depth [] rest
          return (.table .closed members, rest)
    | cs => readToken cs

/-- Read items and the bracket that closes them. `acc` has the items read before. -/
def readItems : Nat → Nat → Array Toml → List Char → Result (List Toml × List Char)
  | 0, _, _, _ => .error .endOfText
  | fuel + 1, depth, acc, cs => do
    let rest ← skipLines (fuel + 1) cs
    match rest with
    | ']' :: rest => return (acc.toList, rest)
    | _ =>
      let (item, rest) ← readValue fuel depth rest
      let rest ← skipLines (fuel + 1) rest
      match rest with
      | ',' :: rest => readItems fuel depth (acc.push item) rest
      | ']' :: rest => return ((acc.push item).toList, rest)
      | rest => unexpected rest

/-- Read the members of a table in braces and the brace that closes it. `acc` has the members read
before. -/
def readMembers : Nat → Nat → Members → List Char → Result (Members × List Char)
  | 0, _, _, _ => .error .endOfText
  | fuel + 1, depth, acc, cs => do
    let ((path, key), rest) ← readKey cs
    match skipBlanks rest with
    | '=' :: rest =>
      let (value, rest) ← readValue fuel depth (skipBlanks rest)
      let acc ← addKey acc path key value
      match skipBlanks rest with
      | ',' :: rest => readMembers fuel depth acc rest
      | '}' :: rest => return (acc, rest)
      | rest => unexpected rest
    | rest => unexpected rest

end

/-! ### Documents -/

/-- A document read up to some point. -/
structure Document where
  members : Members := []
  /-- The path of the table that the last header has opened. -/
  header : List String := []

/-- Read a header after its opening brackets. -/
def readHeader (doc : Document) (isElement : Bool) (cs : List Char) :
    Result (Document × List Char) := do
  let ((path, key), rest) ← readKey cs
  let opened := if isElement then openElement else openTable
  let rest ←
    match skipBlanks rest, isElement with
    | ']' :: ']' :: rest, true => endExpression rest
    | ']' :: rest, false => endExpression rest
    | rest, _ => unexpected rest
  return ({ members := ← opened doc.members path key, header := path ++ [key] }, rest)

/-- Read a key with its value. -/
def readKeyValue (doc : Document) (cs : List Char) : Result (Document × List Char) := do
  let ((path, key), rest) ← readKey cs
  match skipBlanks rest with
  | '=' :: rest =>
    let (value, rest) ← readValue (rest.length + 1) nestingLimit (skipBlanks rest)
    let rest ← endExpression rest
    return ({ doc with members := ← addUnder doc.members doc.header path key value }, rest)
  | rest => unexpected rest

/-- Read the expressions of a document. -/
def readExpressions : Nat → Document → List Char → Result Document
  | 0, doc, _ => .ok doc
  | fuel + 1, doc, cs =>
    match skipBlanks cs with
    | [] => .ok doc
    | '[' :: '[' :: rest => do
      let (doc, rest) ← readHeader doc true rest
      readExpressions fuel doc rest
    | '[' :: rest => do
      let (doc, rest) ← readHeader doc false rest
      readExpressions fuel doc rest
    | c :: rest =>
      if isKeyChar c ∨ c = '"' ∨ c = '\'' then do
        let (doc, rest) ← readKeyValue doc (c :: rest)
        readExpressions fuel doc rest
      else do
        let rest ← endExpression (c :: rest)
        readExpressions fuel doc rest

/-- Read a document. A byte order mark in front of it does not count. -/
def read (source : String) : Result Members := do
  let cs :=
    match source.toList with
    | '\uFEFF' :: cs => cs
    | cs => cs
  return (← readExpressions (cs.length + 1) {} cs).members

end DisplayFile.Toml

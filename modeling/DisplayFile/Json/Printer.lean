import DisplayFile.Json.Basic

/-!
# Writing JSON

A value is written on one line (`compact`) or over several, each level two columns further in
(`pretty`). Both come from one printer, which is given the layout: what stands where a line may
break, and what follows a colon.

In strings a quote, a backslash and the control characters below U+0020 are escaped, and nothing
else is. Integers are written in decimal. A binary number has the shortest digits that read back to
it, with a point as long as its first digit is among the 16 places before the point or the 5 after,
and with an exponent otherwise.
-/

namespace DisplayFile.Json

/-- How a value is laid out. -/
structure Layout where
  /-- What stands before an item at a level, and before the bracket that closes it. -/
  lineBreak : Nat → String
  /-- What stands between a key and its value. -/
  colon : String

/-- Everything on one line. -/
def Layout.compact : Layout :=
  { lineBreak := fun _ ↦ "", colon := ":" }

/-- Every item on a line of its own. -/
def Layout.pretty : Layout :=
  { lineBreak := fun level ↦ "\n" ++ String.ofList (List.replicate (2 * level) ' ')
    colon := ": " }

/-! ### Strings -/

/-- A hexadecimal digit. -/
def hexDigit (n : Nat) : Char :=
  if n < 10 then Char.ofNat ('0'.toNat + n) else Char.ofNat ('a'.toNat + (n - 10))

/-- A character as it is written in a string. -/
def escape (c : Char) : List Char :=
  if c = '"' then ['\\', '"']
  else if c = '\\' then ['\\', '\\']
  else if c = '\x08' then ['\\', 'b']
  else if c = '\x0C' then ['\\', 'f']
  else if c = '\n' then ['\\', 'n']
  else if c = '\r' then ['\\', 'r']
  else if c = '\t' then ['\\', 't']
  else if c.toNat < 0x20 then
    ['\\', 'u', '0', '0', hexDigit (c.toNat / 16), hexDigit (c.toNat % 16)]
  else [c]

/-- A string as it is written, with its quotes. -/
def quote (s : String) : String :=
  String.ofList ('"' :: s.toList.flatMap escape ++ ['"'])

/-! ### Numbers -/

/-- So many zeros. -/
def zeros (n : Nat) : List Char := List.replicate n '0'

/-- Digits with a point after the first `n` of them. -/
def pointed (digits : List Char) (n : Nat) : List Char :=
  digits.take n ++ '.' :: digits.drop n

/-- An exponent as it is written, always with its sign. -/
def exponentText (e : Int) : List Char :=
  (if e < 0 then '-' else '+') :: (toString e.natAbs).toList

/-- The decimal text of the number that has these digits, the last of them at the power `k` of
ten. -/
def decimalText (digits : List Char) (k : Int) : List Char :=
  -- The number of digits before the point.
  let whole := digits.length + k
  if 0 ≤ k ∧ whole ≤ 16 then pointed (digits ++ zeros k.toNat ++ ['0']) whole.toNat
  else if 0 < whole ∧ whole ≤ 16 then pointed digits whole.toNat
  else if -5 < whole ∧ whole ≤ 0 then pointed ('0' :: zeros (-whole).toNat ++ digits) 1
  else
    (if digits.length = 1 then digits else pointed digits 1) ++ 'e' :: exponentText (whole - 1)

/-- A binary number as it is written. -/
def binaryText (x : Binary64) : String :=
  let sign := if x.negative then ['-'] else []
  if x.mantissa = 0 then String.ofList (sign ++ ['0', '.', '0'])
  else
    let (digits, k) := x.shortest
    String.ofList (sign ++ decimalText (toString digits).toList k)

/-- A number as it is written. -/
def numberText : Number → String
  | .integer n => toString n
  | .binary x => binaryText x

/-! ### Values -/

/-- Parts in brackets at a level. -/
def enclose (layout : Layout) (level : Nat) (opening closing : String) : List String → String
  | [] => opening ++ closing
  | parts =>
    let item := layout.lineBreak (level + 1)
    opening ++ item ++ String.intercalate ("," ++ item) parts ++ layout.lineBreak level ++ closing

mutual

/-- A value as it is written at a level. -/
def text (layout : Layout) (level : Nat) : Json → String
  | .null => "null"
  | .bool b => if b then "true" else "false"
  | .number n => numberText n
  | .string s => quote s
  | .array items => enclose layout level "[" "]" (itemTexts layout (level + 1) items)
  | .object members => enclose layout level "\x7b" "\x7d" (memberTexts layout (level + 1) members)

/-- Items as they are written. -/
def itemTexts (layout : Layout) (level : Nat) : List Json → List String
  | [] => []
  | item :: rest => text layout level item :: itemTexts layout level rest

/-- Members as they are written. -/
def memberTexts (layout : Layout) (level : Nat) : List (String × Json) → List String
  | [] => []
  | (key, value) :: rest =>
    (quote key ++ layout.colon ++ text layout level value) :: memberTexts layout level rest

end

/-- A value on one line. -/
def compact (j : Json) : String := j.text .compact 0

/-- A value over several lines. -/
def pretty (j : Json) : String := j.text .pretty 0

end DisplayFile.Json

import DisplayFile.Json.Basic

/-!
# Reading JSON

The reader takes exactly the texts of the JSON grammar: no comments, no trailing commas, no leading
zeros, no control characters in strings, no half of a surrogate pair. Nesting is limited, so that
no text asks for unbounded depth. Of several members with one key the last one counts.

An integer that fits in 64 bits, signed or unsigned, is kept as it is. Any other number becomes a
binary one. Its digits are first gathered into a significand of 64 bits: digits of the whole part
are taken as long as they fit, then digits of the fraction, and where a digit does not fit the rest
of that part is left out. The significand is then scaled by one power of ten, in the arithmetic of
the binary format, and a number too large for it is refused.

The readers for values, items and members call each other and are bounded by `fuel`, of which each
call uses one. A call that does not read a character is followed by one that does, so twice the
length of the text is enough.
-/

namespace DisplayFile.Json

/-- Why a text is not JSON. -/
inductive ReadError where
  | endOfText
  | unexpected (c : Char)
  | badEscape
  | loneSurrogate
  | badNumber
  | numberTooLarge
  | tooDeep
  | trailing (c : Char)
deriving DecidableEq, Repr

/-- What a failure to read says. -/
def ReadError.message : ReadError → String
  | endOfText => "unexpected end of text"
  | unexpected c => s!"unexpected character {c.quote}"
  | badEscape => "invalid escape"
  | loneSurrogate => "half of a surrogate pair"
  | badNumber => "invalid number"
  | numberTooLarge => "number out of range"
  | tooDeep => "nesting too deep"
  | trailing c => s!"unexpected character {c.quote} after the value"

/-- The result of a reader. With what it has read it returns the rest of the text. -/
abbrev Result := Except ReadError

/-- The characters that may stand between the parts of a value. -/
def isBlank (c : Char) : Bool :=
  c = ' ' || c = '\t' || c = '\n' || c = '\r'

/-- The text after the blanks it starts with. -/
def skipBlanks (cs : List Char) : List Char :=
  cs.dropWhile isBlank

/-! ### Strings -/

/-- The value of a hexadecimal digit. -/
def hexValue? (c : Char) : Option Nat :=
  if c.isDigit then some (c.toNat - '0'.toNat)
  else if 'a' ≤ c ∧ c ≤ 'f' then some (c.toNat - 'a'.toNat + 10)
  else if 'A' ≤ c ∧ c ≤ 'F' then some (c.toNat - 'A'.toNat + 10)
  else none

/-- The value of four hexadecimal digits. -/
def unit? (a b c d : Char) : Option Nat := do
  let a ← hexValue? a
  let b ← hexValue? b
  let c ← hexValue? c
  let d ← hexValue? d
  return ((a * 16 + b) * 16 + c) * 16 + d

/-- The first half of a surrogate pair. -/
def isHighSurrogate (n : Nat) : Bool := 0xD800 ≤ n && n < 0xDC00

/-- The second half of a surrogate pair. -/
def isLowSurrogate (n : Nat) : Bool := 0xDC00 ≤ n && n < 0xE000

/-- The character of a surrogate pair. -/
def joinSurrogates (high low : Nat) : Char :=
  Char.ofNat (0x10000 + (high - 0xD800) * 0x400 + (low - 0xDC00))

/-- The character of an escape by one letter. -/
def unescape? (c : Char) : Option Char :=
  match c with
  | '"' => some '"'
  | '\\' => some '\\'
  | '/' => some '/'
  | 'b' => some '\x08'
  | 'f' => some '\x0C'
  | 'n' => some '\n'
  | 'r' => some '\r'
  | 't' => some '\t'
  | _ => none

/-- Read a string after its opening quote, up to and with its closing one. `acc` has the characters
read before. -/
def readString (acc : String) : List Char → Result (String × List Char)
  | [] => .error .endOfText
  | '"' :: cs => .ok (acc, cs)
  | '\\' :: 'u' :: a :: b :: c :: d :: cs =>
    match unit? a b c d with
    | none => .error .badEscape
    | some n =>
      if isHighSurrogate n then
        match cs with
        | '\\' :: 'u' :: a' :: b' :: c' :: d' :: cs =>
          match unit? a' b' c' d' with
          | none => .error .badEscape
          | some m =>
            if isLowSurrogate m then readString (acc.push (joinSurrogates n m)) cs
            else .error .loneSurrogate
        | _ => .error .loneSurrogate
      else if isLowSurrogate n then .error .loneSurrogate
      else readString (acc.push (Char.ofNat n)) cs
  | '\\' :: c :: cs =>
    match unescape? c with
    | none => .error .badEscape
    | some c => readString (acc.push c) cs
  | c :: cs =>
    if c.toNat < 0x20 then .error (.unexpected c) else readString (acc.push c) cs

/-! ### Numbers -/

/-- The value of a digit. -/
def digitValue (c : Char) : Nat := c.toNat - '0'.toNat

/-- Significands are below this bound. -/
def significandBound : Nat := UInt64.size

/-- Add digits to a significand as long as it stays within its bound. The second number is how many
digits were added. -/
def gather (significand : Nat) : List Char → Nat × Nat
  | [] => (significand, 0)
  | c :: cs =>
    let next := significand * 10 + digitValue c
    if next < significandBound then
      let (value, count) := gather next cs
      (value, count + 1)
    else (significand, 0)

/-- The parts of a number as it is written. -/
structure NumberText where
  negative : Bool
  whole : List Char
  /-- The digits after the point, none if there is no point. -/
  fraction : List Char
  /-- The exponent, 0 if none is written. -/
  exponent : Int
  /-- No point and no exponent is written. -/
  isInteger : Bool

/-- A power of ten in the binary format, up to the greatest one that it holds. -/
def powerOfTen (n : Nat) : Option Binary64 :=
  Binary64.ofRatio false (Nat.pow 10 n) 1

/-- The greatest power of ten in the binary format. -/
def greatestPower : Nat := 308

/-- Divide a number by the greatest power of ten `count` times, or until nothing of it is left. -/
def divideOut : Nat → Binary64 → Option Binary64
  | 0, x => some x
  | count + 1, x =>
    if x.mantissa = 0 then some x
    else ((powerOfTen greatestPower).bind x.div).bind (divideOut count)

/-- Multiply a number by a power of ten. A negative power beyond the greatest one is divided out in
steps of that. -/
def scale (x : Binary64) (exponent : Int) : Option Binary64 :=
  if x.mantissa = 0 then some x
  else if 0 ≤ exponent then
    if exponent ≤ greatestPower then (powerOfTen exponent.toNat).bind x.mul else none
  else
    let power := (-exponent).toNat
    let steps := (power - 1) / greatestPower
    (divideOut steps x).bind fun y ↦ (powerOfTen (power - steps * greatestPower)).bind y.div

namespace NumberText

/-- The binary number that a text stands for. -/
def binary? (t : NumberText) : Option Binary64 :=
  let (whole, taken) := gather 0 t.whole
  let (significand, decimals) := gather whole t.fraction
  let exponent : Int := t.exponent + (t.whole.length - taken : Nat) - decimals
  (Binary64.ofRatio false significand 1).bind fun x ↦
    (scale x exponent).map fun y ↦ { y with negative := t.negative }

/-- The integer that a text stands for, if it is written as one and fits in 64 bits. There is no
negative zero among the integers. -/
def integer? (t : NumberText) : Option Int :=
  let n := t.whole.foldl (fun n c ↦ n * 10 + digitValue c) 0
  if !t.isInteger then none
  else if !t.negative then
    if n < UInt64.size then some (n : Int) else none
  else if n = 0 then none
  else if Int64.minValue.toInt ≤ -(n : Int) then some (-(n : Int))
  else none

/-- The number that a text stands for. -/
def number (t : NumberText) : Result Number :=
  match t.integer? with
  | some n => .ok (.integer n)
  | none =>
    match t.binary? with
    | some x => .ok (.binary x)
    | none => .error .numberTooLarge

end NumberText

/-- The digits at the start of a text, of which there has to be one, and the rest. -/
def readDigits (cs : List Char) : Result (List Char × List Char) :=
  let digits := cs.takeWhile Char.isDigit
  if digits.isEmpty then .error .badNumber else .ok (digits, cs.drop digits.length)

/-- Read the whole part of a number: 0, or digits of which the first is not 0. -/
def readWhole (cs : List Char) : Result (List Char × List Char) := do
  let (digits, rest) ← readDigits cs
  if digits.head? = some '0' ∧ digits.length ≠ 1 then .error .badNumber else .ok (digits, rest)

/-- Read the fraction of a number, if there is one. -/
def readFraction : List Char → Result (Option (List Char) × List Char)
  | '.' :: cs => do
    let (digits, rest) ← readDigits cs
    return (some digits, rest)
  | cs => .ok (none, cs)

/-- Read an exponent after its mark. -/
def readExponentValue (cs : List Char) : Result (Int × List Char) := do
  let (negative, cs) := match cs with
    | '-' :: cs => (true, cs)
    | '+' :: cs => (false, cs)
    | cs => (false, cs)
  let (digits, rest) ← readDigits cs
  let n : Int := (digits.foldl (fun n c ↦ n * 10 + digitValue c) 0 : Nat)
  return (if negative then -n else n, rest)

/-- Read the exponent of a number, if there is one. -/
def readExponent : List Char → Result (Option Int × List Char)
  | 'e' :: cs | 'E' :: cs => do
    let (n, rest) ← readExponentValue cs
    return (some n, rest)
  | cs => .ok (none, cs)

/-- Read a number. -/
def readNumber (cs : List Char) : Result (Number × List Char) := do
  let (negative, cs) := match cs with
    | '-' :: cs => (true, cs)
    | cs => (false, cs)
  let (whole, cs) ← readWhole cs
  let (fraction, cs) ← readFraction cs
  let (exponent, cs) ← readExponent cs
  let n ← NumberText.number
    { negative
      whole
      fraction := fraction.getD []
      exponent := exponent.getD 0
      isInteger := fraction.isNone && exponent.isNone }
  return (n, cs)

/-! ### Values -/

/-- Containers nest at most this deep. -/
def nestingLimit : Nat := 127

/-- Read a character that has to stand here, after blanks. -/
def expect (c : Char) (cs : List Char) : Result (List Char) :=
  match skipBlanks cs with
  | [] => .error .endOfText
  | d :: rest => if d = c then .ok rest else .error (.unexpected d)

mutual

/-- Read a value, with at most `depth` containers inside each other. -/
def readValue : Nat → Nat → List Char → Result (Json × List Char)
  | 0, _, _ => .error .endOfText
  | fuel + 1, depth, cs =>
    match skipBlanks cs with
    | [] => .error .endOfText
    | 'n' :: 'u' :: 'l' :: 'l' :: rest => .ok (.null, rest)
    | 't' :: 'r' :: 'u' :: 'e' :: rest => .ok (.bool true, rest)
    | 'f' :: 'a' :: 'l' :: 's' :: 'e' :: rest => .ok (.bool false, rest)
    | '"' :: rest => do
      let (s, rest) ← readString "" rest
      return (.string s, rest)
    | '[' :: rest =>
      match depth with
      | 0 => .error .tooDeep
      | depth + 1 =>
        match skipBlanks rest with
        | ']' :: rest => .ok (.array [], rest)
        | rest => do
          let (items, rest) ← readItems fuel depth #[] rest
          return (.array items, rest)
    | '{' :: rest =>
      match depth with
      | 0 => .error .tooDeep
      | depth + 1 =>
        match skipBlanks rest with
        | '}' :: rest => .ok (.object [], rest)
        | rest => do
          let (members, rest) ← readMembers fuel depth [] rest
          return (.object members, rest)
    | c :: rest =>
      if c = '-' ∨ c.isDigit then do
        let (n, rest) ← readNumber (c :: rest)
        return (.number n, rest)
      else .error (.unexpected c)

/-- Read items and the bracket that closes them. `acc` has the items read before. -/
def readItems : Nat → Nat → Array Json → List Char → Result (List Json × List Char)
  | 0, _, _, _ => .error .endOfText
  | fuel + 1, depth, acc, cs => do
    let (item, rest) ← readValue fuel depth cs
    match skipBlanks rest with
    | ',' :: rest => readItems fuel depth (acc.push item) rest
    | ']' :: rest => return ((acc.push item).toList, rest)
    | c :: _ => .error (.unexpected c)
    | [] => .error .endOfText

/-- Read members and the bracket that closes them. `acc` has the members read before. -/
def readMembers : Nat → Nat → Members → List Char → Result (Members × List Char)
  | 0, _, _, _ => .error .endOfText
  | fuel + 1, depth, acc, cs => do
    let rest ← expect '"' cs
    let (key, rest) ← readString "" rest
    let rest ← expect ':' rest
    let (value, rest) ← readValue fuel depth rest
    match skipBlanks rest with
    | ',' :: rest => readMembers fuel depth (insert key value acc) rest
    | '}' :: rest => return (insert key value acc, rest)
    | c :: _ => .error (.unexpected c)
    | [] => .error .endOfText

end

/-- Read a text that is one JSON value. -/
def read (source : String) : Result Json := do
  let cs := source.toList
  let (value, rest) ← readValue (2 * cs.length + 2) nestingLimit cs
  match skipBlanks rest with
  | [] => return value
  | c :: _ => .error (.trailing c)

end DisplayFile.Json

/-!
# UTF-8

Members transferred from a host are not always valid UTF-8, and must still be read. The decoder
runs over the bytes with a state of what is owed: the value gathered so far, the number of
continuation bytes still to come, and the least and the greatest byte that may come next. A byte
outside these bounds ends the sequence as malformed and is then read afresh, so each malformed
item stands for one longest prefix of a well-formed sequence, or for one byte that starts none.

The same items serve both readings. `decodeLossy` writes U+FFFD for a malformed item; `decode?`
refuses a text that holds one.
-/

namespace DisplayFile.Text.Utf8

/-- A sequence begun and not yet complete. -/
structure Pending where
  /-- The bits gathered so far. -/
  value : Nat
  /-- Continuation bytes still to come after the next one. -/
  after : Nat
  /-- The least byte that may come next. -/
  low : UInt8 := 0x80
  /-- The greatest byte that may come next. -/
  high : UInt8 := 0xBF
deriving DecidableEq, Repr

/-- What a byte means at the start of a sequence. -/
inductive Start where
  /-- The byte is a whole character. -/
  | character (c : Char)
  /-- The byte starts a sequence. -/
  | sequence (pending : Pending)
  /-- No sequence starts with the byte. -/
  | malformed
deriving DecidableEq, Repr

/-- Read a byte at the start of a sequence. The bounds of the second byte keep out overlong forms,
surrogates and values above U+10FFFF. -/
def start (b : UInt8) : Start :=
  if b < 0x80 then .character (Char.ofNat b.toNat)
  else if b < 0xC2 then .malformed
  else if b < 0xE0 then .sequence { value := b.toNat - 0xC0, after := 0 }
  else if b = 0xE0 then .sequence { value := 0, after := 1, low := 0xA0 }
  else if b = 0xED then .sequence { value := 0xD, after := 1, high := 0x9F }
  else if b < 0xF0 then .sequence { value := b.toNat - 0xE0, after := 1 }
  else if b = 0xF0 then .sequence { value := 0, after := 2, low := 0x90 }
  else if b < 0xF4 then .sequence { value := b.toNat - 0xF0, after := 2 }
  else if b = 0xF4 then .sequence { value := 4, after := 2, high := 0x8F }
  else .malformed

/-- The items decoded so far, a malformed one being `none`, and the sequence under way. -/
structure Decoder where
  items : Array (Option Char) := #[]
  pending : Option Pending := none
deriving Repr

/-- Add a decoded item. -/
def Decoder.item (d : Decoder) (c : Option Char) : Decoder :=
  { items := d.items.push c }

/-- Read a byte between sequences. -/
def Decoder.fresh (d : Decoder) (b : UInt8) : Decoder :=
  match start b with
  | .character c => d.item (some c)
  | .sequence p => { d with pending := some p }
  | .malformed => d.item none

/-- Read one byte. -/
def Decoder.step (d : Decoder) (b : UInt8) : Decoder :=
  match d.pending with
  | none => d.fresh b
  | some p =>
    if p.low ≤ b ∧ b ≤ p.high then
      let value := p.value * 64 + (b.toNat - 0x80)
      match p.after with
      | 0 => d.item (some (Char.ofNat value))
      | n + 1 => { d with pending := some { value, after := n } }
    else
      (d.item none).fresh b

/-- Close the text: a sequence still under way is malformed. -/
def Decoder.finish (d : Decoder) : Array (Option Char) :=
  match d.pending with
  | none => d.items
  | some _ => d.items.push none

/-- The items of a byte string. -/
def items (bytes : List UInt8) : List (Option Char) :=
  (bytes.foldl Decoder.step {}).finish.toList

/-- What is written for a malformed item. -/
def replacement : Char := '\uFFFD'

/-- Decode any bytes, with one replacement character for each malformed item. -/
def decodeLossy (bytes : ByteArray) : String :=
  String.ofList ((items bytes.data.toList).map fun item ↦ item.getD replacement)

/-- Decode bytes that are valid UTF-8, and refuse others. -/
def decode? (bytes : ByteArray) : Option String :=
  ((items bytes.data.toList).mapM id).map String.ofList

end DisplayFile.Text.Utf8

import DisplayFile.Text.Utf8
import Mathlib.Data.UInt

/-!
# UTF-8 read back

A text that is written in UTF-8 is read back as it is, by both readings (`decode?_toUTF8`,
`decodeLossy_toUTF8`). Every character is written as a first byte and up to three continuation
bytes, each of which carries six more bits of its number. So a decoder that owes some bytes has the
number without their bits (`Decoder.step_continuation`). The bounds that the decoder puts on a
second byte keep out overlong forms, surrogates and numbers that are too large, and the number of a
character is none of these (`start_three`, `start_four`).
-/

namespace DisplayFile.Text.Utf8

/-! ### Continuation bytes -/

/-- The byte that carries the last six bits of a number. -/
def continuation (n : Nat) : UInt8 := UInt8.ofNat (n % 64 + 0x80)

theorem toNat_continuation (n : Nat) : (continuation n).toNat = n % 64 + 0x80 := by
  rw [continuation, UInt8.toNat_ofNat']
  omega

/-- The sequence allows the byte next. -/
def Pending.Allows (p : Pending) (b : UInt8) : Prop :=
  p.low.toNat ≤ b.toNat ∧ b.toNat ≤ p.high.toNat

/-- A sequence with no bounds of its own allows every continuation byte. -/
theorem allows_continuation (value after n : Nat) :
    Pending.Allows { value, after } (continuation n) := by
  rw [Pending.Allows, toNat_continuation]
  show 0x80 ≤ n % 64 + 0x80 ∧ n % 64 + 0x80 ≤ 0xBF
  omega

namespace Decoder

variable {items : Array (Option Char)} {p : Pending} {n : Nat}

/-- The last byte of a sequence completes the number of a character. -/
theorem step_continuation_last (hvalue : p.value = n / 64) (hafter : p.after = 0)
    (hallows : p.Allows (continuation n)) :
    step { items, pending := some p } (continuation n) =
      { items := items.push (some (Char.ofNat n)) } := by
  have hbounds : p.low ≤ continuation n ∧ continuation n ≤ p.high := hallows
  have hn : n / 64 * 64 + (n % 64 + 0x80 - 0x80) = n := by omega
  simp only [step]
  rw [if_pos hbounds, toNat_continuation, hvalue, hn, hafter]
  rfl

/-- Any other byte of a sequence adds its bits to the number. -/
theorem step_continuation {after : Nat} (hvalue : p.value = n / 64) (hafter : p.after = after + 1)
    (hallows : p.Allows (continuation n)) :
    step { items, pending := some p } (continuation n) =
      { items, pending := some { value := n, after } } := by
  have hbounds : p.low ≤ continuation n ∧ continuation n ≤ p.high := hallows
  have hn : n / 64 * 64 + (n % 64 + 0x80 - 0x80) = n := by omega
  simp only [step]
  rw [if_pos hbounds, toNat_continuation, hvalue, hn, hafter]

end Decoder

/-! ### First bytes

There are few of each kind, so that what each of them starts can be computed. -/

/-- A byte below 80 is a character. -/
theorem start_one : ∀ n ≤ 0x7F, start (UInt8.ofNat n) = .character (Char.ofNat n) := by
  decide

/-- The first byte of two has the upper five bits of the character. -/
theorem start_two : ∀ q < 0x20, 2 ≤ q →
    start (UInt8.ofNat (q + 0xC0)) = .sequence { value := q, after := 0 } := by
  decide

/-- The first byte of three has the upper four bits, and the byte behind it is bounded where the
sequence would be too long or a surrogate. -/
theorem start_three : ∀ q < 0x10,
    start (UInt8.ofNat (q + 0xE0)) =
      .sequence
        { value := q
          after := 1
          low := if q = 0 then 0xA0 else 0x80
          high := if q = 0xD then 0x9F else 0xBF } := by
  decide

/-- The first byte of four has the upper three bits, and the byte behind it is bounded where the
sequence would be too long or too large. -/
theorem start_four : ∀ q ≤ 4,
    start (UInt8.ofNat (q + 0xF0)) =
      .sequence
        { value := q
          after := 2
          low := if q = 0 then 0x90 else 0x80
          high := if q = 4 then 0x8F else 0xBF } := by
  decide

/-! ### Characters

A character is read from its bytes by a decoder that owes none, in one case for each number of
bytes. -/

namespace Decoder

variable (items : Array (Option Char)) {c : Char}

theorem step_of_start_eq_sequence {b : UInt8} {p : Pending} (h : start b = .sequence p) :
    step { items } b = { items, pending := some p } := by
  show fresh { items } b = _
  rw [fresh, h]

theorem foldl_step_one (h : c.toNat ≤ 0x7F) :
    (String.utf8EncodeChar c).foldl step { items } = { items := items.push (some c) } := by
  have hbytes : String.utf8EncodeChar c = [UInt8.ofNat c.toNat] := if_pos h
  rw [hbytes, List.foldl_cons, List.foldl_nil, step, fresh, start_one _ h, Char.ofNat_toNat]
  rfl

theorem foldl_step_two (hlow : ¬c.toNat ≤ 0x7F) (hhigh : c.toNat ≤ 0x7FF) :
    (String.utf8EncodeChar c).foldl step { items } = { items := items.push (some c) } := by
  have hbytes : String.utf8EncodeChar c =
      [UInt8.ofNat (c.toNat / 64 % 0x20 + 0xC0), continuation c.toNat] :=
    (if_neg hlow).trans (if_pos hhigh)
  have hfirst : c.toNat / 64 % 0x20 = c.toNat / 64 := by omega
  rw [hbytes, List.foldl_cons, List.foldl_cons, List.foldl_nil, hfirst,
    step_of_start_eq_sequence items (start_two _ (by omega) (by omega)),
    step_continuation_last rfl rfl (allows_continuation _ _ _), Char.ofNat_toNat]

theorem foldl_step_three (hlow : ¬c.toNat ≤ 0x7F) (hlow' : ¬c.toNat ≤ 0x7FF)
    (hhigh : c.toNat ≤ 0xFFFF) :
    (String.utf8EncodeChar c).foldl step { items } = { items := items.push (some c) } := by
  have hvalid : c.toNat < 0xD800 ∨ 0xDFFF < c.toNat ∧ c.toNat < 0x110000 := c.valid
  have hbytes : String.utf8EncodeChar c =
      [UInt8.ofNat (c.toNat / 4096 % 0x10 + 0xE0), continuation (c.toNat / 64),
        continuation c.toNat] :=
    (if_neg hlow).trans ((if_neg hlow').trans (if_pos hhigh))
  have hfirst : c.toNat / 4096 % 0x10 = c.toNat / 64 / 64 := by omega
  have hsecond : Pending.Allows
      { value := c.toNat / 64 / 64
        after := 1
        low := if c.toNat / 64 / 64 = 0 then 0xA0 else 0x80
        high := if c.toNat / 64 / 64 = 0xD then 0x9F else 0xBF }
      (continuation (c.toNat / 64)) := by
    rw [Pending.Allows, toNat_continuation, apply_ite UInt8.toNat, apply_ite UInt8.toNat]
    simp only [UInt8.reduceToNat]
    split <;> split <;> omega
  rw [hbytes, List.foldl_cons, List.foldl_cons, List.foldl_cons, List.foldl_nil, hfirst,
    step_of_start_eq_sequence items (start_three _ (by omega)), step_continuation rfl rfl hsecond,
    step_continuation_last rfl rfl (allows_continuation _ _ _), Char.ofNat_toNat]

theorem foldl_step_four (hlow : ¬c.toNat ≤ 0x7F) (hlow' : ¬c.toNat ≤ 0x7FF)
    (hlow'' : ¬c.toNat ≤ 0xFFFF) :
    (String.utf8EncodeChar c).foldl step { items } = { items := items.push (some c) } := by
  have hvalid : c.toNat < 0xD800 ∨ 0xDFFF < c.toNat ∧ c.toNat < 0x110000 := c.valid
  have hbytes : String.utf8EncodeChar c =
      [UInt8.ofNat (c.toNat / 262144 % 0x08 + 0xF0), continuation (c.toNat / 4096),
        continuation (c.toNat / 64), continuation c.toNat] :=
    (if_neg hlow).trans ((if_neg hlow').trans (if_neg hlow''))
  have hfirst : c.toNat / 262144 % 0x08 = c.toNat / 4096 / 64 := by omega
  have hsecond : Pending.Allows
      { value := c.toNat / 4096 / 64
        after := 2
        low := if c.toNat / 4096 / 64 = 0 then 0x90 else 0x80
        high := if c.toNat / 4096 / 64 = 4 then 0x8F else 0xBF }
      (continuation (c.toNat / 4096)) := by
    rw [Pending.Allows, toNat_continuation, apply_ite UInt8.toNat, apply_ite UInt8.toNat]
    simp only [UInt8.reduceToNat]
    split <;> split <;> omega
  have hthird : c.toNat / 4096 = c.toNat / 64 / 64 := by omega
  rw [hbytes, List.foldl_cons, List.foldl_cons, List.foldl_cons, List.foldl_cons, List.foldl_nil,
    hfirst, step_of_start_eq_sequence items (start_four _ (by omega)),
    step_continuation rfl rfl hsecond,
    step_continuation hthird rfl (allows_continuation _ _ _),
    step_continuation_last rfl rfl (allows_continuation _ _ _), Char.ofNat_toNat]

/-- **The bytes of a character are read as the character.** -/
theorem foldl_step_utf8EncodeChar (c : Char) :
    (String.utf8EncodeChar c).foldl step { items } = { items := items.push (some c) } := by
  by_cases hone : c.toNat ≤ 0x7F
  · exact foldl_step_one items hone
  by_cases htwo : c.toNat ≤ 0x7FF
  · exact foldl_step_two items hone htwo
  by_cases hthree : c.toNat ≤ 0xFFFF
  · exact foldl_step_three items hone htwo hthree
  · exact foldl_step_four items hone htwo hthree

/-- The bytes of characters are decoded to these characters. -/
theorem foldl_step_flatMap (cs : List Char) :
    (cs.flatMap String.utf8EncodeChar).foldl step { items } =
      { items := items ++ (cs.map some).toArray } := by
  induction cs generalizing items with
  | nil => simp
  | cons c cs ih =>
    rw [List.flatMap_cons, List.foldl_append, foldl_step_utf8EncodeChar, ih]
    simp

end Decoder

/-! ### Texts -/

/-- The bytes of a text are those of its characters. -/
theorem toList_toUTF8 (s : String) :
    s.toUTF8.data.toList = s.toList.flatMap String.utf8EncodeChar := by
  rw [String.toUTF8_eq_toByteArray, ← s.utf8Encode_toList, List.utf8Encode,
    List.toList_data_toByteArray]

/-- The bytes of a text are read as its characters, none of them malformed. -/
theorem items_toUTF8 (s : String) : items s.toUTF8.data.toList = s.toList.map some := by
  rw [items, toList_toUTF8, Decoder.foldl_step_flatMap]
  simp [Decoder.finish]

/-- **The bytes of a text are valid, and they are read back as the text.** -/
theorem decode?_toUTF8 (s : String) : decode? s.toUTF8 = some s := by
  have hitems : (s.toList.map some).mapM id = some s.toList := by
    rw [List.mapM_map]
    exact List.mapM_pure.trans (congrArg some (List.map_id _))
  rw [decode?, items_toUTF8, hitems, Option.map_some, String.ofList_toList]

/-- The reading that accepts any bytes replaces nothing in those of a text. -/
theorem decodeLossy_toUTF8 (s : String) : decodeLossy s.toUTF8 = s := by
  rw [decodeLossy, items_toUTF8, List.map_map]
  exact (congrArg String.ofList (List.map_id _)).trans String.ofList_toList

/-! ### How long a text is -/

namespace Decoder

/-- The items of a decoder, with the one under way. -/
def count (d : Decoder) : Nat := d.items.size + if d.pending.isSome then 1 else 0

/-- A byte that starts anew adds one item or one sequence that is pending. -/
theorem count_fresh_le (d : Decoder) (b : UInt8) : (d.fresh b).count ≤ d.items.size + 1 := by
  rw [fresh]
  split
  all_goals simp [count, item]

/-- Reading a byte makes one more item at most. -/
theorem count_step_le (d : Decoder) (b : UInt8) : (d.step b).count ≤ d.count + 1 := by
  rcases hpending : d.pending with - | p
  · rw [show d.step b = d.fresh b by rw [step, hpending], show d.count = d.items.size by
      simp [count, hpending]]
    exact d.count_fresh_le b
  · have hcount : d.count = d.items.size + 1 := by simp [count, hpending]
    by_cases hallows : p.low ≤ b ∧ b ≤ p.high
    · rcases hafter : p.after with - | n
      all_goals simp [step, hpending, hallows, hafter, count, item]
    · have hstep : d.step b = (d.item none).fresh b := by
        simp only [step, hpending, hallows, if_false]
      have hfresh := (d.item none).count_fresh_le b
      rw [hstep, hcount]
      simpa [item] using hfresh

/-- Bytes add one item each at most. -/
theorem count_foldl_step_le (bytes : List UInt8) (d : Decoder) :
    (bytes.foldl step d).count ≤ d.count + bytes.length := by
  induction bytes generalizing d with
  | nil => exact Nat.le_refl _
  | cons b bytes ih =>
    have hstep := d.count_step_le b
    have hrest := ih (d.step b)
    rw [List.foldl_cons, List.length_cons]
    omega

theorem size_finish (d : Decoder) : d.finish.size = d.count := by
  cases hpending : d.pending <;> simp [finish, count, hpending]

end Decoder

/-- No text is longer than the bytes that it is read from. -/
theorem length_decodeLossy_le (bytes : ByteArray) :
    (decodeLossy bytes).toList.length ≤ bytes.size := by
  rw [decodeLossy, String.toList_ofList, List.length_map, items, Array.length_toList,
    Decoder.size_finish]
  exact Nat.le_trans (Decoder.count_foldl_step_le _ _) (by simp [Decoder.count])

end DisplayFile.Text.Utf8

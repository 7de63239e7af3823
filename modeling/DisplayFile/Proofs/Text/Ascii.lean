import DisplayFile.Proofs.Text.Lines
import DisplayFile.Proofs.Text.Utf8

/-!
# ASCII in decoded bytes

**ASCII is kept.** Whatever bytes are decoded, those below 0x80 come out as the same characters in
the same order, and no other character of the result is below U+0080 (`ascii_written_items`). A byte
of ASCII also parts the bytes around it, which are decoded each on their own (`items_append_cons`).
So a line feed byte ends a line of the text and nothing else does: cutting bytes at line feeds and
decoding the stretches is decoding the bytes and cutting the text (`pieces_written_items`).

**What a byte can do** to a decoder is said once, by `Decoder.Reads`. A byte of ASCII continues no
sequence. It breaks off the one that is under way, and stands for itself. Any other byte makes items
that are not of ASCII, or keeps a sequence under way.

**The bounds on bytes have to be right** for that. A sequence never completes to a number below
0x80, nor to one that is not the number of a character, which would be read as NUL. `Pending.Sound`
says so for all the numbers that a sequence can still complete to, and every sequence under way is
sound.
-/

namespace DisplayFile.Text.Utf8

theorem toNat_ofNat {n : Nat} (h : n.isValidChar) : (Char.ofNat n).toNat = n := by
  rw [Char.ofNat, dif_pos h]
  rfl

/-- A byte is the number of a character. -/
theorem toNat_ofNat_toNat (b : UInt8) : (Char.ofNat b.toNat).toNat = b.toNat :=
  toNat_ofNat (.inl (Nat.lt_trans b.toNat_lt (by decide)))

/-! ### Sound sequences -/

namespace Pending

/-- The least number that the sequence can complete to. -/
def least (p : Pending) : Nat := (p.value * 64 + (p.low.toNat - 0x80)) * 64 ^ p.after

/-- The first number behind those that the sequence can complete to. -/
def limit (p : Pending) : Nat := (p.value * 64 + (p.high.toNat - 0x80) + 1) * 64 ^ p.after

/-- The sequence goes on with no byte of ASCII, and completes to characters behind ASCII, which are
before the surrogates or behind them. -/
structure Sound (p : Pending) : Prop where
  low : 0x80 ≤ p.low.toNat
  least : 0x80 ≤ p.least
  limit : p.limit ≤ 0xD800 ∨ 0xE000 ≤ p.least ∧ p.limit ≤ 0x110000

/-- A sequence of two bytes is sound from its first one on. -/
theorem sound_two {q : Nat} (hq : 2 ≤ q) (hq' : q < 0x20) : Sound { value := q, after := 0 } := by
  constructor
  all_goals
    simp only [Pending.least, Pending.limit, UInt8.reduceToNat]
    omega

theorem sound_three {q : Nat} (hq : q < 0x10) :
    Sound
      { value := q
        after := 1
        low := if q = 0 then 0xA0 else 0x80
        high := if q = 0xD then 0x9F else 0xBF } := by
  constructor
  all_goals
    simp only [Pending.least, Pending.limit, apply_ite UInt8.toNat, UInt8.reduceToNat]
    split_ifs <;> omega

theorem sound_four {q : Nat} (hq : q ≤ 4) :
    Sound
      { value := q
        after := 2
        low := if q = 0 then 0x90 else 0x80
        high := if q = 4 then 0x8F else 0xBF } := by
  constructor
  all_goals
    simp only [Pending.least, Pending.limit, apply_ite UInt8.toNat, UInt8.reduceToNat]
    split_ifs <;> omega

variable {p : Pending} {b : UInt8}

theorem least_mk (value after : Nat) : least { value, after } = value * 64 ^ (after + 1) := by
  simp only [Pending.least, UInt8.reduceToNat, Nat.sub_self, Nat.add_zero]
  rw [pow_succ', Nat.mul_assoc]

theorem limit_mk (value after : Nat) : limit { value, after } = (value + 1) * 64 ^ (after + 1) := by
  have hnext : value * 64 + (0xBF - 0x80) + 1 = (value + 1) * 64 := by omega
  simp only [Pending.limit, UInt8.reduceToNat]
  rw [hnext, pow_succ', Nat.mul_assoc]

/-- A byte that the sequence allows leaves some of the numbers that it could complete to. -/
theorem least_le_next (h : p.Allows b) {after : Nat} (hafter : p.after = after + 1) :
    p.least ≤ least { value := p.value * 64 + (b.toNat - 0x80), after } := by
  obtain ⟨hb, -⟩ := h
  rw [least_mk, Pending.least, hafter]
  exact Nat.mul_le_mul_right _ (by omega)

/-- A byte that is allowed narrows what the sequence can become. -/
theorem next_limit_le (h : p.Allows b) {after : Nat} (hafter : p.after = after + 1) :
    limit { value := p.value * 64 + (b.toNat - 0x80), after } ≤ p.limit := by
  obtain ⟨-, hb⟩ := h
  rw [limit_mk, Pending.limit, hafter]
  exact Nat.mul_le_mul_right _ (by omega)

/-- What is left of a sound sequence is sound. -/
theorem Sound.next (hp : p.Sound) (h : p.Allows b) {after : Nat} (hafter : p.after = after + 1) :
    Sound { value := p.value * 64 + (b.toNat - 0x80), after } := by
  have hleast := least_le_next h hafter
  have hlimit := next_limit_le h hafter
  -- both bounds move towards each other, so the numbers stay on one side of the surrogates
  exact ⟨Nat.le_refl _, hp.least.trans hleast,
    hp.limit.imp hlimit.trans fun hp ↦ ⟨hp.1.trans hleast, hlimit.trans hp.2⟩⟩

/-- A sound sequence completes to a character behind ASCII. -/
theorem Sound.le_toNat_ofNat (hp : p.Sound) (h : p.Allows b) (hafter : p.after = 0) :
    0x80 ≤ (Char.ofNat (p.value * 64 + (b.toNat - 0x80))).toNat := by
  obtain ⟨-, hleast, hlimit⟩ := hp
  obtain ⟨hb, hb'⟩ := h
  simp only [Pending.least, Pending.limit, hafter, Nat.pow_zero, Nat.mul_one] at hleast hlimit
  have hvalid : (p.value * 64 + (b.toNat - 0x80)).isValidChar := by
    rw [Nat.isValidChar]
    omega
  rw [toNat_ofNat hvalid]
  omega

/-- No byte of ASCII continues a sound sequence. -/
theorem Sound.le_of_allows (hp : p.Sound) (h : p.Allows b) : 0x80 ≤ b.toNat :=
  hp.low.trans h.1

end Pending

/-! ### First bytes -/

/-- A byte of ASCII is a character by itself. -/
theorem start_of_lt {b : UInt8} (h : b.toNat < 0x80) :
    start b = .character (Char.ofNat b.toNat) := by
  rw [start, if_pos (UInt8.lt_iff_toNat_lt.2 h)]

/-- A byte from 80 on that cannot start a sequence is malformed. -/
theorem start_none : ∀ n < 0x100, 0x80 ≤ n → n < 0xC2 ∨ 0xF4 < n →
    start (UInt8.ofNat n) = .malformed := by
  decide +kernel

/-- A byte behind ASCII starts a sound sequence or none. -/
theorem start_of_le {b : UInt8} (h : 0x80 ≤ b.toNat) :
    start b = .malformed ∨ ∃ p, p.Sound ∧ start b = .sequence p := by
  obtain ⟨n, hn, rfl⟩ : ∃ n < 0x100, b = UInt8.ofNat n :=
    ⟨b.toNat, b.toNat_lt, UInt8.ofNat_toNat.symm⟩
  rw [UInt8.toNat_ofNat_of_lt' hn] at h
  by_cases hnone : n < 0xC2 ∨ 0xF4 < n
  · exact .inl (start_none n hn h hnone)
  obtain ⟨q, rfl⟩ : ∃ q, n = q + 0xC0 := ⟨n - 0xC0, by omega⟩
  by_cases htwo : q < 0x20
  · exact .inr ⟨_, Pending.sound_two (by omega) htwo, start_two q htwo (by omega)⟩
  obtain ⟨q, rfl⟩ : ∃ r, q = r + 0x20 := ⟨q - 0x20, by omega⟩
  by_cases hthree : q < 0x10
  · exact .inr ⟨_, Pending.sound_three hthree, start_three q hthree⟩
  obtain ⟨q, rfl⟩ : ∃ r, q = r + 0x10 := ⟨q - 0x10, by omega⟩
  exact .inr ⟨_, Pending.sound_four (by omega), start_four q (by omega)⟩

/-! ### One byte -/

namespace Decoder

/-- The sequence under way is sound. -/
def Sound (d : Decoder) : Prop := ∀ p, d.pending = some p → p.Sound

/-- What a byte can do to a decoder. -/
inductive Reads (d : Decoder) (b : UInt8) : Decoder → Prop where
  /-- A byte of ASCII stands for itself, behind what it breaks off. -/
  | ascii (hb : b.toNat < 0x80) : Reads d b { items := d.finish.push (some (Char.ofNat b.toNat)) }
  /-- A byte that starts nothing is malformed, behind what it breaks off. -/
  | stray (hb : 0x80 ≤ b.toNat) : Reads d b { items := d.finish.push none }
  | starts {p : Pending} (hb : 0x80 ≤ b.toNat) (hp : p.Sound) :
    Reads d b { items := d.finish, pending := some p }
  | continues {p : Pending} (hb : 0x80 ≤ b.toNat) (hp : p.Sound) :
    Reads d b { items := d.items, pending := some p }
  | completes {c : Char} (hb : 0x80 ≤ b.toNat) (hc : 0x80 ≤ c.toNat) :
    Reads d b { items := d.items.push (some c) }

variable {d d' : Decoder} {b : UInt8}

theorem reads_fresh (d : Decoder) (b : UInt8) : Reads d b (fresh { items := d.finish } b) := by
  rw [fresh]
  obtain hb | hb := Nat.lt_or_ge b.toNat 0x80
  · rw [start_of_lt hb]
    exact .ascii hb
  · obtain hnone | ⟨p, hp, hstart⟩ := start_of_le hb
    · rw [hnone]
      exact .stray hb
    · rw [hstart]
      exact .starts hb hp

/-- A decoder with a sound sequence reads every byte in one of these ways. -/
theorem reads_step (hd : d.Sound) (b : UInt8) : Reads d b (d.step b) := by
  have hfresh := reads_fresh d b
  obtain ⟨items, - | p⟩ := d
  · exact hfresh
  have hp : p.Sound := hd p rfl
  by_cases hallows : p.low ≤ b ∧ b ≤ p.high
  · have hb := hp.le_of_allows hallows
    rcases hafter : p.after with - | after
    · have hcharacter := hp.le_toNat_ofNat hallows hafter
      simp only [step, hallows, hafter]
      exact .completes hb hcharacter
    · simp only [step, hallows, hafter]
      exact .continues hb (hp.next hallows hafter)
  · -- the sequence is closed as at the end of the text, and the byte is read afresh
    simp only [step, hallows]
    exact hfresh

/-- A decoder that reads a byte stays sound. -/
theorem Reads.sound (h : Reads d b d') : d'.Sound := by
  cases h with
  | ascii | stray | completes => nofun
  | starts _ hp | continues _ hp =>
    rintro _ ⟨⟩
    exact hp

/-- A byte of ASCII is an item of its own, behind what it breaks off. -/
theorem Reads.eq_of_lt (h : Reads d b d') (hb : b.toNat < 0x80) :
    d' = { items := d.finish.push (some (Char.ofNat b.toNat)) } := by
  cases h with
  | ascii => rfl
  | stray hb' | starts hb' | continues hb' | completes hb' => omega

/-- From the first byte on there is an item at the end. -/
theorem Reads.finish_ne_empty (h : Reads d b d') : d'.finish ≠ #[] := by
  cases h with
  | ascii | stray | starts | continues | completes => exact Array.push_ne_empty

/-! ### A run -/

/-- A sound decoder stays sound over any bytes. -/
theorem sound_foldl_step (hd : d.Sound) (bytes : List UInt8) : (bytes.foldl step d).Sound := by
  induction bytes generalizing d with
  | nil => exact hd
  | cons b bytes ih => exact ih (reads_step hd b).sound

theorem sound_empty : Sound {} := nofun

/-- A byte behind others is read by a decoder with a sound sequence. -/
theorem reads_foldl_step (bytes : List UInt8) (b : UInt8) :
    Reads (bytes.foldl step {}) b ((bytes.foldl step {}).step b) :=
  reads_step (sound_foldl_step sound_empty bytes) b

end Decoder

/-! ### Characters of ASCII -/

/-- The text that items are written as. -/
def written (items : List (Option Char)) : List Char :=
  items.map fun item ↦ item.getD replacement

/-- The characters of ASCII in a text. -/
def ascii (cs : List Char) : List Char := cs.filter fun c ↦ c.toNat < 0x80

/-- The characters that the bytes of ASCII stand for. -/
def asciiOfBytes (bytes : List UInt8) : List Char :=
  (bytes.filter fun b ↦ b.toNat < 0x80).map fun b ↦ Char.ofNat b.toNat

/-- An item that stands for malformed bytes adds no character of ASCII. -/
theorem ascii_written_push_none (items : Array (Option Char)) :
    ascii (written (items.push none).toList) = ascii (written items.toList) := by
  rw [Array.toList_push, written, List.map_append, ascii, List.filter_append]
  exact List.append_nil _

theorem ascii_written_push_some (items : Array (Option Char)) (c : Char) :
    ascii (written (items.push (some c)).toList) = ascii (written items.toList) ++ ascii [c] := by
  rw [Array.toList_push, written, List.map_append, ascii, List.filter_append]
  rfl

/-- What is pending at the end adds no character of ASCII. -/
theorem Decoder.ascii_written_finish (d : Decoder) :
    ascii (written d.finish.toList) = ascii (written d.items.toList) := by
  rcases hpending : d.pending with - | p
  · simp only [finish, hpending]
  · simp only [finish, hpending]
    exact ascii_written_push_none d.items

theorem ascii_eq_nil_of_le {c : Char} (h : 0x80 ≤ c.toNat) : ascii [c] = [] := by
  rw [ascii, List.filter_singleton, decide_eq_false (Nat.not_lt.2 h)]
  rfl

/-- A byte of ASCII counts as its character. -/
theorem asciiOfBytes_of_lt {b : UInt8} (h : b.toNat < 0x80) :
    asciiOfBytes [b] = ascii [Char.ofNat b.toNat] := by
  rw [asciiOfBytes, ascii, List.filter_singleton, List.filter_singleton, toNat_ofNat_toNat,
    decide_eq_true h]
  rfl

/-- A byte from 80 on counts as nothing. -/
theorem asciiOfBytes_of_le {b : UInt8} (h : 0x80 ≤ b.toNat) : asciiOfBytes [b] = [] := by
  rw [asciiOfBytes, List.filter_singleton, decide_eq_false (Nat.not_lt.2 h)]
  rfl

namespace Decoder

variable {d d' : Decoder} {b : UInt8}

/-- A byte adds the character of ASCII that it stands for, and no other. -/
theorem Reads.ascii_written (h : Reads d b d') :
    Utf8.ascii (written d'.items.toList) =
      Utf8.ascii (written d.items.toList) ++ asciiOfBytes [b] := by
  cases h with
  | ascii hb =>
    rw [ascii_written_push_some, ascii_written_finish, asciiOfBytes_of_lt hb]
  | stray hb =>
    rw [ascii_written_push_none, ascii_written_finish, asciiOfBytes_of_le hb, List.append_nil]
  | starts hb => rw [ascii_written_finish, asciiOfBytes_of_le hb, List.append_nil]
  | continues hb => rw [asciiOfBytes_of_le hb, List.append_nil]
  | completes hb hc =>
    rw [ascii_written_push_some, ascii_eq_nil_of_le hc, asciiOfBytes_of_le hb]

/-- **Bytes add the characters of ASCII that are among them**, in order. -/
theorem ascii_written_foldl_step (hd : d.Sound) (bytes : List UInt8) :
    Utf8.ascii (written (bytes.foldl step d).items.toList) =
      Utf8.ascii (written d.items.toList) ++ asciiOfBytes bytes := by
  induction bytes generalizing d with
  | nil => exact (List.append_nil _).symm
  | cons b bytes ih =>
    have hreads := reads_step hd b
    have hbytes : asciiOfBytes (b :: bytes) = asciiOfBytes [b] ++ asciiOfBytes bytes := by
      rw [asciiOfBytes, ← List.singleton_append, List.filter_append, List.map_append]
      rfl
    rw [List.foldl_cons, ih hreads.sound, hreads.ascii_written, List.append_assoc, hbytes]

end Decoder

/-- **ASCII is kept.** The bytes below 0x80 are decoded as the same characters in the same order,
and no other character below U+0080 is. -/
theorem ascii_written_items (bytes : List UInt8) :
    ascii (written (items bytes)) = asciiOfBytes bytes := by
  rw [items, Decoder.ascii_written_finish,
    Decoder.ascii_written_foldl_step Decoder.sound_empty]
  rfl

/-! ### Behind other items -/

namespace Decoder

/-- The decoder with other items in front. -/
def behind (front : Array (Option Char)) (d : Decoder) : Decoder :=
  { items := front ++ d.items, pending := d.pending }

variable (front : Array (Option Char)) (d : Decoder)

theorem item_behind (c : Option Char) : (d.behind front).item c = (d.item c).behind front := by
  rw [item, item, behind, behind, Array.append_push]

theorem fresh_behind (b : UInt8) : (d.behind front).fresh b = (d.fresh b).behind front := by
  rw [fresh, fresh]
  cases start b with
  | character c => exact item_behind front d (some c)
  | sequence p => rfl
  | malformed => exact item_behind front d none

/-- What a decoder does does not depend on the items that it has. -/
theorem step_behind (b : UInt8) : (d.behind front).step b = (d.step b).behind front := by
  rcases hpending : d.pending with - | p
  · simp only [step, behind, hpending]
    exact fresh_behind front d b
  by_cases hallows : p.low ≤ b ∧ b ≤ p.high
  · rcases hafter : p.after with - | after
    · simp only [step, behind, hpending, hallows, hafter]
      exact item_behind front d _
    · simp only [step, behind, hpending, hallows, hafter]
      rfl
  · simp only [step, behind, hpending, hallows]
    exact (congrArg (fresh · b) (item_behind front d none)).trans (fresh_behind front _ b)

/-- What bytes are decoded to does not depend on what was decoded before. -/
theorem foldl_step_behind (bytes : List UInt8) :
    bytes.foldl step (d.behind front) = (bytes.foldl step d).behind front := by
  induction bytes generalizing d with
  | nil => rfl
  | cons b bytes ih => rw [List.foldl_cons, List.foldl_cons, step_behind, ih]

theorem finish_behind : (d.behind front).finish = front ++ d.finish := by
  rcases hpending : d.pending with - | p
  · simp only [finish, behind, hpending]
  · simp only [finish, behind, hpending, Array.append_push]

end Decoder

/-! ### Cutting bytes -/

/-- **A byte of ASCII parts the bytes**: those before it and those behind it are decoded alone. -/
theorem items_append_cons {b : UInt8} (hb : b.toNat < 0x80) (xs ys : List UInt8) :
    items (xs ++ b :: ys) = items xs ++ some (Char.ofNat b.toNat) :: items ys := by
  set d := xs.foldl Decoder.step {} with hd
  have hreads := Decoder.reads_foldl_step xs b
  -- behind the byte nothing is under way, so the decoder starts again with items in front
  have hstep : d.step b =
      Decoder.behind (d.finish.push (some (Char.ofNat b.toNat))) {} := hreads.eq_of_lt hb
  have hread : (xs ++ b :: ys).foldl Decoder.step {} =
      (ys.foldl Decoder.step {}).behind (d.finish.push (some (Char.ofNat b.toNat))) := by
    rw [List.foldl_append, List.foldl_cons, ← hd, hstep, Decoder.foldl_step_behind]
  rw [items, hread, Decoder.finish_behind, items, items, ← hd]
  simp

/-- Only no bytes at all have no items. -/
theorem items_eq_nil_iff {bytes : List UInt8} : items bytes = [] ↔ bytes = [] := by
  constructor
  · intro h
    obtain rfl | ⟨front, b, rfl⟩ := List.eq_nil_or_concat' bytes
    · rfl
    · have hreads := Decoder.reads_foldl_step front b
      rw [items, List.foldl_append, List.foldl_cons, List.foldl_nil, Array.toList_eq_nil_iff] at h
      exact absurd h hreads.finish_ne_empty
  · rintro rfl
    rfl

/-- A line feed is decoded from the byte of a line feed only. -/
theorem not_mem_written_items {bytes : List UInt8} (h : 0x0A ∉ bytes) :
    '\n' ∉ written (items bytes) := by
  intro hmem
  have hascii : '\n' ∈ asciiOfBytes bytes := by
    rw [← ascii_written_items]
    exact List.mem_filter.2 ⟨hmem, rfl⟩
  obtain ⟨b, hb, hchar⟩ := List.mem_map.1 hascii
  have hnumber : b.toNat = (0x0A : UInt8).toNat := by
    rw [← toNat_ofNat_toNat, hchar]
    rfl
  exact h (UInt8.toNat_inj.1 hnumber ▸ List.mem_of_mem_filter hb)

/-- **Bytes are decoded line by line.** -/
theorem pieces_written_items (bytes : List UInt8) :
    pieces '\n' (written (items bytes)) =
      (bytes.splitOn 0x0A).map fun piece ↦ written (items piece) := by
  induction bytes using separatorInduction (0x0A : UInt8) with
  | whole xs hxs =>
    rw [pieces_eq_singleton (not_mem_written_items hxs), List.splitOn_eq_singleton hxs]
    rfl
  | append xs ys hxs ih =>
    have hwritten : written (items (xs ++ 0x0A :: ys)) =
        written (items xs) ++ '\n' :: written (items ys) := by
      rw [items_append_cons (by decide), written, List.map_append, List.map_cons]
      rfl
    rw [hwritten, pieces_append_cons (not_mem_written_items hxs), ih,
      List.splitOn_append_cons_self_of_not_mem hxs, List.map_cons]

end Utf8

/-! ### Lines of bytes -/

/-- What stands between the line feeds of bytes, without an empty stretch at the end. -/
def byteLines (bytes : List UInt8) : List (List UInt8) :=
  let stretches := bytes.splitOn 0x0A
  if stretches.getLast? = some [] then stretches.dropLast else stretches

/-- **Decoding keeps the number of lines.** -/
theorem length_lines_decodeLossy (bytes : ByteArray) :
    (lines (Utf8.decodeLossy bytes)).length = (byteLines bytes.data.toList).length := by
  have hpieces : pieces '\n' (Utf8.decodeLossy bytes).toList =
      (bytes.data.toList.splitOn 0x0A).map fun piece ↦ Utf8.written (Utf8.items piece) := by
    rw [Utf8.decodeLossy, String.toList_ofList, ← Utf8.written, Utf8.pieces_written_items]
  have hlast : ((bytes.data.toList.splitOn 0x0A).map
      fun piece ↦ Utf8.written (Utf8.items piece)).getLast? = some [] ↔
        (bytes.data.toList.splitOn 0x0A).getLast? = some [] := by
    simp only [List.getLast?_map, Option.map_eq_some_iff, Utf8.written, List.map_eq_nil_iff,
      Utf8.items_eq_nil_iff, exists_eq_right]
  rw [lines, List.length_map, length_linesOfPieces, hpieces, byteLines]
  simp only [hlast, List.length_map]
  split
  · rw [List.length_dropLast]
  · rfl

end DisplayFile.Text

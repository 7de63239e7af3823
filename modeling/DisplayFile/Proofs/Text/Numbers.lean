import DisplayFile.Proofs.Text.Decimal
import Mathlib.Data.Nat.Digits.Defs

/-!
# Texts of numbers

**How a number is written.** A row of decimal digits, possibly led by zeros, a plus sign in front of
it or none, and blanks around. `WrittenNumber` has these parts, and its value is the sum of the
digits at their decimal places. It is put together without regard to how a text is read, so that
reading can be compared with it.

**A number is read from the texts in which it is written, and from no others.** Neither a sign nor a
digit is blank, so trimming leaves the sign and the digits (`trim_numeralText`), and the digits are
read for their value (`number?_text`). Conversely what is read has nothing but digits behind its
sign, and these are the digits of a written number (`denotes_iff_exists_written`).

**No number is reduced to fit.** A value of 2³² or more is refused. Reading the digits one by one
into a word comes to the same: a word that overflows at one digit would overflow at every later one,
since no digit makes a number smaller (`fitWord?_bind`), and zeros in front never overflow. So the
first overflow can be taken for an answer, however long the numeral is (`foldlM_appendDigit?`).
-/

namespace DisplayFile.Text

/-! ### Digits as characters -/

namespace Numeral

/-- The character of a digit. -/
def digitChar (d : Fin 10) : Char := Nat.digitChar d

theorem digit_digitChar (d : Fin 10) : digit (digitChar d) = d :=
  Nat.toNat_digitChar_sub_48_of_lt_ten d.isLt

/-- A digit character is that of the digit which it stands for. -/
theorem digitChar_digit {c : Char} (h : c.isDigit = true) :
    digitChar ⟨digit c, digit_lt_ten h⟩ = c := by
  obtain ⟨hlow, -⟩ := toNat_of_isDigit h
  refine Char.toNat_inj.1 ?_
  rw [digitChar, Nat.toNat_digitChar_of_lt_ten (digit_lt_ten h)]
  exact Nat.add_sub_cancel' hlow

/-- A text of nothing but digit characters is a row of digits. -/
theorem exists_map_digitChar {cs : List Char} (h : ∀ c ∈ cs, c.isDigit = true) :
    ∃ ds : List (Fin 10), ds.map digitChar = cs := by
  induction cs with
  | nil => exact ⟨[], rfl⟩
  | cons c cs ih =>
    obtain ⟨hc, hcs⟩ := List.forall_mem_cons.1 h
    obtain ⟨ds, rfl⟩ := ih hcs
    exact ⟨⟨digit c, digit_lt_ten hc⟩ :: ds, by rw [List.map_cons, digitChar_digit hc]⟩

/-- The number with one more digit behind its own. -/
def withDigit (n : Nat) (d : Fin 10) : Nat := n * 10 + d

/-- A digit behind a number does not make it smaller. -/
theorem le_withDigit (n : Nat) (d : Fin 10) : n ≤ withDigit n d := by
  rw [withDigit]
  omega

/-- The sum of the digits at their places is taken from the highest digit down. -/
theorem ofDigits_reverse (ds : List (Fin 10)) :
    Nat.ofDigits 10 (ds.map Fin.val).reverse = ds.foldl withDigit 0 := by
  rw [Nat.ofDigits_eq_foldr, List.foldr_reverse, List.foldl_map]
  refine congrArg (List.foldl · 0 ds) (funext fun n ↦ funext fun d ↦ ?_)
  rw [Nat.cast_id, withDigit, Nat.add_comm, Nat.mul_comm]

/-- The value of a row of digits is that of the digits in base 10. -/
theorem value_map_digitChar (ds : List (Fin 10)) :
    value (ds.map digitChar) = Nat.ofDigits 10 (ds.map Fin.val).reverse := by
  rw [value, List.foldl_map, ofDigits_reverse]
  refine congrArg (List.foldl · 0 ds) (funext fun n ↦ funext fun d ↦ ?_)
  rw [digit_digitChar, withDigit]

/-- Zeros in front do not count. -/
theorem value_replicate_append (zeros : Nat) (cs : List Char) :
    value (List.replicate zeros '0' ++ cs) = value cs := by
  induction zeros with
  | zero => rfl
  | succ zeros ih =>
    rw [List.replicate_succ, List.cons_append, ← ih]
    rfl

end Numeral

/-! ### Numbers as they are written -/

/-- A blank character. -/
abbrev Blank := { c : Char // isBlank c = true }

/-- A row of digits with a plus sign in front, or without. -/
def withSign (signed : Bool) (row : List Char) : List Char := if signed then '+' :: row else row

/-- The same with blanks around. -/
def numeralText (before : List Blank) (signed : Bool) (row : List Char) (after : List Blank) :
    String :=
  String.ofList (before.map Subtype.val ++ withSign signed row ++ after.map Subtype.val)

/-- A number as it is written, its digits from the highest place down. -/
structure WrittenNumber where
  before : List Blank
  signed : Bool
  digits : List (Fin 10)
  after : List Blank
  digits_ne_nil : digits ≠ []

namespace WrittenNumber

/-- The digits as characters. -/
def row (w : WrittenNumber) : List Char := w.digits.map Numeral.digitChar

/-- The text that is written. -/
def text (w : WrittenNumber) : String := numeralText w.before w.signed w.row w.after

/-- The sum of the digits at their decimal places. -/
def value (w : WrittenNumber) : Nat := Nat.ofDigits 10 (w.digits.map Fin.val).reverse

theorem row_ne_nil (w : WrittenNumber) : w.row ≠ [] :=
  mt List.map_eq_nil_iff.1 w.digits_ne_nil

theorem isDigit_of_mem_row (w : WrittenNumber) : ∀ c ∈ w.row, c.isDigit = true := by
  intro c hc
  obtain ⟨d, -, rfl⟩ := List.mem_map.1 hc
  rw [Numeral.digitChar, Nat.isDigit_digitChar]
  exact decide_eq_true d.isLt

/-- A written number has the value of its digits, with any zeros in front. -/
theorem value_row (w : WrittenNumber) : Numeral.value w.row = w.value :=
  Numeral.value_map_digitChar w.digits

end WrittenNumber

/-! ### Reading what is written -/

/-- The value as a word, unless it overflows. -/
def fitWord? (n : Nat) : Option UInt32 := if n < UInt32.size then some (UInt32.ofNat n) else none

theorem fitWord?_of_lt {n : Nat} (h : n < UInt32.size) : fitWord? n = some (UInt32.ofNat n) :=
  if_pos h

/-- A number from 2³² on does not fit. -/
theorem fitWord?_of_le {n : Nat} (h : UInt32.size ≤ n) : fitWord? n = none :=
  if_neg (Nat.not_lt.2 h)

theorem fitWord?_toNat (n : UInt32) : fitWord? n.toNat = some n := by
  rw [fitWord?_of_lt n.toNat_lt, UInt32.ofNat_toNat]

/-- Of digits that a numeral has, the value is read. -/
theorem Numeral.word?_eq_fitWord? {numeral : List Char} (hne : unsigned numeral ≠ [])
    (hdigits : ∀ c ∈ unsigned numeral, c.isDigit = true) :
    word? numeral = fitWord? (value (unsigned numeral)) := by
  rcases Nat.lt_or_ge (value (unsigned numeral)) UInt32.size with hlt | hge
  · have hbelow : below? UInt32.size numeral = some (value (unsigned numeral)) :=
      below?_eq_some_iff.2 ⟨hne, hdigits, rfl, hlt⟩
    rw [word?, hbelow, Option.map_some, fitWord?_of_lt hlt]
  · have hbelow : below? UInt32.size numeral = none := by
      refine Option.eq_none_iff_forall_ne_some.2 fun n hn ↦ ?_
      obtain ⟨-, -, hvalue, hlt⟩ := below?_eq_some_iff.1 hn
      exact absurd hlt (Nat.not_lt.2 (hvalue ▸ hge))
    rw [word?, hbelow, Option.map_none, fitWord?_of_le hge]

section

variable {signed : Bool} {row : List Char} (hrow : ∀ c ∈ row, c.isDigit = true)
include hrow

theorem isBlank_of_mem_withSign {c : Char} (hc : c ∈ withSign signed row) : isBlank c = false := by
  cases signed with
  | false => exact Numeral.isBlank_of_isDigit (hrow c hc)
  | true =>
    rcases List.mem_cons.1 hc with rfl | hc
    · decide
    · exact Numeral.isBlank_of_isDigit (hrow c hc)

/-- A sign is not part of the digits. -/
theorem unsigned_withSign : Numeral.unsigned (withSign signed row) = row := by
  cases signed with
  | false => exact Numeral.unsigned_of_isDigit hrow
  | true => rfl

/-- Trimming leaves the sign and the digits. -/
theorem trim_numeralText (before after : List Blank) :
    trim (numeralText before signed row after).toList = withSign signed row := by
  have hblank : ∀ (blanks : List Blank), ∀ c ∈ blanks.map Subtype.val, isBlank c = true := by
    intro blanks c hc
    obtain ⟨blank, -, rfl⟩ := List.mem_map.1 hc
    exact blank.property
  rw [numeralText, String.toList_ofList]
  exact trim_between (hblank before) (fun _ ↦ isBlank_of_mem_withSign hrow) (hblank after)

/-- **A row of digits is read for its value**, with or without a sign and blanks. -/
theorem number?_numeralText (before after : List Blank) (hne : row ≠ []) :
    number? (numeralText before signed row after) = fitWord? (Numeral.value row) := by
  have hunsigned : Numeral.unsigned (withSign signed row) = row := unsigned_withSign hrow
  rw [number?, trim_numeralText hrow, Numeral.word?_eq_fitWord?, hunsigned]
  · rwa [hunsigned]
  · rwa [hunsigned]

end

/-- A written number is read as its value, if that fits. -/
theorem number?_text (w : WrittenNumber) : number? w.text = fitWord? w.value := by
  rw [WrittenNumber.text, number?_numeralText w.isDigit_of_mem_row _ _ w.row_ne_nil, w.value_row]

/-- The decimal writing of a number is read as the number, also with zeros in front. -/
theorem number?_numeralText_digits (before : List Blank) (signed : Bool) (zeros : Nat) (n : UInt32)
    (after : List Blank) :
    number? (numeralText before signed
      (List.replicate zeros '0' ++ Numeral.digits n.toNat) after) = some n := by
  have hne : List.replicate zeros '0' ++ Numeral.digits n.toNat ≠ [] :=
    List.append_ne_nil_of_right_ne_nil _ Nat.toDigits_ne_nil
  have hrow : ∀ c ∈ List.replicate zeros '0' ++ Numeral.digits n.toNat, c.isDigit = true := by
    intro c hc
    rcases List.mem_append.1 hc with hc | hc
    · rw [List.eq_of_mem_replicate hc]
      rfl
    · exact Numeral.isDigit_of_mem_digits hc
  rw [number?_numeralText hrow before after hne, Numeral.value_replicate_append,
    Numeral.value_digits, fitWord?_toNat]

/-! ### What is read is written -/

/-- Blanks around a sign and digits make a written number of them. -/
theorem exists_numeralText_eq {text : String} {row : List Char}
    (h : trim text.toList = row ∨ trim text.toList = '+' :: row) :
    ∃ before signed after, numeralText before signed row after = text := by
  obtain ⟨before, after, hbefore, hafter, htext⟩ := exists_eq_append_trim text.toList
  have hsign : ∃ signed, trim text.toList = withSign signed row := by
    rcases h with h | h
    · exact ⟨false, h⟩
    · exact ⟨true, h⟩
  obtain ⟨signed, hsigned⟩ := hsign
  refine ⟨before.attachWith _ hbefore, signed, after.attachWith _ hafter, ?_⟩
  rw [numeralText, List.attachWith_map_subtype_val, List.attachWith_map_subtype_val, ← hsigned,
    ← htext, String.ofList_toList]

/-- The numerals of a number are the texts in which it is written. -/
theorem denotes_iff_exists_written {text : String} {n : Nat} :
    Denotes text n ↔ ∃ w : WrittenNumber, w.text = text ∧ w.value = n := by
  constructor
  · rintro ⟨row, hne, hrow, rfl, htext⟩
    obtain ⟨before, signed, after, rfl⟩ := exists_numeralText_eq htext
    obtain ⟨digits, rfl⟩ := Numeral.exists_map_digitChar hrow
    let w : WrittenNumber :=
      { before, signed, digits, after, digits_ne_nil := mt List.map_eq_nil_iff.2 hne }
    exact ⟨w, rfl, w.value_row.symm⟩
  · rintro ⟨w, rfl, rfl⟩
    refine ⟨w.row, w.row_ne_nil, w.isDigit_of_mem_row, w.value_row, ?_⟩
    rw [WrittenNumber.text, trim_numeralText w.isDigit_of_mem_row]
    cases w.signed with
    | false => exact .inl rfl
    | true => exact .inr rfl

/-! ### Reading digit by digit -/

/-- The word with one more digit, unless it overflows when the digits before it move up or when the
digit is added. -/
def appendDigit? (n : UInt32) (d : Fin 10) : Option UInt32 := do
  let tens ← fitWord? (n.toNat * 10)
  fitWord? (tens.toNat + d)

/-- What has overflowed stays too large for a word, unless it is made smaller. -/
theorem fitWord?_bind {f : Nat → Nat} (hf : ∀ n, n ≤ f n) (n : Nat) :
    ((fitWord? n).bind fun word ↦ fitWord? (f word.toNat)) = fitWord? (f n) := by
  rcases Nat.lt_or_ge n UInt32.size with hlt | hge
  · rw [fitWord?_of_lt hlt, Option.bind_some, UInt32.toNat_ofNat_of_lt' hlt]
  · rw [fitWord?_of_le hge, fitWord?_of_le (Nat.le_trans hge (hf n)), Option.bind_none]

/-- Adding a digit with a check at each step is adding it and checking the sum. -/
theorem appendDigit?_eq (n : UInt32) (d : Fin 10) :
    appendDigit? n d = fitWord? (Numeral.withDigit n.toNat d) :=
  fitWord?_bind (fun k ↦ Nat.le_add_right k d) (n.toNat * 10)

/-- **Digits that are read into a word are read for their value.** What was read before them may
have overflowed already. -/
theorem foldlM_appendDigit? (ds : List (Fin 10)) (n : Nat) :
    ((fitWord? n).bind fun word ↦ ds.foldlM appendDigit? word) =
      fitWord? (ds.foldl Numeral.withDigit n) := by
  induction ds generalizing n with
  | nil => exact Option.bind_fun_some (fitWord? n)
  | cons d ds ih =>
    have hstep : ((fitWord? n).bind fun word ↦ appendDigit? word d) =
        fitWord? (Numeral.withDigit n d) := by
      simp only [appendDigit?_eq]
      exact fitWord?_bind (fun k ↦ Numeral.le_withDigit k d) n
    calc ((fitWord? n).bind fun word ↦ (d :: ds).foldlM appendDigit? word)
        = ((fitWord? n).bind fun word ↦ appendDigit? word d).bind
            fun word ↦ ds.foldlM appendDigit? word := by
          rw [Option.bind_assoc]
          rfl
      _ = fitWord? ((d :: ds).foldl Numeral.withDigit n) := by rw [hstep, ih, List.foldl_cons]

theorem foldlM_digits (w : WrittenNumber) :
    w.digits.foldlM appendDigit? 0 = fitWord? w.value := by
  rw [WrittenNumber.value, Numeral.ofDigits_reverse]
  exact foldlM_appendDigit? w.digits 0

/-! ### The texts of a number -/

/-- **A text is read as a number exactly when the number is written in it**: blanks, perhaps a plus
sign, digits with this value, and blanks. Otherwise nothing is read, be it that no number is written
there or one of 2³² or more. The answer is also that of a word that takes the digits one by one and
gives up when it overflows. In particular the decimal writing of a number is read as the number,
with or without zeros, a sign and blanks. -/
theorem number?_reads_written :
    (∀ (text : String) (n : UInt32), number? text = some n ↔
      ∃ w : WrittenNumber, w.text = text ∧ w.value = n.toNat) ∧
    (∀ text : String, number? text = none ↔
      ∀ w : WrittenNumber, w.text = text → UInt32.size ≤ w.value) ∧
    (∀ w : WrittenNumber, number? w.text = w.digits.foldlM appendDigit? 0) ∧
    ∀ (before : List Blank) (signed : Bool) (zeros : Nat) (n : UInt32) (after : List Blank),
      number? (numeralText before signed
        (List.replicate zeros '0' ++ Numeral.digits n.toNat) after) = some n := by
  refine ⟨fun text n ↦ ?_, fun text ↦ ?_, fun w ↦ ?_, number?_numeralText_digits⟩
  · rw [number?_eq_some_iff, denotes_iff_exists_written]
  · rw [number?_eq_none_iff]
    constructor
    · intro h w htext
      refine Nat.not_lt.1 fun hlt ↦ h w.value hlt ?_
      exact denotes_iff_exists_written.2 ⟨w, htext, rfl⟩
    · intro h n hlt hdenotes
      obtain ⟨w, htext, rfl⟩ := denotes_iff_exists_written.1 hdenotes
      exact absurd hlt (Nat.not_lt.2 (h w htext))
  · rw [number?_text, foldlM_digits]

/-- The largest word is read from ten digits behind a sign and zeros, in blanks that are not those
of ASCII. With the last digit one higher nothing is read, and not zero. -/
theorem number?_reads_written_largest :
    let largest : WrittenNumber :=
      { before := [⟨'\u3000', by decide⟩]
        signed := true
        digits := [0, 0, 4, 2, 9, 4, 9, 6, 7, 2, 9, 5]
        after := [⟨'\u00A0', by decide⟩, ⟨' ', by decide⟩]
        digits_ne_nil := by decide }
    let tooLarge : WrittenNumber :=
      { before := []
        signed := false
        digits := [4, 2, 9, 4, 9, 6, 7, 2, 9, 6]
        after := []
        digits_ne_nil := by decide }
    (largest.text = "\u3000+004294967295\u00A0 " ∧ largest.value = 4294967295) ∧
      number? "\u3000+004294967295\u00A0 " = some 4294967295 ∧
      (tooLarge.text = "4294967296" ∧ tooLarge.value = UInt32.size) ∧
      number? "4294967296" = none := by
  intro largest tooLarge
  obtain ⟨hsome, -, hdigits, -⟩ := number?_reads_written
  have hlargest : largest.text = "\u3000+004294967295\u00A0 " ∧ largest.value = 4294967295 :=
    ⟨by decide +kernel, by decide +kernel⟩
  have htooLarge : tooLarge.text = "4294967296" ∧ tooLarge.value = UInt32.size :=
    ⟨by decide +kernel, by decide +kernel⟩
  refine ⟨hlargest, (hsome _ 4294967295).2 ⟨largest, hlargest⟩, htooLarge, ?_⟩
  rw [← htooLarge.1, hdigits]
  decide +kernel

/-- No number is written in a text without digits, with a second sign or a minus sign, with a blank
between its digits, or with digits of another script. -/
example : ["", " ", "+", "++5", "-5", "+ 5", "1 2", "\u0663"].map number? =
    List.replicate 8 none := by
  decide +kernel

end DisplayFile.Text

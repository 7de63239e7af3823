import DisplayFile.Proofs.Text.Characters
import DisplayFile.Text.Numeral
import Mathlib.Algebra.Group.Nat.Defs
import Mathlib.Data.List.Induction
import Mathlib.Tactic.FinCases

/-!
# Decimal numerals

The decimal writing of a number is read back as the number, when the number fits in the word that is
read. The digits are those of `Nat.toDigits`, so the library's laws about them carry over once the
value of a row of digits is its `Nat.ofDigitChars` (`value_eq_ofDigitChars`).

Conversely a number is read from no other text than its numerals (`number?_eq_some_iff`), and one
that is read from so many characters has at most so many digits (`number?_lt_pow_length`).
-/

namespace DisplayFile.Text.Numeral

/-- The decimal digits of a number. -/
def digits (n : Nat) : List Char := Nat.toDigits 10 n

theorem isDigit_of_mem_digits {n : Nat} {c : Char} (h : c ∈ digits n) : c.isDigit = true :=
  Nat.isDigit_of_mem_toDigits (by decide) (by decide) h

/-- A text that starts with digits starts with no other character. -/
theorem digits_append_ne (n : Nat) (rest cs : List Char) {c : Char} (hc : c.isDigit = false) :
    digits n ++ rest ≠ c :: cs := by
  intro h
  rcases hdigits : digits n with - | ⟨d, ds⟩
  · exact Nat.toDigits_ne_nil hdigits
  · have hd : d.isDigit = true := isDigit_of_mem_digits (by rw [hdigits]; exact List.mem_cons_self)
    rw [hdigits, List.cons_append] at h
    rw [(List.cons.inj h).1, hc] at hd
    cases hd

theorem digits_ne_cons (n : Nat) (cs : List Char) {c : Char} (hc : c.isDigit = false) :
    digits n ≠ c :: cs := by
  have h := digits_append_ne n [] cs hc
  rwa [List.append_nil] at h

/-- The digits are ten characters in a row. -/
theorem toNat_of_isDigit {c : Char} (h : c.isDigit = true) : 48 ≤ c.toNat ∧ c.toNat ≤ 57 := by
  simpa [Char.isDigit, UInt32.le_iff_toNat_le] using h

theorem digit_lt_ten {c : Char} (h : c.isDigit = true) : digit c < 10 := by
  obtain ⟨-, hhigh⟩ := toNat_of_isDigit h
  show c.toNat - 48 < 10
  omega

theorem eq_zero_of_digit_eq_zero {c : Char} (hc : c.isDigit = true) (h : digit c = 0) :
    c = '0' := by
  obtain ⟨hlow, -⟩ := toNat_of_isDigit hc
  have hcode : c.toNat = '0'.toNat := Nat.le_antisymm (Nat.sub_eq_zero_iff_le.1 h) hlow
  exact Char.toNat_inj.1 hcode

/-- No digit is blank. -/
theorem isBlank_of_isDigit {c : Char} (h : c.isDigit = true) : isBlank c = false := by
  obtain ⟨hlow, hhigh⟩ := toNat_of_isDigit h
  rw [isBlank, List.any_eq_false]
  intro range hrange
  simp only [Bool.and_eq_true, decide_eq_true_eq]
  fin_cases hrange <;> simp only <;> omega

/-- A row of digits has no sign. -/
theorem unsigned_of_isDigit {cs : List Char} (h : ∀ c ∈ cs, c.isDigit = true) :
    unsigned cs = cs := by
  cases cs with
  | nil => rfl
  | cons c cs =>
    have hc : c ≠ '+' := by
      rintro rfl
      cases h '+' List.mem_cons_self
    rw [unsigned]
    rintro cs' ⟨⟩
    exact hc rfl

/-- A numeral is its digits, or a plus sign and its digits. -/
theorem eq_unsigned_or_eq_cons_unsigned (cs : List Char) :
    cs = unsigned cs ∨ cs = '+' :: unsigned cs := by
  rw [unsigned.eq_def]
  split
  · exact .inr rfl
  · exact .inl rfl

theorem value_eq_ofDigitChars (cs : List Char) : value cs = Nat.ofDigitChars 10 cs 0 := by
  rw [value, Nat.ofDigitChars_eq_foldl]
  refine congrArg (List.foldl · 0 cs) (funext fun n ↦ funext fun c ↦ ?_)
  rw [digit, Nat.mul_comm]

/-- The digits of a number have its value. -/
theorem value_digits (n : Nat) : value (digits n) = n := by
  rw [value_eq_ofDigitChars, digits, Nat.ofDigitChars_ten_toDigits]

/-- A number above zero is written without leading zeros. The induction takes the last digit off. -/
theorem head?_digits {n : Nat} (h : n ≠ 0) : (digits n).head? ≠ some '0' := by
  induction n using Nat.strongRecOn with
  | ind n ih =>
    rcases Nat.lt_or_ge n 10 with hlt | hge
    · have hdigit : ∀ d < 10, d ≠ 0 → Nat.digitChar d ≠ '0' := by decide
      rw [digits, Nat.toDigits_of_lt_base hlt]
      simpa using hdigit n hlt h
    · rw [digits, Nat.toDigits_of_base_le (by decide) hge,
        List.head?_append_of_ne_nil _ Nat.toDigits_ne_nil]
      exact ih (n / 10) (by omega) (by omega)

/-- The decimal writing of a number within bounds is read as the number. -/
theorem below?_digits {bound n : Nat} (h : n < bound) : below? bound (digits n) = some n := by
  have hunsigned : unsigned (digits n) = digits n :=
    unsigned_of_isDigit fun _ ↦ isDigit_of_mem_digits
  rw [below?_eq_some_iff, hunsigned]
  exact ⟨Nat.toDigits_ne_nil, fun _ ↦ isDigit_of_mem_digits, value_digits n, h⟩

/-! ### How large a numeral can be -/

/-- A digit behind others counts one, and these ten times as much as before. -/
theorem value_concat (cs : List Char) (c : Char) : value (cs ++ [c]) = value cs * 10 + digit c := by
  rw [value, List.foldl_append]
  rfl

/-- The value of a row of digits has no more digits than the row. -/
theorem value_lt_pow_length {cs : List Char} (h : ∀ c ∈ cs, c.isDigit = true) :
    value cs < 10 ^ cs.length := by
  induction cs using List.reverseRecOn with
  | nil => exact Nat.one_pos
  | append_singleton cs c ih =>
    have hvalue := ih fun x hx ↦ h x (List.mem_append_left [c] hx)
    have hdigit := digit_lt_ten (h c (by simp))
    rw [value_concat, List.length_append, List.length_singleton, Nat.pow_succ]
    omega

theorem length_unsigned_le (cs : List Char) : (unsigned cs).length ≤ cs.length := by
  rw [unsigned.eq_def]
  split
  · exact Nat.le_succ _
  · exact Nat.le_refl _

/-- A number that is read has no more digits than the numeral has characters. -/
theorem below?_lt_pow_length {bound n : Nat} {cs : List Char} (h : below? bound cs = some n) :
    n < 10 ^ cs.length := by
  obtain ⟨-, hdigits, rfl, -⟩ := below?_eq_some_iff.1 h
  exact Nat.lt_of_lt_of_le (value_lt_pow_length hdigits)
    (Nat.pow_le_pow_right (by decide) (length_unsigned_le cs))

end DisplayFile.Text.Numeral

namespace DisplayFile.Text

theorem trim_digits (n : Nat) : trim (Numeral.digits n) = Numeral.digits n :=
  trim_of_forall fun _ h ↦ Numeral.isBlank_of_isDigit (Numeral.isDigit_of_mem_digits h)

/-- The decimal writing of a number below 2³² is read as the word. -/
theorem number?_digits {n : Nat} (h : n < UInt32.size) :
    number? (String.ofList (Numeral.digits n)) = some (UInt32.ofNat n) := by
  rw [number?, String.toList_ofList, trim_digits, Numeral.word?, Numeral.below?_digits h,
    Option.map_some]

/-- A number that is read has no more digits than the text has characters. -/
theorem number?_lt_pow_length {text : String} {n : UInt32} (h : number? text = some n) :
    n.toNat < 10 ^ text.length := by
  obtain ⟨k, hk, rfl⟩ := Option.map_eq_some_iff.1 h
  have hlength : (trim text.toList).length ≤ text.length := by
    rw [← String.length_toList]
    exact length_trim_le text.toList
  calc (UInt32.ofNat k).toNat
      ≤ k := Nat.mod_le k _
    _ < 10 ^ (trim text.toList).length := Numeral.below?_lt_pow_length hk
    _ ≤ 10 ^ text.length := Nat.pow_le_pow_right (by decide) hlength

/-- The text is a numeral of the number: a row of digits with this value, with or without a plus
sign in front and blanks around it. -/
def Denotes (text : String) (n : Nat) : Prop :=
  ∃ digits : List Char, digits ≠ [] ∧ (∀ c ∈ digits, c.isDigit = true) ∧
    Numeral.value digits = n ∧ (trim text.toList = digits ∨ trim text.toList = '+' :: digits)

/-- A text denotes a number when, without blanks around it and a sign, it is a row of digits with
its value. -/
theorem denotes_iff {text : String} {n : Nat} :
    Denotes text n ↔
      Numeral.unsigned (trim text.toList) ≠ [] ∧
        (∀ c ∈ Numeral.unsigned (trim text.toList), c.isDigit = true) ∧
          Numeral.value (Numeral.unsigned (trim text.toList)) = n := by
  constructor
  · rintro ⟨digits, hne, hdigits, rfl, htext | htext⟩
    · rw [htext, Numeral.unsigned_of_isDigit hdigits]
      exact ⟨hne, hdigits, rfl⟩
    · rw [htext]
      exact ⟨hne, hdigits, rfl⟩
  · rintro ⟨hne, hdigits, rfl⟩
    exact ⟨_, hne, hdigits, rfl, Numeral.eq_unsigned_or_eq_cons_unsigned _⟩

/-- A number is read from its numerals, and from nothing else. -/
theorem number?_eq_some_iff {text : String} {n : UInt32} :
    number? text = some n ↔ Denotes text n.toNat := by
  rw [number?, Numeral.word?, Option.map_eq_some_iff, denotes_iff]
  constructor
  · rintro ⟨k, hk, rfl⟩
    obtain ⟨hne, hdigits, hvalue, hlt⟩ := Numeral.below?_eq_some_iff.1 hk
    rw [UInt32.toNat_ofNat_of_lt' hlt]
    exact ⟨hne, hdigits, hvalue⟩
  · rintro ⟨hne, hdigits, hvalue⟩
    exact ⟨n.toNat, Numeral.below?_eq_some_iff.2 ⟨hne, hdigits, hvalue, n.toNat_lt⟩,
      UInt32.ofNat_toNat⟩

/-- No number is read from a text that is no numeral of a number below 2³². -/
theorem number?_eq_none_iff {text : String} :
    number? text = none ↔ ∀ n < UInt32.size, ¬Denotes text n := by
  constructor
  · intro hnone n hlt hdenotes
    have hsome : number? text = some (UInt32.ofNat n) :=
      number?_eq_some_iff.2 (by rwa [UInt32.toNat_ofNat_of_lt' hlt])
    rw [hnone] at hsome
    cases hsome
  · intro h
    refine Option.eq_none_iff_forall_ne_some.2 fun n hn ↦ ?_
    exact h n.toNat n.toNat_lt (number?_eq_some_iff.1 hn)

end DisplayFile.Text

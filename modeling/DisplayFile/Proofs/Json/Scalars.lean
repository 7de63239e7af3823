import DisplayFile.Json.Printer
import DisplayFile.Json.Reader
import DisplayFile.Proofs.Text.Decimal

/-!
# Strings and numbers read back

A string is read back from its text whatever characters it has. Each character is read back from its
escape by itself (`readString_escape`), so that a string is read back character by character up to
the quote that closes it.

A natural number that fits in 64 bits is read back from its decimal digits. Nothing closes a number:
it ends where the text goes on with something that cannot belong to it (`Delimited`).
-/

namespace DisplayFile.Json

open Text.Numeral (digits digits_append_ne isDigit_of_mem_digits head?_digits value value_digits)

/-! ### Strings -/

theorem hexValue?_hexDigit : ∀ n < 16, hexValue? (hexDigit n) = some n := by
  decide

/-- A control character is read back from its escape by number. -/
theorem readString_control (acc : String) {c : Char} (h : c.toNat < 0x20) (rest : List Char) :
    readString acc
        ('\\' :: 'u' :: '0' :: '0' :: hexDigit (c.toNat / 16) :: hexDigit (c.toNat % 16) :: rest) =
      readString (acc.push c) rest := by
  have hzero : hexValue? '0' = some 0 := rfl
  have hunit : unit? '0' '0' (hexDigit (c.toNat / 16)) (hexDigit (c.toNat % 16)) =
      some c.toNat := by
    have hn : ((0 * 16 + 0) * 16 + c.toNat / 16) * 16 + c.toNat % 16 = c.toNat := by omega
    simp only [unit?, hzero, hexValue?_hexDigit _ (show c.toNat / 16 < 16 by omega),
      hexValue?_hexDigit _ (show c.toNat % 16 < 16 by omega), Option.bind_eq_bind,
      Option.bind_some, hn]
    rfl
  have hhigh : isHighSurrogate c.toNat = false := by
    simp only [isHighSurrogate, Bool.and_eq_false_iff, decide_eq_false_iff_not]
    omega
  have hlow : isLowSurrogate c.toNat = false := by
    simp only [isLowSurrogate, Bool.and_eq_false_iff, decide_eq_false_iff_not]
    omega
  rw [readString, hunit]
  simp only [hhigh, hlow, Char.ofNat_toNat]
  rfl

/-- A character is read back from its escape by one letter. -/
theorem readString_letter (acc : String) {letter c : Char} (hletter : letter ≠ 'u')
    (h : unescape? letter = some c) (rest : List Char) :
    readString acc ('\\' :: letter :: rest) = readString (acc.push c) rest := by
  rw [readString.eq_def]
  simp [h, hletter]

/-- A character that needs no escape is read as it is. -/
theorem readString_plain (acc : String) {c : Char} (hquote : c ≠ '"') (hbackslash : c ≠ '\\')
    (hcontrol : ¬c.toNat < 0x20) (rest : List Char) :
    readString acc (c :: rest) = readString (acc.push c) rest := by
  rw [readString.eq_def]
  simp [hbackslash, hcontrol]

/-- **Every character is read back from its escape.** -/
theorem readString_escape (acc : String) (c : Char) (rest : List Char) :
    readString acc (escape c ++ rest) = readString (acc.push c) rest := by
  rw [escape]
  -- seven characters are escaped by a letter
  iterate 7
    split
    · next h =>
      subst h
      exact readString_letter acc (by decide) rfl rest
  split
  · next h => exact readString_control acc h rest
  · next hcontrol => exact readString_plain acc ‹_› ‹_› hcontrol rest

/-- **A string is read back from its escapes**, up to the quote that closes it. -/
theorem readString_flatMap_escape (acc : String) (cs rest : List Char) :
    readString acc (cs.flatMap escape ++ '"' :: rest) = .ok (acc ++ String.ofList cs, rest) := by
  induction cs generalizing acc with
  | nil => simp [readString]
  | cons c cs ih =>
    rw [List.flatMap_cons, List.append_assoc, readString_escape, ih, Text.push_append_ofList]

theorem toList_quote (s : String) : (quote s).toList = '"' :: (s.toList.flatMap escape ++ ['"']) :=
  String.toList_ofList

/-- A string is read back from its text, of which the opening quote has been read. -/
theorem readString_toList (s : String) (rest : List Char) :
    readString "" (s.toList.flatMap escape ++ ['"'] ++ rest) = .ok (s, rest) := by
  rw [List.append_assoc, List.singleton_append, readString_flatMap_escape, String.ofList_toList,
    String.empty_append]

/-! ### Numbers -/

/-- The text goes on with nothing that could belong to a number. -/
def Delimited (rest : List Char) : Prop :=
  ∀ c ∈ rest.head?, c.isDigit = false ∧ c ≠ '.' ∧ c ≠ 'e' ∧ c ≠ 'E'

/-- The digits of a number are taken up to where the text goes on. -/
theorem readDigits_digits (n : Nat) {rest : List Char} (h : Delimited rest) :
    readDigits (digits n ++ rest) = .ok (digits n, rest) := by
  have hdigits : ∀ c ∈ digits n, c.isDigit = true := fun c ↦ isDigit_of_mem_digits
  have hrest : rest.takeWhile Char.isDigit = [] := by
    cases rest with
    | nil => rfl
    | cons c rest => exact List.takeWhile_cons_of_neg (by simp [(h c rfl).1])
  have htake : (digits n ++ rest).takeWhile Char.isDigit = digits n := by
    rw [List.takeWhile_append_of_pos hdigits, hrest, List.append_nil]
  have hne : (digits n).isEmpty = false := List.isEmpty_eq_false_iff.2 Nat.toDigits_ne_nil
  simp only [readDigits, htake, List.drop_left, hne]
  rfl

/-- They are the whole part of a number, as none of them leads with a zero but the single one. -/
theorem readWhole_digits (n : Nat) {rest : List Char} (h : Delimited rest) :
    readWhole (digits n ++ rest) = .ok (digits n, rest) := by
  have hzero : ¬((digits n).head? = some '0' ∧ (digits n).length ≠ 1) := by
    rintro ⟨hhead, hlength⟩
    by_cases hn : n = 0
    · subst hn
      exact hlength rfl
    · exact head?_digits hn hhead
  rw [readWhole, readDigits_digits n h]
  exact if_neg hzero

theorem readFraction_of_delimited {rest : List Char} (h : Delimited rest) :
    readFraction rest = .ok (none, rest) := by
  rw [readFraction]
  rintro cs rfl
  exact (h '.' rfl).2.1 rfl

theorem readExponent_of_delimited {rest : List Char} (h : Delimited rest) :
    readExponent rest = .ok (none, rest) := by
  rw [readExponent]
  · rintro cs rfl
    exact (h 'e' rfl).2.2.1 rfl
  · rintro cs rfl
    exact (h 'E' rfl).2.2.2 rfl

/-- The digits of a number are those of an integer, if it fits in 64 bits. -/
theorem integer?_digits {n : Nat} (h : n < UInt64.size) :
    NumberText.integer?
      { negative := false, whole := digits n, fraction := [], exponent := 0, isInteger := true } =
        some n := by
  have hvalue : (digits n).foldl (fun n c ↦ n * 10 + digitValue c) 0 = n := value_digits n
  simp only [NumberText.integer?, hvalue]
  exact if_pos h

/-- **A natural number of 64 bits is read back from its digits.** -/
theorem readNumber_digits {n : Nat} (hn : n < UInt64.size) {rest : List Char}
    (h : Delimited rest) : readNumber (digits n ++ rest) = .ok (.integer n, rest) := by
  rw [readNumber.eq_def]
  split
  next negative cs hsign =>
    split at hsign
    · next hminus => exact absurd hminus (digits_append_ne n rest _ (by decide))
    · cases hsign
      rw [readWhole_digits n h]
      dsimp only [bind, Except.bind]
      rw [readFraction_of_delimited h]
      dsimp only
      rw [readExponent_of_delimited h]
      dsimp only [Option.getD, Option.isNone]
      rw [Bool.and_self, NumberText.number, integer?_digits hn]
      rfl

end DisplayFile.Json

import DisplayFile.Text.Blank

/-!
# Numerals

Numbers are written in decimal digits with an optional plus sign in front. Nothing else is read:
no minus sign, no digits but the ASCII ones, no blanks inside. Leading zeros are allowed. A number
belongs to a word of fixed width, and a numeral whose value does not fit there is refused, never
reduced.
-/

namespace DisplayFile.Text.Numeral

/-- The value of a digit. -/
def digit (c : Char) : Nat := c.toNat - '0'.toNat

/-- The value of a row of digits. -/
def value (digits : List Char) : Nat :=
  digits.foldl (fun n c ↦ n * 10 + digit c) 0

/-- The digits of a numeral: what follows the plus sign, if it has one. -/
def unsigned : List Char → List Char
  | '+' :: digits => digits
  | digits => digits

/-- The value of a numeral below `bound`. -/
def below? (bound : Nat) (numeral : List Char) : Option Nat :=
  let digits := unsigned numeral
  if digits ≠ [] ∧ digits.all Char.isDigit ∧ value digits < bound then some (value digits) else none

/-- The value of a numeral that fits in one byte. -/
def byte? (numeral : List Char) : Option UInt8 :=
  (below? UInt8.size numeral).map UInt8.ofNat

/-- The value of a numeral that fits in 32 bits. -/
def word? (numeral : List Char) : Option UInt32 :=
  (below? UInt32.size numeral).map UInt32.ofNat

/-- A numeral is read exactly when it has digits, only digits, and a value within bounds. -/
theorem below?_eq_some_iff {bound : Nat} {numeral : List Char} {n : Nat} :
    below? bound numeral = some n ↔
      unsigned numeral ≠ [] ∧ (∀ c ∈ unsigned numeral, c.isDigit = true) ∧
        value (unsigned numeral) = n ∧ n < bound := by
  simp only [below?, Option.ite_none_right_eq_some, Option.some.injEq, List.all_eq_true]
  constructor
  · rintro ⟨⟨hne, hall, hlt⟩, rfl⟩
    exact ⟨hne, hall, rfl, hlt⟩
  · rintro ⟨hne, hall, rfl, hlt⟩
    exact ⟨⟨hne, hall, hlt⟩, rfl⟩

end DisplayFile.Text.Numeral

namespace DisplayFile.Text

/-- The number in a column or a keyword parameter: a numeral with blanks around it, below 2³². -/
def number? (text : String) : Option UInt32 :=
  Numeral.word? (trim text.toList)

end DisplayFile.Text

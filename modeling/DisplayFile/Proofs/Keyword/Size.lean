import DisplayFile.Proofs.Keyword.Endings
import Mathlib.Algebra.GroupWithZero.Nat

/-!
# How much is kept of keyword text

Everything that a scan holds was read: names, values and the constant have together no more
characters than the lines that they were read from. Blanks, brackets, quotes, signs and constants
that are replaced are what is missing.

The count is over the whole scan (`Scan.size`), also over what is under construction, because a text
only moves between the parts of a scan when something ends. A character makes it larger by one at
most, and the end of a line does not make it larger.
-/

namespace DisplayFile.Keyword

/-- The number of characters in the name and in the value of a token. -/
def Token.size {α : Type} (t : Token α) : Nat := t.word.length + t.value.length

namespace Scan

variable {α : Type} (stamp : α)

/-- The number of characters that a scan holds. -/
def size (s : Scan α) : Nat :=
  (s.tokens.toList.map Token.size).sum + s.constant.length + s.word.length + s.inner.length

/-- A name that ends moves to the tokens, with nothing gained or lost. -/
theorem size_endWord (s : Scan α) : (s.endWord stamp).size = s.size := by
  rw [endWord]
  split
  · rfl
  · simp only [size, Array.toList_push, List.map_append, List.map_singleton, List.sum_append,
      List.sum_singleton, Token.size, String.length_empty]
    omega

/-- A constant that is closed replaces the one before, so a scan may get smaller. -/
theorem size_endConstant_le (s : Scan α) : s.endConstant.size ≤ s.size := by
  simp only [size, endConstant, String.length_empty]
  omega

theorem size_keep (s : Scan α) (c : Char) : (s.keep c).size = s.size + 1 := by
  simp only [size, keep, String.length_push]
  omega

/-- Outside brackets and quotes a character is collected once or not at all. -/
theorem size_plain_le (s : Scan α) (c : Char) : (s.plain stamp c).size ≤ s.size + 1 := by
  rw [plain]
  split
  · exact Nat.le_succ_of_le (size_endWord stamp s).le
  · split
    · exact Nat.le_succ _
    · split
      · exact Nat.le_succ _
      · split
        · exact Nat.le_succ _
        · split
          · exact (size_keep s c).le
          · simp only [size, String.length_push]
            omega

theorem size_bracketed_le (depth : Nat) (s : Scan α) (c : Char) :
    (s.bracketed depth c).size ≤ s.size + 1 := by
  rw [bracketed.eq_def]
  split
  · exact Nat.le_succ _
  · split
    · cases depth <;> exact Nat.le_succ _
    · exact (size_keep s c).le

theorem size_quoted_le (s : Scan α) (c : Char) : (s.quoted c).size ≤ s.size + 1 := by
  rw [quoted]
  split
  · exact Nat.le_succ _
  · split
    · exact Nat.le_succ _
    · exact (size_keep s c).le

/-- Behind a quote a character is collected once at most, whether it is a quote or not. -/
theorem size_closing_le (s : Scan α) (c : Char) : (s.closing stamp c).size ≤ s.size + 1 := by
  rw [closing]
  split
  · exact (size_keep s c).le
  · calc (s.endConstant.plain stamp c).size
        ≤ s.endConstant.size + 1 := size_plain_le stamp s.endConstant c
      _ ≤ s.size + 1 := Nat.succ_le_succ s.size_endConstant_le

/-- A character adds itself at most. -/
theorem size_char_le (s : Scan α) (c : Char) : (s.char stamp c).size ≤ s.size + 1 := by
  rw [char]
  cases s.mode with
  | plain => exact size_plain_le stamp s c
  | bracketed depth => exact size_bracketed_le depth s c
  | quoted => exact size_quoted_le s c
  | closing => exact size_closing_le stamp s c

/-- The end of a line adds nothing. -/
theorem size_endLine_le (s : Scan α) : (s.endLine stamp).size ≤ s.size := by
  rw [endLine]
  cases s.mode with
  | plain => exact (size_endWord stamp s).le
  | bracketed depth => exact Nat.le_refl _
  | quoted => exact Nat.le_refl _
  | closing => exact (size_endWord stamp s.endConstant).le.trans s.size_endConstant_le

/-- Characters make a scan larger by their number at most. -/
theorem size_chars_le (s : Scan α) (cs : List Char) :
    (s.chars stamp cs).size ≤ s.size + cs.length := by
  induction cs generalizing s with
  | nil => exact Nat.le_refl _
  | cons c cs ih =>
    calc ((s.char stamp c).chars stamp cs).size
        ≤ (s.char stamp c).size + cs.length := ih _
      _ ≤ s.size + (cs.length + 1) := by
          have := size_char_le stamp s c
          omega

theorem length_withoutContinuation_le (text : List Char) :
    (withoutContinuation text).length ≤ text.length := by
  rw [withoutContinuation]
  split
  · exact (List.dropLast_sublist text).length_le
  · exact Nat.le_refl _

/-- A line makes a scan larger by its characters at most; its end collects nothing. -/
theorem size_line_le (s : Scan α) (text : String) :
    (s.line text stamp).size ≤ s.size + text.length := by
  have hread := length_withoutContinuation_le text.toList
  rw [String.length_toList] at hread
  calc (s.line text stamp).size
      ≤ (s.chars stamp (withoutContinuation text.toList)).size := size_endLine_le stamp _
    _ ≤ s.size + (withoutContinuation text.toList).length := size_chars_le stamp s _
    _ ≤ s.size + text.length := Nat.add_le_add_left hread _

/-- **Lines add their characters at most.** -/
theorem size_lines_le (s : Scan α) (ls : List (String × α)) :
    (s.lines ls).size ≤ s.size + (ls.map (·.1.length)).sum := by
  induction ls generalizing s with
  | nil => exact Nat.le_refl _
  | cons l ls ih =>
    have hline := size_line_le l.2 s l.1
    calc ((s.line l.1 l.2).lines ls).size
        ≤ (s.line l.1 l.2).size + (ls.map (·.1.length)).sum := ih _
      _ ≤ s.size + ((l :: ls).map (·.1.length)).sum := by
          rw [List.map_cons, List.sum_cons]
          omega

end Scan

/-- The number of characters in the text of an area. -/
def areaSize (area : List Line) : Nat := (area.map fun l ↦ l.text.length).sum

/-- What is kept of a keyword area has no more characters than the area. -/
theorem size_scanArea_le (area : List Line) : (scanArea area).size ≤ areaSize area := by
  have hsize := Scan.size_lines_le ({} : Scan String) (area.map fun l ↦ (l.text, l.zone))
  rw [List.map_map] at hsize
  exact hsize.trans (Nat.zero_add _).le

/-- The constant of a keyword area is not longer than its text. -/
theorem length_constant_resolve_le (area : List Line) :
    (resolve area).constant.length ≤ areaSize area := by
  have hsize := size_scanArea_le area
  rw [Scan.size] at hsize
  show (scanArea area).constant.length ≤ areaSize area
  omega

end DisplayFile.Keyword

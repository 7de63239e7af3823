import DisplayFile.Text.Blank
import Mathlib.Data.List.TakeWhile

/-!
# Texts as lists of characters

Lines and keyword text are taken apart as lists of characters and put together as strings. This
module has the laws by which what was put together is taken apart again: a string that was built
from a list is that list, a text padded with spaces trims to what the text trims to, and trimming
takes off all the blanks around a text and nothing else (`trim_between`, `exists_eq_append_trim`).
-/

namespace DisplayFile.Text

@[simp] theorem isEmpty_ofList (cs : List Char) : (String.ofList cs).isEmpty = cs.isEmpty := by
  rw [Bool.eq_iff_iff, String.isEmpty_iff, String.ofList_eq_empty_iff, List.isEmpty_iff]

theorem push_append_ofList (s : String) (c : Char) (cs : List Char) :
    s.push c ++ String.ofList cs = s ++ String.ofList (c :: cs) :=
  String.ext (by simp)

/-! ### Trimming -/

/-- Blanks behind a text are trimmed. -/
theorem trimEnd_append_of_forall {blanks : List Char} (h : ∀ c ∈ blanks, isBlank c = true)
    (cs : List Char) : trimEnd (cs ++ blanks) = trimEnd cs := by
  have hdrop : (blanks.reverse ++ cs.reverse).dropWhile isBlank = cs.reverse.dropWhile isBlank :=
    List.dropWhile_append_of_pos fun c hc ↦ h c (List.mem_reverse.1 hc)
  rw [trimEnd, List.reverse_append, hdrop, trimEnd]

/-- Spaces behind a text are blanks behind it. -/
theorem trimEnd_append_replicate (cs : List Char) (n : Nat) :
    trimEnd (cs ++ List.replicate n ' ') = trimEnd cs := by
  refine trimEnd_append_of_forall (fun c hc ↦ ?_) cs
  rw [List.eq_of_mem_replicate hc]
  exact isBlank_space

theorem trimStart_replicate_append (n : Nat) (cs : List Char) :
    trimStart (List.replicate n ' ' ++ cs) = trimStart cs := by
  refine List.dropWhile_append_of_pos fun c hc ↦ ?_
  rw [List.eq_of_mem_replicate hc]
  exact isBlank_space

/-- Spaces behind a text are trimmed. -/
theorem trim_rightpad (n : Nat) (cs : List Char) : trim (cs.rightpad n ' ') = trim cs := by
  rw [trim, List.rightpad, trimStart, List.dropWhile_append]
  cases h : (cs.dropWhile isBlank).isEmpty with
  | true =>
    -- all of the text is blank, and so is the padding
    rw [if_pos rfl, trim, trimStart, List.isEmpty_iff.1 h]
    have hspaces := trimStart_replicate_append (n - cs.length) []
    rw [List.append_nil] at hspaces
    exact congrArg trimEnd hspaces
  | false => rw [if_neg Bool.false_ne_true, trimEnd_append_replicate, trim, trimStart]

/-- A text without blanks has none behind it. -/
theorem trimEnd_of_forall {cs : List Char} (h : ∀ c ∈ cs, isBlank c = false) : trimEnd cs = cs := by
  rcases cs.eq_nil_or_concat with rfl | ⟨front, c, rfl⟩
  · rfl
  · rw [List.concat_eq_append] at h ⊢
    exact trimEnd_concat_of_not_isBlank front (h c (by simp))

/-- Blanks around a text that has none itself are trimmed. -/
theorem trim_between {before text after : List Char} (hbefore : ∀ c ∈ before, isBlank c = true)
    (htext : ∀ c ∈ text, isBlank c = false) (hafter : ∀ c ∈ after, isBlank c = true) :
    trim (before ++ text ++ after) = text := by
  have hstart : trimStart (before ++ text ++ after) = trimStart (text ++ after) := by
    rw [List.append_assoc]
    exact List.dropWhile_append_of_pos hbefore
  rw [trim, hstart]
  cases text with
  | nil =>
    have hblank : trimStart after = [] := List.dropWhile_eq_nil_iff.2 hafter
    rw [List.nil_append, hblank, trimEnd_nil]
  | cons c text =>
    have hstop : trimStart (c :: text ++ after) = c :: text ++ after := by
      rw [trimStart, List.cons_append, List.dropWhile_cons_of_neg (by simp [htext c (by simp)])]
    rw [hstop, trimEnd_append_of_forall hafter, trimEnd_of_forall htext]

/-- A text without blanks is trimmed. -/
theorem trim_of_forall {cs : List Char} (h : ∀ c ∈ cs, isBlank c = false) : trim cs = cs := by
  have hbetween := trim_between (List.forall_mem_nil _) h (List.forall_mem_nil _)
  rwa [List.nil_append, List.append_nil] at hbetween

/-- A text is what is left of it when it is trimmed, with blanks around. -/
theorem exists_eq_append_trim (cs : List Char) :
    ∃ before after : List Char, (∀ c ∈ before, isBlank c = true) ∧
      (∀ c ∈ after, isBlank c = true) ∧ cs = before ++ trim cs ++ after := by
  refine ⟨cs.takeWhile isBlank, ((trimStart cs).reverse.takeWhile isBlank).reverse,
    fun c hc ↦ List.mem_takeWhile_imp hc,
    fun c hc ↦ List.mem_takeWhile_imp (List.mem_reverse.1 hc), ?_⟩
  have hend : trim cs ++ ((trimStart cs).reverse.takeWhile isBlank).reverse = trimStart cs := by
    rw [trim, trimEnd, ← List.reverse_append, List.takeWhile_append_dropWhile, List.reverse_reverse]
  rw [List.append_assoc, hend, trimStart, List.takeWhile_append_dropWhile]

/-- Of a blank text nothing is left. -/
theorem trim_eq_nil_of_forall {cs : List Char} (h : ∀ c ∈ cs, isBlank c = true) : trim cs = [] := by
  have hstart : trimStart cs = [] := List.dropWhile_eq_nil_iff.2 h
  rw [trim, hstart, trimEnd_nil]

/-- Trimming does not lengthen a text. -/
theorem length_trimEnd_le (cs : List Char) : (trimEnd cs).length ≤ cs.length :=
  calc (trimEnd cs).length
      = (cs.reverse.dropWhile isBlank).length := List.length_reverse
    _ ≤ cs.reverse.length := List.length_dropWhile_le _ _
    _ = cs.length := List.length_reverse

theorem length_trim_le (cs : List Char) : (trim cs).length ≤ cs.length :=
  calc (trim cs).length
      ≤ (trimStart cs).length := length_trimEnd_le _
    _ ≤ cs.length := List.length_dropWhile_le _ _

theorem trimEnd_eq_nil_of_forall {cs : List Char} (h : ∀ c ∈ cs, isBlank c = true) :
    trimEnd cs = [] :=
  trimEnd_append_of_forall h []

end DisplayFile.Text

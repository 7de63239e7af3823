import DisplayFile.Text.Lines

/-!
# Lines of a text

A text has no more lines than characters, and no line has a line feed in it.

**How lines are written.** Each line ends in a line feed, or in a carriage return and a line feed,
and the last one need not end unless it is empty. `Writes` says which texts are written in this way
with given lines, and it is the converse of cutting a text: every text is written with its lines
(`writes_lines`), and lines are found again in all the texts that are written with them
(`Writes.lines_eq`). For the latter a line must be told from its end, so it has no line feed, and no
carriage return at its end (`IsLine`).
-/

namespace DisplayFile.Text

/-- Induction over the separators of a list. -/
@[elab_as_elim]
theorem separatorInduction {α : Type} (separator : α) {motive : List α → Prop}
    (whole : ∀ xs, separator ∉ xs → motive xs)
    (append : ∀ xs ys, separator ∉ xs → motive ys → motive (xs ++ separator :: ys))
    (xs : List α) : motive xs := by
  induction hn : xs.length using Nat.strongRecOn generalizing xs with
  | ind n ih =>
    by_cases hseparator : separator ∈ xs
    · obtain ⟨as, bs, rfl, has⟩ := List.eq_append_cons_of_mem hseparator
      refine append as bs has (ih bs.length ?_ bs rfl)
      rw [← hn, List.length_append, List.length_cons]
      omega
    · exact whole xs hseparator

theorem linesOfPieces_cons {piece : List Char} {rest : List (List Char)} (h : rest ≠ []) :
    linesOfPieces (piece :: rest) = dropReturn piece :: linesOfPieces rest := by
  rw [linesOfPieces]
  exact h

/-- Every piece is a line, but for an empty one at the end. -/
theorem length_linesOfPieces (ps : List (List Char)) :
    (linesOfPieces ps).length = if ps.getLast? = some [] then ps.length - 1 else ps.length := by
  induction ps with
  | nil => rfl
  | cons piece rest ih =>
    rcases rest with - | ⟨next, rest⟩
    · cases piece <;> rfl
    · rw [linesOfPieces_cons (List.cons_ne_nil _ _), List.length_cons, ih, List.getLast?_cons_cons]
      split <;> simp

/-- Each line takes a character of its own: the line feed that ends it, or one of the last line. -/
theorem length_linesOfPieces_le (cs : List Char) :
    (linesOfPieces (pieces '\n' cs)).length ≤ cs.length := by
  induction cs using separatorInduction '\n' with
  | whole cs hcs =>
    rw [pieces_eq_singleton hcs, linesOfPieces]
    cases cs <;> simp
  | append as bs has ih =>
    rw [pieces_append_cons has, linesOfPieces_cons (pieces_ne_nil _ _), List.length_cons,
      List.length_append, List.length_cons]
    omega

theorem length_lines_le (text : String) : (lines text).length ≤ text.toList.length := by
  rw [lines, List.length_map]
  exact length_linesOfPieces_le text.toList

/-! ### Line feeds -/

theorem not_mem_of_mem_pieces {separator : Char} {cs piece : List Char}
    (h : piece ∈ pieces separator cs) : separator ∉ piece := by
  induction cs using separatorInduction separator with
  | whole cs hcs =>
    rw [pieces_eq_singleton hcs, List.mem_singleton] at h
    rwa [h]
  | append as bs has ih =>
    rw [pieces_append_cons has] at h
    obtain rfl | h := List.mem_cons.1 h
    · exact has
    · exact ih h

/-- A line has the characters of a piece. -/
theorem exists_mem_of_mem_linesOfPieces {ps : List (List Char)} {line : List Char}
    (h : line ∈ linesOfPieces ps) : ∃ piece ∈ ps, line ⊆ piece := by
  induction ps with
  | nil => cases h
  | cons piece rest ih =>
    rcases rest with - | ⟨next, rest⟩
    · rw [linesOfPieces] at h
      split at h
      · cases h
      · exact ⟨piece, List.mem_cons_self, (List.mem_singleton.1 h) ▸ List.Subset.refl _⟩
    · rw [linesOfPieces_cons (List.cons_ne_nil _ _)] at h
      obtain rfl | h := List.mem_cons.1 h
      · refine ⟨piece, List.mem_cons_self, ?_⟩
        rw [dropReturn]
        split
        · exact List.dropLast_subset piece
        · exact List.Subset.refl piece
      · obtain ⟨piece', hpiece', hsubset⟩ := ih h
        exact ⟨piece', List.mem_cons_of_mem piece hpiece', hsubset⟩

/-- No line has a line feed in it. -/
theorem not_mem_of_mem_lines {text line : String} (h : line ∈ lines text) :
    '\n' ∉ line.toList := by
  obtain ⟨cs, hcs, rfl⟩ := List.mem_map.1 h
  obtain ⟨piece, hpiece, hsubset⟩ := exists_mem_of_mem_linesOfPieces hcs
  rw [String.toList_ofList]
  exact fun hmem ↦ not_mem_of_mem_pieces hpiece (hsubset hmem)

/-! ### How lines are written -/

/-- How a line is ended. -/
inductive LineEnd where
  | feed
  | returnFeed
deriving DecidableEq, Repr

/-- The characters that end a line. -/
def LineEnd.text : LineEnd → String
  | feed => "\n"
  | returnFeed => "\r\n"

/-- The line has no line feed, and ends in no carriage return. -/
structure IsLine (line : String) : Prop where
  no_feed : '\n' ∉ line.toList
  no_return : line.toList.getLast? ≠ some '\r'

/-- The text is written with these lines: each with an end of its own choice, but the last one
possibly without, unless it is empty. -/
inductive Writes : List String → String → Prop where
  | nil : Writes [] ""
  | unended {line : String} (h : line ≠ "") : Writes [line] line
  | ended {lines : List String} {text : String} (line : String) (lineEnd : LineEnd)
      (h : Writes lines text) : Writes (line :: lines) (line ++ lineEnd.text ++ text)

/-! ### Lines of a text that is written -/

theorem dropReturn_concat (cs : List Char) : dropReturn (cs ++ ['\r']) = cs := by
  simp [dropReturn]

theorem dropReturn_of_getLast? {cs : List Char} (h : cs.getLast? ≠ some '\r') :
    dropReturn cs = cs := by
  rw [dropReturn, if_neg h]

/-- A line feed ends the first line. -/
theorem lines_append_feed {cs : List Char} (h : '\n' ∉ cs) (rest : List Char) :
    lines (String.ofList (cs ++ '\n' :: rest)) =
      String.ofList (dropReturn cs) :: lines (String.ofList rest) := by
  rw [lines, String.toList_ofList, pieces_append_cons h, linesOfPieces_cons (pieces_ne_nil _ _),
    List.map_cons, lines, String.toList_ofList]

/-- A text without line feeds is one line, or none when it is empty. -/
theorem lines_of_not_mem {cs : List Char} (h : '\n' ∉ cs) :
    lines (String.ofList cs) = if cs = [] then [] else [String.ofList cs] := by
  rw [lines, String.toList_ofList, pieces_eq_singleton h, linesOfPieces]
  cases cs <;> rfl

/-- The end of a line is not part of it, whichever it is. -/
theorem lines_append_end {line : String} (h : IsLine line) (lineEnd : LineEnd) (text : String) :
    lines (line ++ lineEnd.text ++ text) = line :: lines text := by
  obtain ⟨hfeed, hreturn⟩ := h
  cases lineEnd with
  | feed =>
    have htext : line ++ "\n" ++ text = String.ofList (line.toList ++ '\n' :: text.toList) :=
      String.ext (by simp)
    rw [LineEnd.text, htext, lines_append_feed hfeed, dropReturn_of_getLast? hreturn,
      String.ofList_toList, String.ofList_toList]
  | returnFeed =>
    have htext : line ++ "\r\n" ++ text =
        String.ofList ((line.toList ++ ['\r']) ++ '\n' :: text.toList) := String.ext (by simp)
    have hfeed' : '\n' ∉ line.toList ++ ['\r'] := by simpa using hfeed
    rw [LineEnd.text, htext, lines_append_feed hfeed', dropReturn_concat, String.ofList_toList,
      String.ofList_toList]

/-- **Lines are found again in a text that is written with them**, in whatever way they are
ended. -/
theorem Writes.lines_eq {ls : List String} {text : String} (h : Writes ls text)
    (hls : ∀ line ∈ ls, IsLine line) : lines text = ls := by
  induction h with
  | nil => rfl
  | @unended line hne =>
    have hread := lines_of_not_mem (hls line List.mem_cons_self).no_feed
    rwa [if_neg fun hnil ↦ hne (String.toList_eq_nil_iff.1 hnil), String.ofList_toList] at hread
  | ended line lineEnd h ih =>
    obtain ⟨hline, hrest⟩ := List.forall_mem_cons.1 hls
    rw [lines_append_end hline, ih hrest]

/-! ### Writing the lines of a text -/

/-- **Every text is written with its lines.** -/
theorem writes_lines (text : String) : Writes (lines text) text := by
  obtain ⟨cs, rfl⟩ : ∃ cs, text = String.ofList cs := ⟨text.toList, String.ofList_toList.symm⟩
  induction cs using separatorInduction '\n' with
  | whole cs hcs =>
    rw [lines_of_not_mem hcs]
    split
    · next hnil =>
      rw [hnil]
      exact .nil
    · next hne => exact .unended fun hempty ↦ hne (String.ofList_eq_empty_iff.1 hempty)
  | append as bs has ih =>
    rw [lines_append_feed has]
    by_cases hreturn : as.getLast? = some '\r'
    · obtain ⟨front, rfl⟩ := List.getLast?_eq_some_iff.1 hreturn
      have htext : String.ofList (front ++ ['\r'] ++ '\n' :: bs) =
          String.ofList front ++ LineEnd.returnFeed.text ++ String.ofList bs :=
        String.ext (by simp [LineEnd.text])
      rw [dropReturn_concat, htext]
      exact .ended _ _ ih
    · have htext : String.ofList (as ++ '\n' :: bs) =
          String.ofList as ++ LineEnd.feed.text ++ String.ofList bs :=
        String.ext (by simp [LineEnd.text])
      rw [dropReturn_of_getLast? hreturn, htext]
      exact .ended _ _ ih

end DisplayFile.Text

import DisplayFile.Proofs.Text.Characters
import DisplayFile.Text.Columns

/-!
# Columns of padded lines

A column of a line is defined to be blank where the line has ended. This module says that nothing
else is meant by blanks that fill a line up: a span is cut out of any line that is filled up far
enough (`take_drop_rightpad`), it holds its columns one after the other (`span_eq_map`), and lines
with the same columns are the same up to the blanks that end them (`trimEnd_eq_of_column_eq`).
-/

namespace DisplayFile.Text

/-- Behind its end a line is blank. -/
theorem column_of_length_le {line : List Char} {i : Nat} (h : line.length ≤ i) :
    column line i = ' ' := by
  rw [column, List.getD_eq_getElem?_getD, List.getElem?_eq_none h, Option.getD_none]

/-- Blanks at the end of a line do not change its columns. -/
theorem column_append_replicate (line : List Char) (n i : Nat) :
    column (line ++ List.replicate n ' ') i = column line i := by
  rcases Nat.lt_or_ge i line.length with hlt | hge
  · rw [column, column, List.getD_eq_getElem?_getD, List.getElem?_append_left hlt,
      List.getD_eq_getElem?_getD]
  · rw [column_of_length_le hge, column, List.getD_eq_getElem?_getD,
      List.getElem?_append_right hge, List.getElem?_replicate]
    split <;> rfl

/-- What a line that is filled up holds in a column. -/
theorem getElem?_rightpad (line : List Char) {i width : Nat} (h : i < width) :
    (line.rightpad width ' ')[i]? = some (column line i) := by
  have hlength : i < (line.rightpad width ' ').length := by
    rw [List.length_rightpad]
    omega
  rw [← column_append_replicate line (width - line.length), column, ← List.rightpad,
    List.getD_eq_getElem?_getD, List.getElem?_eq_getElem hlength, Option.getD_some]

theorem column_drop (line : List Char) (start i : Nat) :
    column (line.drop start) i = column line (start + i) := by
  rw [column, column, List.getD_eq_getElem?_getD, List.getElem?_drop, List.getD_eq_getElem?_getD]

/-- A span holds its columns, one after the other. -/
theorem span_eq_map (line : List Char) (start stop : Nat) :
    span line start stop = (List.range' start (stop - start)).map (column line) := by
  refine List.ext_getElem (by simp [length_span]) fun i hspan hmap ↦ ?_
  rw [length_span] at hspan
  have hcolumn : column ((line.drop start).take (stop - start)) i = column line (start + i) := by
    rw [← column_drop, column, column, List.getD_eq_getElem?_getD, List.getElem?_take, if_pos hspan,
      List.getD_eq_getElem?_getD]
  rw [List.getElem_map, List.getElem_range', Nat.one_mul, ← hcolumn, ← Option.some_inj,
    ← List.getElem?_eq_getElem, span, getElem?_rightpad _ hspan]

/-- A span is cut out of the line, when the line is filled up far enough. -/
theorem take_drop_rightpad (line : List Char) {start stop width : Nat} (h : stop ≤ width) :
    ((line.rightpad width ' ').drop start).take (stop - start) = span line start stop := by
  have hlength : (line.rightpad width ' ').length = max width line.length := List.length_rightpad
  refine List.ext_getElem ?_ fun i hcut hspan ↦ ?_
  · rw [length_span, List.length_take, List.length_drop]
    omega
  · rw [length_span] at hspan
    have hcolumn := getElem?_rightpad line (show start + i < width by omega)
    simp only [span_eq_map, List.getElem_take, List.getElem_drop, List.getElem_map,
      List.getElem_range', Nat.one_mul]
    rw [← Option.some_inj, ← hcolumn, ← List.getElem?_eq_getElem]

/-- Lines with the same columns differ in nothing but the blanks that end them. -/
theorem trimEnd_eq_of_column_eq {as bs : List Char} (h : ∀ i, column as i = column bs i) :
    trimEnd as = trimEnd bs := by
  -- filled up to the same width they are the same line
  have hpadded : as.rightpad (max as.length bs.length) ' ' =
      bs.rightpad (max as.length bs.length) ' ' := by
    refine List.ext_getElem? fun i ↦ ?_
    rcases Nat.lt_or_ge i (max as.length bs.length) with hlt | hge
    · rw [getElem?_rightpad as hlt, getElem?_rightpad bs hlt, h]
    · rw [List.getElem?_eq_none (by rw [List.length_rightpad]; omega),
        List.getElem?_eq_none (by rw [List.length_rightpad]; omega)]
  calc trimEnd as
      = trimEnd (as.rightpad (max as.length bs.length) ' ') :=
        (trimEnd_append_replicate as _).symm
    _ = trimEnd (bs.rightpad (max as.length bs.length) ' ') := by rw [hpadded]
    _ = trimEnd bs := trimEnd_append_replicate bs _

end DisplayFile.Text

import DisplayFile.Proofs.Member.Growth
import Mathlib.Data.List.Induction

/-!
# Counting fields by lines

Every format has one field for each line of its range that opens one, in the order of the lines
(`length_fields_ofLines`). So the field of a line is found by counting: its place among the fields
of the format is the number of such lines in the range that stand before it.

The statement is about ranges, which are only complete when a format is closed, so the proof keeps a
count for the pass (`Assembly.Counted`). The open format counts its lines up to the one that is read
next. Closed formats count the same whatever lines follow, as their ranges have ended.
-/

namespace DisplayFile

/-! ### Lines that open fields -/

/-- The line opens a field. -/
def opensFieldOn (line : String) : Bool := (Entry.ofLine? line).any Entry.isOpening

/-- The lines of a range. -/
def LineRange.linesOf (r : LineRange) (texts : List String) : List String :=
  (texts.take r.stop).drop r.start

/-- Entries that open a field belong to the layout. -/
theorem Entry.isLayout_of_isOpening {e : Entry} (h : e.isOpening = true) : e.isLayout = true := by
  obtain ⟨hmarker, -⟩ := Bool.and_eq_true_iff.1 h
  rw [isLayout, hmarker, Bool.or_true]

namespace OpenFormat

theorem length_allFields_addLine (o : OpenFormat) (line : Keyword.Line) :
    (o.addLine line).allFields.length = o.allFields.length := by
  rcases h : o.field with - | f
  · have hnone : ({ o with area := o.area.push line } : OpenFormat).field = none := h
    rw [addLine_of_field_eq_none h, allFields_of_field_eq_none hnone, allFields_of_field_eq_none h]
  · rw [addLine_of_field_eq_some h, allFields_of_field_eq_some h, allFields_of_field_eq_some rfl,
      List.length_append, List.length_append, List.length_singleton, List.length_singleton]

@[simp] theorem start_addLine (o : OpenFormat) (line : Keyword.Line) :
    (o.addLine line).start = o.start := by
  rw [addLine]
  cases o.field <;> rfl

end OpenFormat

namespace Assembly

/-- What is assembled from the lines has one field for each line that opens one. -/
structure Counted (texts : List String) (a : Assembly) : Prop where
  start_le : a.current.start ≤ texts.length
  current : a.current.allFields.length = (texts.drop a.current.start).countP opensFieldOn
  closed : ∀ f ∈ a.formats, f.lines.stop ≤ texts.length ∧
    f.fields.length = (f.lines.linesOf texts).countP opensFieldOn

variable {texts : List String} {a : Assembly}

/-- The open format, when it is closed behind the lines, has one field for each line that opens
one. -/
theorem Counted.close (h : Counted texts a) :
    (a.current.close texts.length).fields.length =
      ((a.current.close texts.length).lines.linesOf texts).countP opensFieldOn := by
  rw [OpenFormat.fields_close, OpenFormat.lines_close, LineRange.linesOf, List.take_length,
    h.current]

/-- A closed format does not count later lines. -/
theorem Counted.closed_append (h : Counted texts a) (line : String) :
    ∀ f ∈ a.formats, f.lines.stop ≤ (texts ++ [line]).length ∧
      f.fields.length = (f.lines.linesOf (texts ++ [line])).countP opensFieldOn := by
  intro f hf
  obtain ⟨hstop, hlength⟩ := h.closed f hf
  refine ⟨?_, ?_⟩
  · rw [List.length_append]
    omega
  · rw [hlength, LineRange.linesOf, LineRange.linesOf, List.take_append_of_le_length hstop]

/-- A line that leaves the formats and counts for the open format as it should. -/
theorem Counted.append (h : Counted texts a) {line : String} {b : Assembly}
    (hformats : b.formats = a.formats) (hstart : b.current.start = a.current.start)
    (hlength : b.current.allFields.length =
      a.current.allFields.length + [line].countP opensFieldOn) :
    Counted (texts ++ [line]) b where
  start_le := by
    have hle := h.start_le
    rw [hstart, List.length_append]
    omega
  current := by
    rw [hstart, List.drop_append_of_le_length h.start_le, List.countP_append, hlength, h.current]
  closed := by
    rw [hformats]
    exact h.closed_append line

/-- A record line is the first line of the format that it opens, and the end of the one before. -/
theorem Counted.openFormat (h : Counted texts a) {line : String} {e : Entry}
    (hline : opensFieldOn line = false) :
    Counted (texts ++ [line]) (a.openFormat texts.length e) where
  start_le := by
    show texts.length ≤ (texts ++ [line]).length
    rw [List.length_append]
    exact Nat.le_add_right _ _
  current := by
    show 0 = ((texts ++ [line]).drop texts.length).countP opensFieldOn
    rw [List.drop_left, List.countP_singleton, hline]
    rfl
  closed f hf := by
    obtain hf | rfl := Array.mem_push.1 hf
    · exact h.closed_append line f hf
    · rw [h.close, OpenFormat.lines_close, LineRange.linesOf, LineRange.linesOf, List.take_left,
        List.take_length, List.length_append]
      exact ⟨Nat.le_add_right _ _, rfl⟩

/-- An entry that is placed counts as the line that it stands on. -/
theorem Counted.place (h : Counted texts a) {line : String} {e : Entry}
    (hline : opensFieldOn line = e.opensField) : Counted (texts ++ [line]) (a.place e) := by
  cases hfield : e.opensField with
  | true =>
    obtain ⟨f, hformats, hcurrent⟩ := a.place_of_opensField hfield
    refine h.append hformats (by rw [hcurrent, OpenFormat.closeField_eq]) ?_
    rw [hcurrent, OpenFormat.allFields_opened, List.length_append, List.countP_singleton, hline,
      hfield]
    rfl
  | false =>
    rw [a.place_of_not_opensField hfield]
    refine h.append rfl (a.current.start_addLine e.keywordLine) ?_
    rw [List.countP_singleton, hline, hfield]
    exact a.current.length_allFields_addLine e.keywordLine

/-- A line that is skipped opens no field. -/
theorem Counted.skip (h : Counted texts a) {line : String} (hline : opensFieldOn line = false) :
    Counted (texts ++ [line]) a := by
  refine h.append rfl rfl ?_
  rw [List.countP_singleton, hline]
  rfl

/-- A further line keeps the count, with or without an entry on it. -/
theorem Counted.line (h : Counted texts a) (line : String) :
    Counted (texts ++ [line]) (a.line texts.length line) := by
  rw [Assembly.line]
  cases he : Entry.ofLine? line with
  | none => exact h.skip (by rw [opensFieldOn, he]; rfl)
  | some e =>
    have hline : opensFieldOn line = e.isOpening := by rw [opensFieldOn, he, Option.any_some]
    show Counted (texts ++ [line]) (a.add texts.length e)
    rw [add]
    split
    · next hrecord =>
      have hopening : e.isOpening = false := by
        rw [Entry.isOpening, of_decide_eq_true hrecord]
        rfl
      exact h.openFormat (hline.trans hopening)
    · next hrecord =>
      split
      · next hlayout =>
        have hopening : e.isOpening = e.opensField :=
          Entry.isOpening_eq_opensField (Bool.eq_false_iff.2 hrecord) hlayout
        exact h.place (hline.trans hopening)
      · next hlayout =>
        have hopening : e.isOpening = false :=
          Bool.eq_false_iff.2 fun h ↦ hlayout (Entry.isLayout_of_isOpening h)
        exact h.skip (hline.trans hopening)

/-- Over all lines of a member the count is kept. -/
theorem counted_lines (texts : List String) : Counted texts (Assembly.lines {} 0 texts) := by
  induction texts using List.reverseRecOn with
  | nil => exact ⟨Nat.le_refl 0, rfl, by simp⟩
  | append_singleton texts line ih =>
    have hline : Assembly.lines {} 0 (texts ++ [line]) =
        (Assembly.lines {} 0 texts).line texts.length line := by
      rw [lines_append, Nat.zero_add]
      rfl
    rw [hline]
    exact ih.line line

end Assembly

/-- **A format has one field for each line of its range that opens one.** -/
theorem length_fields_ofLines {texts : List String} {f : RecordFormat}
    (hf : f ∈ (Member.ofLines texts).formats) :
    f.fields.length = (f.lines.linesOf texts).countP opensFieldOn := by
  have hcounted := Assembly.counted_lines texts
  rw [Member.ofLines, Assembly.formats_close] at hf
  obtain hf | hf := List.mem_append.1 hf
  · exact (hcounted.closed f (Array.mem_toList_iff.1 hf)).2
  · rw [List.mem_singleton.1 hf]
    exact hcounted.close

end DisplayFile

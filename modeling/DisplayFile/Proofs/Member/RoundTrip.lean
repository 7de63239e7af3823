import DisplayFile.Proofs.Member.Draft
import DisplayFile.Proofs.Member.Segments

/-!
# Reading undoes layout

A draft that is laid out on lines and read back gives the member that it means
(`Draft.ofLines_lines`). The proof goes through the segments of the member and has one part for each
of the things that are read:

* the slots of a zone give the conditions, digits give numbers, and the lines of keywords and the
  text of a constant give what their items say, so an opening line with the lines behind it is read
  as the field (`ofRun_field`);
* the record lines and the opening lines are exactly the marked entries, so the segments are the
  records and the runs are the fields (`segments_lines`, `runs_entries`);
* ranges and numbers are handed on from record to record as they are in the draft
  (`formatsOfSegments_segmentsOfDrafts`).
-/

namespace DisplayFile

/-! ### Zones and digits -/

namespace DraftConditions

/-- Three conditions at most fill their zone and no more. -/
theorem length_print (cs : DraftConditions) : cs.print.length ≤ 9 := by
  have hlength := cs.length_le
  rw [print, List.length_flatMap]
  simp only [slot, List.length_cons, List.length_nil, List.map_const', List.sum_replicate_nat]
  omega

/-- Two digits are read as their number. -/
theorem byte?_digits (i : Fin 100) :
    Text.Numeral.byte? (Text.trim [Nat.digitChar (i / 10), Nat.digitChar (i % 10)]) =
      some (UInt8.ofNat i) := by
  decide +revert

/-- A condition is read back from the three characters that it is written in. -/
theorem ofSlot?_slot (c : Fin 100 × Bool) :
    Condition.ofSlot? (if c.2 then 'N' else ' ') (Nat.digitChar (c.1 / 10))
      (Nat.digitChar (c.1 % 10)) = some { indicator := UInt8.ofNat c.1, negated := c.2 } := by
  rw [Condition.ofSlot?, byte?_digits, Option.map_some]
  cases c.2 <;> rfl

/-- A blank slot has no condition. -/
theorem ofSlot?_blank : Condition.ofSlot? ' ' ' ' ' ' = none := by decide

/-- The columns of a zone behind the first one are its three slots. -/
theorem ofZone_slots (a b c d e f g h i : Char) :
    Condition.ofZone (String.ofList [' ', a, b, c, d, e, f, g, h, i]) =
      [Condition.ofSlot? a b c, Condition.ofSlot? d e f, Condition.ofSlot? g h i].filterMap id := by
  rw [Condition.ofZone, String.toList_ofList]
  rfl

/-- The zone of a line gives its conditions. -/
theorem ofZone_print (cs : DraftConditions) :
    Condition.ofZone (String.ofList (' ' :: cs.print.rightpad 9 ' ')) = cs.conditions := by
  obtain ⟨list, hlength⟩ := cs
  match list, hlength with
  | [], _ =>
    refine (ofZone_slots _ _ _ _ _ _ _ _ _).trans ?_
    rw [ofSlot?_blank]
    rfl
  | [a], _ =>
    refine (ofZone_slots _ _ _ _ _ _ _ _ _).trans ?_
    rw [ofSlot?_slot, ofSlot?_blank]
    rfl
  | [a, b], _ =>
    refine (ofZone_slots _ _ _ _ _ _ _ _ _).trans ?_
    rw [ofSlot?_slot, ofSlot?_slot, ofSlot?_blank]
    rfl
  | [a, b, c], _ =>
    refine (ofZone_slots _ _ _ _ _ _ _ _ _).trans ?_
    rw [ofSlot?_slot, ofSlot?_slot, ofSlot?_slot]
    rfl

end DraftConditions

/-! ### Keyword lines -/

/-- A line with at most one item on it. -/
def Keyword.ItemLine.ofOption (zone : String) (item : Option Keyword.Item) : Keyword.ItemLine :=
  { zone
    indent := 0
    items := item.toList.map (·, 0)
    separated := by
      cases item with
      | none => exact .nil
      | some item => exact .singleton _ }

/-- The characters of an item that may be missing. -/
def Keyword.Item.printOption (item : Option Keyword.Item) : List Char :=
  (item.map Keyword.Item.print).getD []

namespace Row

/-- The line that a row with at most one item adds to a keyword area. -/
theorem keywordLine_entry {r : Row} {item : Option Keyword.Item}
    (h : r.keywords = Keyword.Item.printOption item)
    (htrim : Text.trimEnd r.keywords = r.keywords) :
    r.entry.keywordLine = (Keyword.ItemLine.ofOption r.entry.zone item).line := by
  rw [Entry.keywordLine, entry, htrim, h]
  cases item with
  | none => rfl
  | some item =>
    simp [Keyword.ItemLine.ofOption, Keyword.ItemLine.line, Keyword.printItems,
      Keyword.Item.printOption]

end Row

/-- A quoted text ends in a quote. -/
theorem Keyword.Item.trimEnd_print_constant (text : Keyword.ConstantText) :
    Text.trimEnd (Keyword.Item.constant text).print = (Keyword.Item.constant text).print :=
  Text.trimEnd_concat_of_not_isBlank ('\'' :: Keyword.doubled text.chars) (by decide)

namespace DraftKeyword

/-- A keyword stands in its columns. -/
theorem fits_toRow (k : DraftKeyword) : k.toRow.Fits :=
  ⟨k.conditions.length_print, Nat.zero_le _, Nat.zero_le _, Nat.zero_le _, Nat.zero_le _,
    Nat.zero_le _⟩

/-- A keyword ends in its name or in a bracket, and not in a blank. -/
theorem trimEnd_print_item (k : DraftKeyword) : Text.trimEnd k.item.print = k.item.print := by
  rw [item]
  cases k.value with
  | none => exact Text.trimEnd_of_forall k.isBlank_of_mem
  | some v =>
    have hlast : (Keyword.Item.valued k.word ⟨v.chars, v.closes_chars⟩).print =
        (k.word.chars ++ '(' :: v.chars) ++ [')'] := by simp [Keyword.Item.print]
    show Text.trimEnd (Keyword.Item.valued k.word ⟨v.chars, v.closes_chars⟩).print = _
    rw [hlast]
    exact Text.trimEnd_concat_of_not_isBlank _ (by decide)

/-- The item of a keyword stands for the keyword that is meant. -/
theorem keyword?_item (k : DraftKeyword) :
    k.item.keyword? k.toRow.entry.zone = some k.keyword := by
  have hzone : Condition.ofZone k.toRow.entry.zone = k.conditions.conditions :=
    k.conditions.ofZone_print
  rw [item, keyword]
  cases k.value with
  | none =>
    simp only [Keyword.Item.keyword?, k.upper_eq, hzone]
    rfl
  | some v =>
    have hkept : Keyword.withoutBrackets v.chars = v.chars := by
      refine List.filter_eq_self.2 fun c hc ↦ ?_
      obtain ⟨hopen, hclose⟩ := v.ne_bracket c hc
      simp [hopen, hclose]
    simp only [Keyword.Item.keyword?, k.upper_eq, hzone, hkept, if_neg v.ne_nil]
    rfl

theorem text?_item (k : DraftKeyword) : k.item.text? = none := by
  rw [item]
  cases k.value <;> rfl

/-- The line that a keyword adds to a keyword area. -/
def itemLine (k : DraftKeyword) : Keyword.ItemLine :=
  Keyword.ItemLine.ofOption k.toRow.entry.zone (some k.item)

/-- The keyword area of the row of a keyword is its line. -/
theorem keywordLine_entry_toRow (k : DraftKeyword) :
    k.toRow.entry.keywordLine = k.itemLine.line :=
  Row.keywordLine_entry rfl k.trimEnd_print_item

theorem keywords_itemLine (k : DraftKeyword) : k.itemLine.keywords = [k.keyword] := by
  simp [itemLine, Keyword.ItemLine.ofOption, Keyword.ItemLine.keywords, k.keyword?_item]

theorem texts_itemLine (k : DraftKeyword) : k.itemLine.texts = [] := by
  simp [itemLine, Keyword.ItemLine.ofOption, Keyword.ItemLine.texts, k.text?_item]

end DraftKeyword

/-! ### Fields -/

theorem DraftName.isEmpty_name (n : DraftName) : (String.ofList n.chars).isEmpty = false := by
  rw [Text.isEmpty_ofList, List.isEmpty_eq_false_iff]
  exact n.ne_nil

/-- A number reads back from a column of digits. -/
theorem Entry.amount_digits {n : Nat} (h : n < UInt32.size) :
    amount (String.ofList (Text.Numeral.digits n)) = UInt32.ofNat n := by
  rw [amount, Text.number?_digits h, Option.getD_some]

theorem isEmpty_digits (n : Nat) : (String.ofList (Text.Numeral.digits n)).isEmpty = false := by
  rw [Text.isEmpty_ofList, List.isEmpty_eq_false_iff]
  exact Nat.toDigits_ne_nil

theorem length_digits_le {n k : Nat} (hk : 0 < k) (h : n < Nat.pow 10 k) :
    (Text.Numeral.digits n).length ≤ k :=
  (Nat.length_toDigits_le_iff (by decide) hk).2 h

namespace DraftField

/-- The item on the opening line. -/
def openingItem (f : DraftField) : Option Keyword.Item :=
  match f.content with
  | .declared .. => none
  | .constant text => some (.constant text)

/-- The opening line of a field stands in its columns. -/
theorem fits_opening (f : DraftField) : f.opening.Fits := by
  have hrow := length_digits_le (k := 3) (by decide) f.row.lt
  have hcolumn := length_digits_le (k := 3) (by decide) f.column.lt
  rw [opening]
  cases f.content with
  | declared name length dataType decimals usage =>
    exact ⟨f.conditions.length_print, name.length_le, length_digits_le (by decide) length.isLt,
      length_digits_le (by decide) decimals.isLt, hrow, hcolumn⟩
  | constant text =>
    exact ⟨f.conditions.length_print, Nat.zero_le _, Nat.zero_le _, Nat.zero_le _, hrow, hcolumn⟩

theorem marker_opening (f : DraftField) : f.opening.entry.marker = ' ' := by
  rw [opening]
  cases f.content <;> rfl

theorem row_opening (f : DraftField) :
    f.opening.entry.row = String.ofList (Text.Numeral.digits f.row.val) := by
  rw [← Text.trim_digits, opening]
  cases f.content <;> rfl

theorem column_opening (f : DraftField) :
    f.opening.entry.column = String.ofList (Text.Numeral.digits f.column.val) := by
  rw [← Text.trim_digits, opening]
  cases f.content <;> rfl

/-- The zone of the opening line holds the conditions and blanks behind them. -/
theorem zone_opening (f : DraftField) :
    f.opening.entry.zone = String.ofList (' ' :: f.conditions.print.rightpad 9 ' ') := by
  rw [opening]
  cases f.content <;> rfl

/-- The opening line of a field has a column, so it opens a field. -/
theorem isOpening_opening (f : DraftField) : f.opening.entry.isOpening = true := by
  rw [Entry.isOpening, f.marker_opening, Entry.opensField, f.column_opening, isEmpty_digits]
  rfl

/-- A field with a row and a column is placed there, whatever is before it. -/
theorem positionAfter_opening (f : DraftField) (before : Option Field) :
    f.opening.entry.positionAfter before = f.position := by
  have hrow := f.row.lt
  have hcolumn := f.column.lt
  have hrelative : f.opening.entry.isRelative = false := by
    rw [Entry.isRelative, f.row_opening, isEmpty_digits]
    rfl
  simp only [Entry.positionAfter, hrelative, f.column_opening, isEmpty_digits, f.row_opening,
    Entry.amount_digits (Nat.lt_trans hrow (by decide)),
    Entry.amount_digits (Nat.lt_trans hcolumn (by decide))]
  rfl

/-- The line that the opening line adds to the keyword area of its field. -/
theorem keywordLine_entry_opening (f : DraftField) :
    f.opening.entry.keywordLine =
      (Keyword.ItemLine.ofOption f.opening.entry.zone f.openingItem).line := by
  apply Row.keywordLine_entry
  · rw [opening, openingItem]
    cases f.content <;> rfl
  · rw [opening]
    cases f.content with
    | declared => rfl
    | constant text => exact Keyword.Item.trimEnd_print_constant text

/-- The keywords that the opening line gives without its keyword area. -/
def openedKeywords (f : DraftField) : List Keyword :=
  match f.content with
  | .declared _ _ dataType _ _ => typeKeywords dataType.toUpper
  | .constant _ => []

theorem fieldUsage_eq_usageOf (e : Entry) : e.fieldUsage = usageOf e.usage := by
  rw [Entry.fieldUsage, usageOf]
  split <;> simp_all

/-- What the opening line gives without its keyword area. -/
theorem openedField_opening (n : Nat) (f : DraftField) (before : Option Field) :
    f.opening.entry.openedField n before =
      { f.field (n + 1) with keywords := f.openedKeywords, value := "" } := by
  have hposition := f.positionAfter_opening before
  have hconditions : Condition.ofZone f.opening.entry.zone = f.conditions.conditions := by
    rw [zone_opening, f.conditions.ofZone_print]
  rw [Entry.openedField, hposition]
  rcases hcontent : f.content with ⟨name, length, dataType, decimals, usage⟩ | text
  · have hname : f.opening.entry.name = String.ofList name.chars := by
      rw [← name.trim_eq, opening, hcontent]
      rfl
    have hlength : Entry.amount f.opening.entry.length = UInt32.ofNat length := by
      have hlt : length.val < UInt32.size := Nat.lt_trans length.isLt (by decide)
      rw [← Entry.amount_digits hlt, ← Text.trim_digits, opening,
        hcontent]
      rfl
    have hdecimals : Entry.amount f.opening.entry.decimals = UInt32.ofNat decimals := by
      have hlt : decimals.val < UInt32.size := Nat.lt_trans decimals.isLt (by decide)
      rw [← Entry.amount_digits hlt, ← Text.trim_digits, opening,
        hcontent]
      rfl
    have htype : f.opening.entry.dataType = dataType.toUpper := by rw [opening, hcontent]; rfl
    have husage : f.opening.entry.usage = usage.toUpper := by rw [opening, hcontent]; rfl
    -- what is left is the same case split over the data type, on letters that are in capitals
    rw [hname, name.isEmpty_name, if_neg Bool.false_ne_true, Entry.namedField, htype]
    simp only [field, hcontent, openedKeywords, hname, hlength, hdecimals, hconditions,
      fieldUsage_eq_usageOf, husage]
    split <;> simp_all [isDecimal, typeKeywords]
  · have hname : f.opening.entry.name = "" := by rw [opening, hcontent]; rfl
    rw [hname, if_pos (show "".isEmpty = true from rfl)]
    simp only [Entry.constantField, field, hcontent, openedKeywords, hconditions]

end DraftField

/-- The entries of keyword lines. -/
def keywordEntries (ks : List DraftKeyword) : List Entry := ks.map fun k ↦ k.toRow.entry

/-- What keyword lines add to a keyword area. -/
theorem area_keywordEntries (ks : List DraftKeyword) :
    Entry.area (keywordEntries ks) = (ks.map DraftKeyword.itemLine).map Keyword.ItemLine.line := by
  rw [Entry.area, keywordEntries, List.map_map, List.map_map]
  exact List.map_congr_left fun k _ ↦ k.keywordLine_entry_toRow

theorem flatMap_keywords_itemLine (ks : List DraftKeyword) :
    (ks.map DraftKeyword.itemLine).flatMap Keyword.ItemLine.keywords =
      ks.map DraftKeyword.keyword := by
  rw [List.flatMap_map, List.map_eq_flatMap]
  exact List.flatMap_congr fun k _ ↦ k.keywords_itemLine

theorem flatMap_texts_itemLine (ks : List DraftKeyword) :
    (ks.map DraftKeyword.itemLine).flatMap Keyword.ItemLine.texts = [] := by
  rw [List.flatMap_map, List.flatMap_eq_nil_iff]
  exact fun k _ ↦ k.texts_itemLine

namespace DraftField

/-- The run of a field: its opening line, and its keywords behind it. -/
def run (f : DraftField) : Entry × List Entry := (f.opening.entry, keywordEntries f.keywords)

/-- **The lines of a field are read as the field.** -/
theorem ofRun_field (n : Nat) (before : Option Field) (f : DraftField) :
    Field.ofRun n before f.run = f.field (n + 1) := by
  -- the opening line stands in the keyword area too, with the text of a constant or with nothing
  have harea : Entry.area (f.run.1 :: f.run.2) =
      (Keyword.ItemLine.ofOption f.opening.entry.zone f.openingItem ::
        f.keywords.map DraftKeyword.itemLine).map Keyword.ItemLine.line := by
    rw [List.map_cons, ← area_keywordEntries, ← f.keywordLine_entry_opening]
    rfl
  rw [Field.ofRun, harea, Keyword.keywords_resolve_map_line, Keyword.constant_resolve_map_line,
    List.flatMap_cons, List.flatMap_cons, flatMap_keywords_itemLine, flatMap_texts_itemLine]
  rw [show f.run.1.openedField n before = _ from f.openedField_opening n before]
  rcases hcontent : f.content with _ | text
  · simp [field, openedKeywords, openingItem, hcontent, Keyword.ItemLine.ofOption,
      Keyword.ItemLine.keywords, Keyword.ItemLine.texts]
  · simp [field, openedKeywords, openingItem, hcontent, Keyword.ItemLine.ofOption,
      Keyword.ItemLine.keywords, Keyword.ItemLine.texts, Keyword.Item.keyword?, Keyword.Item.text?]

/-- A run opens a constant exactly when its field is one. -/
theorem constantsOfRuns_run (f : DraftField) : constantsOfRuns [f.run] = f.constants := by
  rw [constantsOfRuns, List.countP_singleton, run, opening, constants]
  cases f.content with
  | declared name =>
    have hname : (String.ofList (Text.trim name.chars)).isEmpty = false := by
      rw [name.trim_eq, name.isEmpty_name]
    exact if_neg (by rw [Row.entry, hname]; exact Bool.false_ne_true)
  | constant => rfl

end DraftField

/-- The constants of drafted fields are the ones that are drafted as such. -/
theorem constantsOfRuns_map_run (fs : List DraftField) :
    constantsOfRuns (fs.map DraftField.run) = constantsOfDrafts fs := by
  induction fs with
  | nil => rfl
  | cons f fs ih =>
    rw [List.map_cons, constantsOfRuns_cons, ih, f.constantsOfRuns_run, constantsOfDrafts]

/-- The runs of fields are read as the fields. -/
theorem fieldsOfRuns_map_run (n : Nat) (before : Option Field) (fs : List DraftField) :
    fieldsOfRuns n before (fs.map DraftField.run) = fieldsOfDrafts n fs := by
  induction fs generalizing n before with
  | nil => rfl
  | cons f fs ih =>
    rw [List.map_cons, fieldsOfRuns, fieldsOfDrafts, ih, f.ofRun_field, f.constantsOfRuns_run]

/-! ### Records -/

/-- Keyword lines belong to the layout and open nothing. -/
theorem isOpening_of_mem_keywordEntries {ks : List DraftKeyword} {e : Entry}
    (h : e ∈ keywordEntries ks) :
    e.isLayout = true ∧ e.opensRecord = false ∧ e.isOpening = false := by
  obtain ⟨k, -, rfl⟩ := List.mem_map.1 h
  exact ⟨rfl, rfl, rfl⟩

namespace DraftRecord

/-- The entries behind the record line. -/
def bodyEntries (r : DraftRecord) : List Entry :=
  keywordEntries r.keywords ++ Sections.joinParts (r.fields.map DraftField.run)

/-- The entries of the record. -/
theorem map_entry_rows (r : DraftRecord) :
    r.rows.map Row.entry = r.heading.entry :: r.bodyEntries := by
  rw [rows, List.map_cons, List.map_append, List.map_map, List.map_flatMap, bodyEntries,
    Sections.joinParts, List.flatMap_map]
  refine congrArg (_ :: ·) (congrArg (_ ++ ·) (List.flatMap_congr fun f _ ↦ ?_))
  rw [DraftField.rows, List.map_cons, List.map_map]
  rfl

theorem opensRecord_heading (r : DraftRecord) : r.heading.entry.opensRecord = true := rfl

/-- Behind the record line all is layout, and nothing is a record line. -/
theorem isLayout_of_mem_bodyEntries {r : DraftRecord} {e : Entry} (h : e ∈ r.bodyEntries) :
    e.isLayout = true ∧ e.opensRecord = false := by
  rcases List.mem_append.1 h with h | h
  · obtain ⟨hlayout, hrecord, -⟩ := isOpening_of_mem_keywordEntries h
    exact ⟨hlayout, hrecord⟩
  · obtain ⟨run, hrun, he⟩ := List.mem_flatMap.1 h
    obtain ⟨f, -, rfl⟩ := List.mem_map.1 hrun
    rcases List.mem_cons.1 he with rfl | he
    · have hmarker := f.marker_opening
      exact ⟨by simp [Entry.isLayout, DraftField.run, hmarker],
        by simp [Entry.opensRecord, DraftField.run, hmarker]⟩
    · obtain ⟨hlayout, hrecord, -⟩ := isOpening_of_mem_keywordEntries he
      exact ⟨hlayout, hrecord⟩

/-- The runs of a record are its fields. -/
theorem runs_entries (r : DraftRecord) :
    Entry.runs (r.heading.entry :: r.bodyEntries) =
      ⟨r.heading.entry :: keywordEntries r.keywords, r.fields.map DraftField.run⟩ := by
  have hlayout : (r.heading.entry :: r.bodyEntries).filter Entry.isLayout =
      r.heading.entry :: r.bodyEntries := by
    refine List.filter_eq_self.2 (List.forall_mem_cons.2 ⟨rfl, fun e he ↦ ?_⟩)
    exact (isLayout_of_mem_bodyEntries he).1
  rw [Entry.runs, hlayout]
  apply Sections.cut_join (s := ⟨r.heading.entry :: keywordEntries r.keywords,
    r.fields.map DraftField.run⟩)
  refine ⟨?_, ?_, ?_⟩
  · refine List.forall_mem_cons.2 ⟨rfl, fun e he ↦ ?_⟩
    exact (isOpening_of_mem_keywordEntries he).2.2
  · intro run hrun
    obtain ⟨f, -, rfl⟩ := List.mem_map.1 hrun
    exact f.isOpening_opening
  · intro run hrun e he
    obtain ⟨f, -, rfl⟩ := List.mem_map.1 hrun
    exact (isOpening_of_mem_keywordEntries he).2.2

/-- The segment of the record. -/
def segment (start : Nat) (r : DraftRecord) : Segment :=
  { name := r.heading.entry.name
    lines := { start, stop := start + r.rows.length }
    entries := r.heading.entry :: r.bodyEntries }

theorem constants_segment (start : Nat) (r : DraftRecord) :
    (r.segment start).constants = r.constants := by
  rw [Segment.constants, segment, r.runs_entries, constantsOfRuns_map_run, constants]

/-- **The lines of a record are read as the record.** -/
theorem format_segment (start n : Nat) (r : DraftRecord) :
    (r.segment start).format n = r.format start n := by
  -- the record line stands in the keyword area with nothing on it
  have harea : Entry.area (r.heading.entry :: keywordEntries r.keywords) =
      (Keyword.ItemLine.ofOption r.heading.entry.zone none ::
        r.keywords.map DraftKeyword.itemLine).map Keyword.ItemLine.line := by
    rw [List.map_cons, ← area_keywordEntries]
    rfl
  have hname : r.heading.entry.name = String.ofList r.name.chars :=
    congrArg String.ofList r.name.trim_eq
  rw [Segment.format, segment, r.runs_entries, harea, Keyword.keywords_resolve_map_line,
    List.flatMap_cons, flatMap_keywords_itemLine, fieldsOfRuns_map_run, hname]
  rfl

end DraftRecord

/-! ### Members -/

/-- The numbered entries on the lines of rows. -/
theorem numberedEntries_map_text {rows : List Row} (h : ∀ r ∈ rows, r.Fits) (index : Nat) :
    numberedEntries index (rows.map Row.text) = (rows.map Row.entry).zipIdx index := by
  induction rows generalizing index with
  | nil => rfl
  | cons r rows ih =>
    obtain ⟨hr, hrows⟩ := List.forall_mem_cons.1 h
    rw [List.map_cons, numberedEntries_cons, Row.ofLine?_text hr, ih hrows]
    rfl

namespace Draft

theorem fits_of_mem_rows {d : Draft} {row : Row} (h : row ∈ d.rows) : row.Fits := by
  have hkeywords : ∀ ks : List DraftKeyword, row ∈ ks.map DraftKeyword.toRow → row.Fits := by
    intro ks hrow
    obtain ⟨k, -, rfl⟩ := List.mem_map.1 hrow
    exact k.fits_toRow
  rcases List.mem_append.1 h with h | h
  · exact hkeywords _ h
  obtain ⟨r, -, hrow⟩ := List.mem_flatMap.1 h
  rcases List.mem_cons.1 hrow with rfl | hrow
  · exact ⟨Nat.zero_le _, r.name.length_le, Nat.zero_le _, Nat.zero_le _, Nat.zero_le _,
      Nat.zero_le _⟩
  rcases List.mem_append.1 hrow with hrow | hrow
  · exact hkeywords _ hrow
  obtain ⟨f, -, hrow⟩ := List.mem_flatMap.1 hrow
  rcases List.mem_cons.1 hrow with rfl | hrow
  · exact f.fits_opening
  · exact hkeywords _ hrow

end Draft

/-- The numbered entries of records from line `start` on, by their record lines. -/
def partsOfDrafts (start : Nat) : List DraftRecord → List ((Entry × Nat) × List (Entry × Nat))
  | [] => []
  | r :: rs =>
    ((r.heading.entry, start), r.bodyEntries.zipIdx (start + 1)) ::
      partsOfDrafts (start + r.rows.length) rs

/-- The segments of records from line `start` on. -/
def segmentsOfDrafts (start : Nat) : List DraftRecord → List Segment
  | [] => []
  | r :: rs => r.segment start :: segmentsOfDrafts (start + r.rows.length) rs

/-- The parts of drafted records put together are their rows, numbered on. -/
theorem joinParts_partsOfDrafts (start : Nat) (rs : List DraftRecord) :
    Sections.joinParts (partsOfDrafts start rs) =
      ((rs.flatMap DraftRecord.rows).map Row.entry).zipIdx start := by
  induction rs generalizing start with
  | nil => rfl
  | cons r rs ih =>
    have hlength : (r.heading.entry :: r.bodyEntries).length = r.rows.length := by
      rw [← r.map_entry_rows, List.length_map]
    rw [partsOfDrafts, Sections.joinParts_cons, ih, List.flatMap_cons, List.map_append,
      r.map_entry_rows, List.zipIdx_append, hlength, List.zipIdx_cons, List.cons_append]

/-- Cut before the record lines, the numbered entries of records are their parts. -/
theorem isCut_partsOfDrafts (start : Nat) (rs : List DraftRecord) :
    (∀ part ∈ partsOfDrafts start rs, opensRecordAt part.1 = true) ∧
      ∀ part ∈ partsOfDrafts start rs, ∀ e ∈ part.2, opensRecordAt e = false := by
  induction rs generalizing start with
  | nil => exact ⟨by simp [partsOfDrafts], by simp [partsOfDrafts]⟩
  | cons r rs ih =>
    obtain ⟨hheads, hbodies⟩ := ih (start + r.rows.length)
    refine ⟨List.forall_mem_cons.2 ⟨r.opensRecord_heading, hheads⟩,
      List.forall_mem_cons.2 ⟨fun e he ↦ ?_, hbodies⟩⟩
    exact (DraftRecord.isLayout_of_mem_bodyEntries (List.fst_mem_of_mem_zipIdx he)).2

/-- The next record line, or the end of the member, is where the records start. -/
theorem stopBefore_partsOfDrafts (start : Nat) (rs : List DraftRecord) :
    stopBefore (start + (rs.flatMap DraftRecord.rows).length) (partsOfDrafts start rs) = start := by
  cases rs <;> rfl

/-- The parts of drafted records are the segments that the records mean. -/
theorem segmentsOfParts_partsOfDrafts (start : Nat) (rs : List DraftRecord) :
    segmentsOfParts (start + (rs.flatMap DraftRecord.rows).length) (partsOfDrafts start rs) =
      segmentsOfDrafts start rs := by
  induction rs generalizing start with
  | nil => rfl
  | cons r rs ih =>
    have hcount : start + ((r :: rs).flatMap DraftRecord.rows).length =
        start + r.rows.length + (rs.flatMap DraftRecord.rows).length := by
      rw [List.flatMap_cons, List.length_append, Nat.add_assoc]
    rw [partsOfDrafts, segmentsOfParts, hcount, ih, stopBefore_partsOfDrafts, segmentsOfDrafts,
      DraftRecord.segment]
    simp

theorem formatsOfSegments_segmentsOfDrafts (start n : Nat) (rs : List DraftRecord) :
    formatsOfSegments n (segmentsOfDrafts start rs) = formatsOfDrafts start n rs := by
  induction rs generalizing start n with
  | nil => rfl
  | cons r rs ih =>
    rw [segmentsOfDrafts, formatsOfSegments, formatsOfDrafts, r.format_segment, r.constants_segment,
      ih]

/-! ### The keywords in front of the first record -/

/-- Keyword lines alone have no runs. -/
theorem runs_keywordEntries (ks : List DraftKeyword) :
    Entry.runs (keywordEntries ks) = ⟨keywordEntries ks, []⟩ := by
  have hlayout : (keywordEntries ks).filter Entry.isLayout = keywordEntries ks :=
    List.filter_eq_self.2 fun e he ↦ (isOpening_of_mem_keywordEntries he).1
  have hopening : ∀ e ∈ keywordEntries ks, e.isOpening = false :=
    fun e he ↦ (isOpening_of_mem_keywordEntries he).2.2
  have hcut := Sections.cut_append_of_not_marked hopening []
  rw [List.append_nil, Sections.cut_nil, List.append_nil] at hcut
  rw [Entry.runs, hlayout, hcut]

namespace Draft

/-- The segment in front of the first record. -/
def globalSegment (d : Draft) : Segment :=
  { name := RecordFormat.globalName
    lines := { start := 0, stop := d.keywords.length }
    entries := keywordEntries d.keywords }

theorem constants_globalSegment (d : Draft) : d.globalSegment.constants = 0 := by
  rw [Segment.constants, globalSegment, runs_keywordEntries]
  rfl

theorem format_globalSegment (d : Draft) :
    d.globalSegment.format 0 =
      RecordFormat.resolveWindow
        { name := RecordFormat.globalName
          lines := { start := 0, stop := d.keywords.length }
          isWindow := false
          windowReference := none
          window := Window.screen
          keywords := d.keywords.map DraftKeyword.keyword
          fields := [] } := by
  rw [Segment.format, globalSegment, runs_keywordEntries, area_keywordEntries,
    Keyword.keywords_resolve_map_line, flatMap_keywords_itemLine]
  rfl

/-- The numbered entries of a draft, by its record lines. -/
def sections (d : Draft) : Sections (Entry × Nat) :=
  ⟨(keywordEntries d.keywords).zipIdx, partsOfDrafts d.keywords.length d.records⟩

/-- The lines of a draft are its rows, each with its number. -/
theorem numberedEntries_lines (d : Draft) : numberedEntries 0 d.lines = d.sections.join := by
  have hkeywords : (d.keywords.map DraftKeyword.toRow).map Row.entry = keywordEntries d.keywords :=
    List.map_map
  rw [lines, numberedEntries_map_text (fun _ h ↦ fits_of_mem_rows h), Sections.join, sections,
    joinParts_partsOfDrafts, rows, List.map_append, hkeywords, List.zipIdx_append, Nat.zero_add,
    keywordEntries, List.length_map]

/-- A draft is cut at its record lines and nowhere else. -/
theorem isCut_sections (d : Draft) : Sections.IsCut opensRecordAt d.sections := by
  obtain ⟨hheads, hbodies⟩ := isCut_partsOfDrafts d.keywords.length d.records
  refine ⟨fun e he ↦ ?_, hheads, hbodies⟩
  exact (isOpening_of_mem_keywordEntries (List.fst_mem_of_mem_zipIdx he)).2.1

/-- The segments of the lines are the keywords in front and the records. -/
theorem segments_lines (d : Draft) :
    segments d.lines = d.globalSegment :: segmentsOfDrafts d.keywords.length d.records := by
  have hlength : d.lines.length =
      d.keywords.length + (d.records.flatMap DraftRecord.rows).length := by
    rw [lines, List.length_map, rows, List.length_append, List.length_map]
  rw [segments, numberedEntries_lines, Sections.cut_join d.isCut_sections, segmentsOfSections,
    sections, hlength, stopBefore_partsOfDrafts, segmentsOfParts_partsOfDrafts,
    List.zipIdx_map_fst, globalSegment]

/-- **The lines of a draft are read as the member that it means.** -/
theorem ofLines_lines (d : Draft) : Member.ofLines d.lines = d.member := by
  rw [Member.ofLines_eq_ofSegments, Member.ofSegments, segments_lines, formatsOfSegments,
    constants_globalSegment, format_globalSegment, formatsOfSegments_segmentsOfDrafts, member]

end Draft

end DisplayFile

import DisplayFile.Proofs.Keyword.LineEnds
import DisplayFile.Proofs.Member.Displacement

/-!
# Lines that say nothing

Three kinds of lines say nothing wherever they stand: comments, lines with a marker that does not
concern the layout, and lines without a marker that open no field and have a blank keyword area. A
member keeps all its formats when such a line is put into it, also between the lines of one constant
or of one value. Only line numbers change: bounds of ranges from the new line on move by one
(`ofLines_insert_inert`).

A line of the third kind does get into a keyword area. It has no text there, and a line without text
says nothing (`Keyword.resolve_filter_text`), so the field or the format that it gets into reads the
same. Hence a member is made of the segments of its other entries
(`Member.ofLines_eq_ofSegments_essential`), and what is left to see is how these are numbered.
-/

namespace DisplayFile

/-! ### Inert entries -/

/-- A line that says nothing. Columns that are not mentioned can hold anything. -/
inductive InertLine (line : List Char) : Prop where
  | comment (star : Text.column line 6 = '*')
  /-- The line does not concern the layout. -/
  | foreign (marker : Text.column line 16 ≠ 'R' ∧ Text.column line 16 ≠ ' ')
  /-- The line opens nothing and has no keyword area. -/
  | blank (marker : Text.column line 16 = ' ')
      (name : ∀ c ∈ Text.span line 18 28, Text.isBlank c = true)
      (usage : Text.column line 37 ≠ 'H' ∧ Text.column line 37 ≠ 'h')
      (column : ∀ c ∈ Text.span line 41 44, Text.isBlank c = true)
      (keywords : ∀ c ∈ line.drop 44, Text.isBlank c = true)

namespace Entry

/-- The entry opens nothing and has no keyword area. -/
def isSilent (e : Entry) : Bool := !e.opensRecord && !e.isOpening && e.keywords.isEmpty

/-- The entry says something. -/
def isEssential (e : Entry) : Bool := e.isLayout && !e.isSilent

/-- Only small and capital letters are equal in capitals. -/
theorem eq_of_toUpper_eq_H {c : Char} (h : c.toUpper = 'H') : c = 'H' ∨ c = 'h' := by
  delta Char.toUpper at h
  split at h
  · right
    have hval := congrArg Char.val h
    dsimp only at hval
    rw [show 'H'.val = 'h'.val + ('A'.val - 'a'.val) by decide, UInt32.add_left_inj] at hval
    exact Char.ext hval
  · exact .inl h

end Entry

/-- The entry on a line that says nothing is not essential. -/
theorem InertLine.isEssential_eq_false {line : String} (h : InertLine line.toList) {e : Entry}
    (he : Entry.ofLine? line = some e) : e.isEssential = false := by
  obtain ⟨hcomment, rfl⟩ := Entry.ofLine?_eq_some_iff.1 he
  cases h with
  | comment star => exact absurd star hcomment
  | foreign marker => simp [Entry.isEssential, Entry.isLayout, Entry.ofColumns, marker]
  | blank marker name usage column keywords =>
    have hname : Text.trimmedSpan line.toList 18 28 = "" := by
      rw [Text.trimmedSpan, Text.trim_eq_nil_of_forall name]
    have hcolumn : Text.trimmedSpan line.toList 41 44 = "" := by
      rw [Text.trimmedSpan, Text.trim_eq_nil_of_forall column]
    have husage : (Text.column line.toList 37).toUpper ≠ 'H' := by
      intro hcapital
      obtain h | h := Entry.eq_of_toUpper_eq_H hcapital
      · exact usage.1 h
      · exact usage.2 h
    have hkeywords : Text.trimEnd (line.toList.drop 44) = [] :=
      Text.trimEnd_eq_nil_of_forall keywords
    have hsilent : (Entry.ofColumns line.toList).isSilent = true := by
      simp [Entry.isSilent, Entry.opensRecord, Entry.isOpening, Entry.opensField, Entry.ofColumns,
        marker, hname, hcolumn, husage, hkeywords]
    rw [Entry.isEssential, hsilent, Bool.not_true, Bool.and_false]

/-! ### Entries that are left out -/

namespace Entry

theorem isSilent_eq_false_of_isOpening {e : Entry} (h : e.isOpening = true) :
    e.isSilent = false := by
  rw [isSilent, h, Bool.not_true, Bool.and_false, Bool.false_and]

theorem isEssential_of_opensRecord {e : Entry} (h : e.opensRecord = true) :
    e.isEssential = true := by
  have hlayout : e.isLayout = true := by
    rw [isLayout, of_decide_eq_true h]
    rfl
  rw [isEssential, hlayout, isSilent, h]
  rfl

/-- Silent entries can be left out of a keyword area. -/
theorem resolve_area_filter (es : List Entry) :
    Keyword.resolve (area (es.filter fun e ↦ !e.isSilent)) = Keyword.resolve (area es) := by
  have htext : ∀ e : Entry, e.keywords.isEmpty = false → e.isSilent = false := fun e h ↦ by
    rw [isSilent, h, Bool.and_false]
  -- the silent entries are among those without text
  have hsame : (es.filter fun e ↦ !e.isSilent).filter (fun e ↦ !e.keywords.isEmpty) =
      es.filter fun e ↦ !e.keywords.isEmpty := by
    rw [List.filter_filter]
    refine List.filter_congr fun e _ ↦ ?_
    cases h : e.keywords.isEmpty with
    | true => rfl
    | false => rw [htext e h]; rfl
  have harea : ∀ es : List Entry, (area es).filter (fun l ↦ !l.text.isEmpty) =
      area (es.filter fun e ↦ !e.keywords.isEmpty) := fun es ↦ List.filter_map
  rw [← Keyword.resolve_filter_text, harea, hsame, ← harea, Keyword.resolve_filter_text]

/-- The runs of the essential entries are those of all entries without the silent ones. -/
theorem runs_filter_isEssential (es : List Entry) :
    runs (es.filter isEssential) = (runs es).filter fun e ↦ !e.isSilent := by
  have hfilter : (es.filter isEssential).filter isLayout =
      (es.filter isLayout).filter fun e ↦ !e.isSilent := by
    rw [List.filter_filter, List.filter_filter]
    refine List.filter_congr fun e _ ↦ ?_
    rw [isEssential]
    cases e.isLayout <;> cases e.isSilent <;> rfl
  rw [runs, hfilter, Sections.cut_filter, runs]
  intro e he
  rw [isSilent_eq_false_of_isOpening he, Bool.not_false]

end Entry

/-- Silent entries can be left out of runs. -/
theorem fieldsOfRuns_filter (constants : Nat) (before : Option Field)
    {runs : List (Entry × List Entry)} (h : ∀ run ∈ runs, run.1.isOpening = true) :
    fieldsOfRuns constants before
        (runs.map fun run ↦ (run.1, run.2.filter fun e ↦ !e.isSilent)) =
      fieldsOfRuns constants before runs := by
  induction runs generalizing constants before with
  | nil => rfl
  | cons run runs ih =>
    obtain ⟨hrun, hruns⟩ := List.forall_mem_cons.1 h
    have hkept : (run.1 :: run.2).filter (fun e ↦ !e.isSilent) =
        run.1 :: run.2.filter fun e ↦ !e.isSilent :=
      List.filter_cons_of_pos (by rw [Entry.isSilent_eq_false_of_isOpening hrun]; rfl)
    have hfield : Field.ofRun constants before (run.1, run.2.filter fun e ↦ !e.isSilent) =
        Field.ofRun constants before run := by
      rw [Field.ofRun, Field.ofRun, ← hkept, Entry.resolve_area_filter]
    rw [List.map_cons, fieldsOfRuns, fieldsOfRuns, hfield, ih _ _ hruns]
    rfl

theorem constantsOfRuns_map_fst {runs runs' : List (Entry × List Entry)}
    (h : runs.map Prod.fst = runs'.map Prod.fst) :
    constantsOfRuns runs = constantsOfRuns runs' := by
  have hfst : ∀ runs : List (Entry × List Entry),
      constantsOfRuns runs = (runs.map Prod.fst).countP fun e ↦ e.name.isEmpty := by
    intro runs
    rw [List.countP_map]
    rfl
  rw [hfst, h, ← hfst]

namespace Segment

/-- The segment without the entries that say nothing. -/
def essential (s : Segment) : Segment := { s with entries := s.entries.filter Entry.isEssential }

theorem constants_essential (s : Segment) : s.essential.constants = s.constants := by
  refine constantsOfRuns_map_fst ?_
  rw [essential, Entry.runs_filter_isEssential, Sections.filter, List.map_map]
  rfl

/-- **A format is made of the essential entries of its segment.** -/
theorem format_essential (constants : Nat) (s : Segment) :
    s.essential.format constants = s.format constants := by
  have hopening : ∀ run ∈ (Entry.runs s.entries).parts, run.1.isOpening = true :=
    (Sections.isCut_cut _).heads
  rw [format, essential, Entry.runs_filter_isEssential, Sections.filter,
    Entry.resolve_area_filter, fieldsOfRuns_filter constants none hopening, format]

end Segment

theorem formatsOfSegments_map_essential (constants : Nat) (segments : List Segment) :
    formatsOfSegments constants (segments.map Segment.essential) =
      formatsOfSegments constants segments := by
  induction segments generalizing constants with
  | nil => rfl
  | cons s segments ih =>
    rw [List.map_cons, formatsOfSegments, formatsOfSegments, s.format_essential,
      s.constants_essential, ih]

/-- A numbered entry says something. -/
def isEssentialAt (e : Entry × Nat) : Bool := e.1.isEssential

/-- The entries of a member that say something, each with the number of its line. -/
def essentialEntries (texts : List String) : List (Entry × Nat) :=
  (numberedEntries 0 texts).filter isEssentialAt

theorem stopBefore_filter (count : Nat) (parts : List ((Entry × Nat) × List (Entry × Nat))) :
    stopBefore count (parts.map fun part ↦ (part.1, part.2.filter isEssentialAt)) =
      stopBefore count parts := by
  cases parts <;> rfl

theorem segmentsOfParts_filter (count : Nat)
    {parts : List ((Entry × Nat) × List (Entry × Nat))}
    (h : ∀ part ∈ parts, opensRecordAt part.1 = true) :
    segmentsOfParts count (parts.map fun part ↦ (part.1, part.2.filter isEssentialAt)) =
      (segmentsOfParts count parts).map Segment.essential := by
  induction parts with
  | nil => rfl
  | cons part parts ih =>
    obtain ⟨hpart, hparts⟩ := List.forall_mem_cons.1 h
    have hentries : part.1.1 :: (part.2.filter isEssentialAt).map Prod.fst =
        (part.1.1 :: part.2.map Prod.fst).filter Entry.isEssential := by
      rw [List.filter_cons_of_pos (Entry.isEssential_of_opensRecord hpart), List.filter_map]
      rfl
    rw [List.map_cons, segmentsOfParts, ih hparts, stopBefore_filter, hentries, segmentsOfParts,
      List.map_cons]
    rfl

/-- **A member is made of the entries that say something.** -/
theorem Member.ofLines_eq_ofSegments_essential (texts : List String) :
    Member.ofLines texts =
      Member.ofSegments (segmentsOfSections texts.length
        (Sections.cut opensRecordAt (essentialEntries texts))) := by
  have hcut : Sections.cut opensRecordAt (essentialEntries texts) =
      (Sections.cut opensRecordAt (numberedEntries 0 texts)).filter isEssentialAt :=
    Sections.cut_filter (fun _ he ↦ Entry.isEssential_of_opensRecord he) _
  have hsegments : segmentsOfSections texts.length
      (Sections.cut opensRecordAt (essentialEntries texts)) =
        (segments texts).map Segment.essential := by
    have hsections : Sections.IsCut opensRecordAt
        (Sections.cut opensRecordAt (numberedEntries 0 texts)) := Sections.isCut_cut _
    have hparts := segmentsOfParts_filter texts.length hsections.heads
    rw [hcut, segmentsOfSections, Sections.filter, hparts, stopBefore_filter, segments,
      segmentsOfSections, List.map_cons, Segment.essential, List.filter_map]
    rfl
  rw [hsegments, Member.ofSegments, formatsOfSegments_map_essential]
  exact Member.ofLines_eq_ofSegments texts

/-! ### A line that is put in -/

/-- The number of a line after another one has been put in before line `inserted`. -/
def lineAfterInsertion (inserted line : Nat) : Nat := if inserted ≤ line then line + 1 else line

theorem lineAfterInsertion_of_lt {inserted line : Nat} (h : line < inserted) :
    lineAfterInsertion inserted line = line := if_neg (Nat.not_le.2 h)

theorem lineAfterInsertion_of_le {inserted line : Nat} (h : inserted ≤ line) :
    lineAfterInsertion inserted line = line + 1 := if_pos h

/-- The member with a line put in before line `inserted` that says nothing. The format before the
first record line still starts at line 0. -/
def Member.withLineAt (inserted : Nat) (m : Member) : Member :=
  let moved (f : RecordFormat) : LineRange := f.lines.renumbered (lineAfterInsertion inserted)
  { formats :=
      (m.formats.take 1).map (fun f ↦ { f with lines := { moved f with start := 0 } }) ++
        (m.formats.drop 1).map fun f ↦ { f with lines := moved f } }

/-- A line that says nothing only counts for the numbers of the lines behind it. -/
theorem essentialEntries_insert {x : String}
    (hx : ∀ e, Entry.ofLine? x = some e → e.isEssential = false) (as bs : List String) :
    essentialEntries (as ++ x :: bs) =
      (essentialEntries (as ++ bs)).map (renumberedEntry (lineAfterInsertion as.length)) := by
  have hfront : (numberedEntries 0 as).map (renumberedEntry (lineAfterInsertion as.length)) =
      numberedEntries 0 as :=
    map_numberedEntries fun i hi ↦ lineAfterInsertion_of_lt (by omega)
  have hbehind : (numberedEntries as.length bs).map
      (renumberedEntry (lineAfterInsertion as.length)) = numberedEntries (as.length + 1) bs := by
    refine map_numberedEntries fun i _ ↦ ?_
    rw [lineAfterInsertion_of_le (Nat.le_add_right _ i), Nat.add_right_comm]
  have hline : (((Entry.ofLine? x).map (·, as.length)).toList).filter isEssentialAt = [] := by
    cases he : Entry.ofLine? x with
    | none => rfl
    | some e => exact List.filter_cons_of_neg (by simp [isEssentialAt, hx e he])
  have hjoined : (numberedEntries 0 (as ++ bs)).map
      (renumberedEntry (lineAfterInsertion as.length)) =
        numberedEntries 0 as ++ numberedEntries (as.length + 1) bs := by
    rw [numberedEntries_append, List.map_append, Nat.zero_add, hfront, hbehind]
  calc essentialEntries (as ++ x :: bs)
      = (numberedEntries 0 as ++ numberedEntries (as.length + 1) bs).filter isEssentialAt := by
        rw [essentialEntries, numberedEntries_append, numberedEntries_cons, List.filter_append,
          List.filter_append, Nat.zero_add, hline, List.nil_append, ← List.filter_append]
    _ = (essentialEntries (as ++ bs)).map (renumberedEntry (lineAfterInsertion as.length)) := by
        rw [← hjoined]
        exact List.filter_map

/-- A window does not depend on where its format stands. -/
theorem RecordFormat.resolveWindow_with_lines (f : RecordFormat) (lines : LineRange) :
    ({ f with lines } : RecordFormat).resolveWindow = { f.resolveWindow with lines } := by
  have hfields : f.resolveWindow.fields = f.fields := f.fields_resolveWindow
  rw [resolveWindow_with f lines f.fields, ← hfields]

/-- On other lines, a segment gives the same format on those lines. -/
theorem Segment.format_with_lines (constants : Nat) (s : Segment) (lines : LineRange) :
    ({ s with lines } : Segment).format constants = { s.format constants with lines } :=
  RecordFormat.resolveWindow_with_lines ⟨s.name, s.lines, false, none, Window.screen, _, _⟩ lines

theorem formatsOfSegments_map_renumbered (number : Nat → Nat) (constants : Nat)
    (segments : List Segment) :
    formatsOfSegments constants (segments.map (Segment.renumbered number)) =
      (formatsOfSegments constants segments).map fun f ↦
        { f with lines := f.lines.renumbered number } := by
  induction segments generalizing constants with
  | nil => rfl
  | cons s segments ih =>
    have hconstants : (s.renumbered number).constants = s.constants := rfl
    rw [List.map_cons, formatsOfSegments, formatsOfSegments, ih, hconstants, List.map_cons,
      s.lines_format, Segment.renumbered, Segment.format_with_lines]

theorem ofSegments_withLineAt (inserted : Nat) (s : Segment) (segments : List Segment) :
    (Member.ofSegments (s :: segments)).withLineAt inserted =
      Member.ofSegments
        ({ s with lines := ⟨0, lineAfterInsertion inserted s.lines.stop⟩ } ::
          segments.map (Segment.renumbered (lineAfterInsertion inserted))) := by
  have hfirst (stop : Nat) : ({ s with lines := ⟨0, stop⟩ } : Segment).format 0 =
      { s.format 0 with lines := ⟨0, stop⟩ } := Segment.format_with_lines 0 s ⟨0, stop⟩
  rw [Member.ofSegments, Member.ofSegments, formatsOfSegments, formatsOfSegments,
    formatsOfSegments_map_renumbered, hfirst, ← s.lines_format 0]
  rfl

/-- **A line that says nothing can be put in anywhere.** The member keeps all its formats, and the
bounds of their ranges from that line on move by one. -/
theorem ofLines_insert_inert {x : String} (h : InertLine x.toList) (as bs : List String) :
    Member.ofLines (as ++ x :: bs) = (Member.ofLines (as ++ bs)).withLineAt as.length := by
  set number := lineAfterInsertion as.length with hnumber
  set s := Sections.cut opensRecordAt (essentialEntries (as ++ bs)) with hs
  have hcut : Sections.cut opensRecordAt (essentialEntries (as ++ x :: bs)) =
      s.map (renumberedEntry number) := by
    rw [essentialEntries_insert fun _ he ↦ h.isEssential_eq_false he, Sections.cut_map]
    rfl
  have hcount : (as ++ x :: bs).length = number (as ++ bs).length := by
    have hle : as.length ≤ (as ++ bs).length := by simp
    rw [hnumber, lineAfterInsertion_of_le hle, List.length_append, List.length_append,
      List.length_cons, Nat.add_assoc]
  have hsegments : segmentsOfSections (number (as ++ bs).length) (s.map (renumberedEntry number)) =
      { name := RecordFormat.globalName
        lines := ⟨0, number (stopBefore (as ++ bs).length s.parts)⟩
        entries := s.lead.map Prod.fst } ::
          (segmentsOfParts (as ++ bs).length s.parts).map (Segment.renumbered number) := by
    have hlead : (s.lead.map (renumberedEntry number)).map Prod.fst = s.lead.map Prod.fst :=
      List.map_map
    rw [← segmentsOfParts_renumberedParts, ← stopBefore_renumberedParts number, ← hlead]
    rfl
  rw [Member.ofLines_eq_ofSegments_essential, Member.ofLines_eq_ofSegments_essential, hcut, hcount,
    hsegments, segmentsOfSections, ofSegments_withLineAt]

/-- A line with conditions, a length, a usage and a row between the two lines of a constant. -/
theorem ofLines_insert_inert_blank :
    InertLine "     A  50N51                   10S 2B 24".toList ∧
      Member.ofLines (["     A          R MENU",
          "     A                                  1  2'SIGN +"] ++
          "     A  50N51                   10S 2B 24" ::
            ["     A                                      ON'"]) =
        (Member.ofLines (["     A          R MENU",
          "     A                                  1  2'SIGN +"] ++
            ["     A                                      ON'"])).withLineAt 2 :=
  have hblank : InertLine "     A  50N51                   10S 2B 24".toList :=
    .blank (by decide) (List.all_eq_true.1 (by decide)) (by decide)
      (List.all_eq_true.1 (by decide)) (List.all_eq_true.1 (by decide))
  ⟨hblank, ofLines_insert_inert hblank _ _⟩

end DisplayFile

import DisplayFile.Proofs.Member.Routing

/-!
# Records do not depend on what stands before them

Lines that begin with a record line can be put behind any other lines. The formats of the lines in
front stay as they are, and the formats behind them are those that the later lines give on their
own, with two differences: their ranges are counted from the new first line, and their constants are
numbered behind those in front (`ofLines_append`). So a quote that is not closed, an open field or
the column of the last field ends with its record, however malformed the lines in front are.

Both differences are parameters of the segments already, so the proof does not compare states of the
pass. The segments of the whole are those of the two parts, the later ones moved
(`segments_append`); and a segment gives the same format after any number of constants but for their
numbers (`Segment.displaced_format`). A number is a word, so there is a condition on the number of
lines: no member has more constants than lines (`constantsOfSegments_segments_le`).
-/

namespace DisplayFile

/-! ### What displacement changes -/

/-- The range further down by some number of lines. -/
def LineRange.moved (lines : Nat) (r : LineRange) : LineRange :=
  { start := r.start + lines, stop := r.stop + lines }

/-- The name of the constant with some number. -/
def Field.constantName (ordinal : Nat) : String := "TEXT" ++ toString ordinal

/-- The second field is the first one behind further constants: only the number in the name of a
constant is another. -/
structure Field.Renumbered (constants : Nat) (f g : Field) : Prop where
  other : g = { f with name := g.name }
  named : f.usage ≠ .constant → g.name = f.name
  numbered : f.usage = .constant →
    ∃ ordinal, f.name = constantName ordinal ∧ g.name = constantName (ordinal + constants)

/-- The second format is the first one behind further lines and constants. -/
structure RecordFormat.Displaced (lines constants : Nat) (f g : RecordFormat) : Prop where
  other : g = { f with lines := f.lines.moved lines, fields := g.fields }
  fields : List.Forall₂ (Field.Renumbered constants) f.fields g.fields

/-- How many constants a member has. -/
def Member.constants (m : Member) : Nat :=
  (m.formats.flatMap RecordFormat.fields).countP (·.usage = .constant)

/-! ### Renumbered lines -/

/-- A numbered entry under another number. -/
def renumberedEntry (number : Nat → Nat) (e : Entry × Nat) : Entry × Nat := (e.1, number e.2)

/-- The range from and up to other lines. -/
def LineRange.renumbered (number : Nat → Nat) (r : LineRange) : LineRange :=
  { start := number r.start, stop := number r.stop }

/-- The segment on other lines. -/
def Segment.renumbered (number : Nat → Nat) (s : Segment) : Segment :=
  { s with lines := s.lines.renumbered number }

/-- Numbered entries by their record lines, under other numbers. -/
def renumberedParts (number : Nat → Nat) (parts : List ((Entry × Nat) × List (Entry × Nat))) :
    List ((Entry × Nat) × List (Entry × Nat)) :=
  parts.map fun part ↦ (renumberedEntry number part.1, part.2.map (renumberedEntry number))

/-- Entries are renumbered with their lines. -/
theorem map_numberedEntries {number : Nat → Nat} {index index' : Nat} {texts : List String}
    (h : ∀ i < texts.length, number (index + i) = index' + i) :
    (numberedEntries index texts).map (renumberedEntry number) = numberedEntries index' texts := by
  induction texts generalizing index index' with
  | nil => rfl
  | cons text texts ih =>
    have hfirst : number index = index' := h 0 (Nat.succ_pos _)
    have hrest : ∀ i < texts.length, number (index + 1 + i) = index' + 1 + i := by
      intro i hi
      rw [Nat.add_right_comm, Nat.add_right_comm index']
      exact h (i + 1) (Nat.succ_lt_succ hi)
    rw [numberedEntries_cons, List.map_append, ih hrest, numberedEntries_cons, ← hfirst]
    cases Entry.ofLine? text <;> rfl

theorem stopBefore_renumberedParts (number : Nat → Nat) (count : Nat)
    (parts : List ((Entry × Nat) × List (Entry × Nat))) :
    stopBefore (number count) (renumberedParts number parts) = number (stopBefore count parts) := by
  cases parts <;> rfl

/-- Segments are renumbered with the parts that they are made of. -/
theorem segmentsOfParts_renumberedParts (number : Nat → Nat) (count : Nat)
    (parts : List ((Entry × Nat) × List (Entry × Nat))) :
    segmentsOfParts (number count) (renumberedParts number parts) =
      (segmentsOfParts count parts).map (Segment.renumbered number) := by
  induction parts with
  | nil => rfl
  | cons part parts ih =>
    have hstop := stopBefore_renumberedParts number count parts
    have hentries : (part.2.map (renumberedEntry number)).map Prod.fst = part.2.map Prod.fst :=
      List.map_map
    rw [segmentsOfParts, List.map_cons, ← ih, ← hentries, Segment.renumbered,
      LineRange.renumbered, ← hstop]
    rfl

/-! ### The segments of joined lines -/

/-- A numbered entry further down. -/
def movedEntry (lines : Nat) (e : Entry × Nat) : Entry × Nat := (e.1, e.2 + lines)

/-- Numbered entries by their record lines, further down. -/
def movedParts (lines : Nat) (parts : List ((Entry × Nat) × List (Entry × Nat))) :
    List ((Entry × Nat) × List (Entry × Nat)) :=
  parts.map fun part ↦ (movedEntry lines part.1, part.2.map (movedEntry lines))

/-- The segment further down. -/
def Segment.moved (lines : Nat) (s : Segment) : Segment := { s with lines := s.lines.moved lines }

/-- Lines behind others are numbered on from these. -/
theorem numberedEntries_append (index : Nat) (as bs : List String) :
    numberedEntries index (as ++ bs) =
      numberedEntries index as ++ numberedEntries (index + as.length) bs := by
  rw [numberedEntries, List.zipIdx_append, List.filterMap_append]
  rfl

theorem numberedEntries_add (index lines : Nat) (texts : List String) :
    numberedEntries (index + lines) texts =
      (numberedEntries index texts).map (movedEntry lines) := by
  show _ = (numberedEntries index texts).map (renumberedEntry (· + lines))
  exact (map_numberedEntries fun i _ ↦ Nat.add_right_comm index i lines).symm

/-- The numbered entries of joined lines, of which the later ones begin with a record line. -/
theorem cut_numberedEntries_append {as bs : List String}
    (h : (Sections.cut opensRecordAt (numberedEntries 0 bs)).lead = []) :
    Sections.cut opensRecordAt (numberedEntries 0 (as ++ bs)) =
      { Sections.cut opensRecordAt (numberedEntries 0 as) with
        parts := (Sections.cut opensRecordAt (numberedEntries 0 as)).parts ++
          movedParts as.length (Sections.cut opensRecordAt (numberedEntries 0 bs)).parts } := by
  have hlater : Sections.cut opensRecordAt (numberedEntries (0 + as.length) bs) =
      ⟨[], movedParts as.length (Sections.cut opensRecordAt (numberedEntries 0 bs)).parts⟩ := by
    rw [numberedEntries_add, Sections.cut_map, Sections.map]
    rw [show (fun e ↦ opensRecordAt (movedEntry as.length e)) = opensRecordAt from rfl, h]
    rfl
  rw [numberedEntries_append, Sections.cut_append_of_lead_eq_nil (by rw [hlater]), hlater]

/-- Parts end before what follows them. -/
theorem stopBefore_append (count : Nat) (parts later : List ((Entry × Nat) × List (Entry × Nat))) :
    stopBefore count (parts ++ later) = stopBefore (stopBefore count later) parts := by
  cases parts <;> rfl

/-- The last of the first parts ends where the later ones start. In all else the two are segments
apart. -/
theorem segmentsOfParts_append (count : Nat)
    (parts later : List ((Entry × Nat) × List (Entry × Nat))) :
    segmentsOfParts count (parts ++ later) =
      segmentsOfParts (stopBefore count later) parts ++ segmentsOfParts count later := by
  induction parts with
  | nil => rfl
  | cons part parts ih =>
    rw [List.cons_append, segmentsOfParts, segmentsOfParts, ih, stopBefore_append, List.cons_append]

theorem stopBefore_movedParts (lines count : Nat)
    (parts : List ((Entry × Nat) × List (Entry × Nat))) :
    stopBefore (lines + count) (movedParts lines parts) = stopBefore count parts + lines := by
  rw [Nat.add_comm lines count]
  exact stopBefore_renumberedParts (· + lines) count parts

theorem segmentsOfParts_movedParts (lines count : Nat)
    (parts : List ((Entry × Nat) × List (Entry × Nat))) :
    segmentsOfParts (lines + count) (movedParts lines parts) =
      (segmentsOfParts count parts).map (Segment.moved lines) := by
  rw [Nat.add_comm lines count]
  exact segmentsOfParts_renumberedParts (· + lines) count parts

/-- Lines that begin with a record line have nothing before their first part. -/
theorem cut_numberedEntries_of_opensRecord {b : String} {e : Entry} (hb : Entry.ofLine? b = some e)
    (he : e.opensRecord = true) (bs : List String) :
    ∃ body parts,
      Sections.cut opensRecordAt (numberedEntries 0 (b :: bs)) = ⟨[], ((e, 0), body) :: parts⟩ := by
  have hentries : numberedEntries 0 (b :: bs) = (e, 0) :: numberedEntries 1 bs := by
    rw [numberedEntries_cons, hb]
    rfl
  rw [hentries, Sections.cut_cons_of_marked (show opensRecordAt (e, 0) = true from he)]
  exact ⟨_, _, rfl⟩

/-- The segment of no lines. -/
def Segment.empty : Segment := { name := RecordFormat.globalName, lines := ⟨0, 0⟩, entries := [] }

/-- **The segments of joined lines are those of the lines in front and, moved, those of the later
lines.** -/
theorem segments_append {b : String} {e : Entry} (hb : Entry.ofLine? b = some e)
    (he : e.opensRecord = true) (as bs : List String) :
    ∃ later, segments (b :: bs) = Segment.empty :: later ∧
      segments (as ++ b :: bs) = segments as ++ later.map (Segment.moved as.length) := by
  obtain ⟨body, parts, hcut⟩ := cut_numberedEntries_of_opensRecord hb he bs
  refine ⟨segmentsOfParts (b :: bs).length (((e, 0), body) :: parts), ?_, ?_⟩
  · rw [segments, hcut]
    rfl
  · have hstop : stopBefore (as.length + (b :: bs).length)
        (movedParts as.length (((e, 0), body) :: parts)) = as.length := by
      rw [stopBefore_movedParts, stopBefore, Nat.zero_add]
    rw [segments, cut_numberedEntries_append (by rw [hcut]), hcut, segmentsOfSections,
      List.length_append, stopBefore_append, segmentsOfParts_append, hstop,
      segmentsOfParts_movedParts, segments, segmentsOfSections, List.cons_append]

/-! ### Counting constants -/

/-- The constants among the fields of runs are the runs that open one. -/
theorem countP_fieldsOfRuns (constants : Nat) (before : Option Field)
    (runs : List (Entry × List Entry)) :
    (fieldsOfRuns constants before runs).countP (·.usage = .constant) = constantsOfRuns runs := by
  induction runs generalizing constants before with
  | nil => rfl
  | cons run runs ih =>
    have hrun : (Field.ofRun constants before run).usage = .constant ↔ run.1.name.isEmpty = true :=
      run.1.usage_openedField_eq_constant_iff constants before
    have hfirst : [Field.ofRun constants before run].countP (·.usage = .constant) =
        constantsOfRuns [run] := by
      rw [constantsOfRuns, List.countP_singleton, List.countP_singleton]
      simp only [decide_eq_true_eq, hrun]
    rw [fieldsOfRuns, ← List.singleton_append, List.countP_append, hfirst, ih,
      ← constantsOfRuns_cons]

/-- How many constants segments have. -/
def constantsOfSegments : List Segment → Nat
  | [] => 0
  | s :: segments => s.constants + constantsOfSegments segments

theorem constantsOfSegments_append (front later : List Segment) :
    constantsOfSegments (front ++ later) =
      constantsOfSegments front + constantsOfSegments later := by
  induction front with
  | nil => exact (Nat.zero_add _).symm
  | cons s front ih =>
    rw [List.cons_append, constantsOfSegments, ih, constantsOfSegments, Nat.add_assoc]

theorem constantsOfSegments_map_moved (lines : Nat) (segments : List Segment) :
    constantsOfSegments (segments.map (Segment.moved lines)) = constantsOfSegments segments := by
  induction segments with
  | nil => rfl
  | cons s segments ih => exact congrArg (s.constants + ·) ih

theorem countP_formatsOfSegments (constants : Nat) (segments : List Segment) :
    ((formatsOfSegments constants segments).flatMap RecordFormat.fields).countP
      (·.usage = .constant) = constantsOfSegments segments := by
  induction segments generalizing constants with
  | nil => rfl
  | cons s segments ih =>
    rw [formatsOfSegments, List.flatMap_cons, List.countP_append, ih, Segment.format,
      RecordFormat.fields_resolveWindow, countP_fieldsOfRuns, constantsOfSegments,
      Segment.constants]

/-- The constants of a member are those of its segments. -/
theorem constants_ofLines (texts : List String) :
    (Member.ofLines texts).constants = constantsOfSegments (segments texts) := by
  rw [Member.ofLines_eq_ofSegments]
  exact countP_formatsOfSegments 0 (segments texts)

/-- Each constant has an entry of its own. -/
theorem Segment.constants_le_length_entries (s : Segment) : s.constants ≤ s.entries.length := by
  have hruns : (Entry.runs s.entries).parts.length ≤ s.entries.length := by
    rw [← List.length_map Prod.fst, Entry.runs, Sections.heads_cut]
    exact Nat.le_trans (List.length_filter_le _ _) (List.length_filter_le _ _)
  exact Nat.le_trans List.countP_le_length hruns

theorem constantsOfSegments_le_length (segments : List Segment) :
    constantsOfSegments segments ≤ (segments.map Segment.entries).flatten.length := by
  induction segments with
  | nil => exact Nat.le_refl 0
  | cons s segments ih =>
    rw [constantsOfSegments, List.map_cons, List.flatten_cons, List.length_append]
    exact Nat.add_le_add s.constants_le_length_entries ih

/-- No member has more constants than lines. -/
theorem constantsOfSegments_segments_le (texts : List String) :
    constantsOfSegments (segments texts) ≤ texts.length :=
  calc constantsOfSegments (segments texts)
      ≤ ((segments texts).map Segment.entries).flatten.length := constantsOfSegments_le_length _
    _ = (texts.filterMap Entry.ofLine?).length := by
        rw [map_entries_segments, flatten_segmentEntries]
    _ ≤ texts.length := List.length_filterMap_le _ _

/-- The constants of later segments are numbered on from those of the first. -/
theorem formatsOfSegments_append (constants : Nat) (front later : List Segment) :
    formatsOfSegments constants (front ++ later) =
      formatsOfSegments constants front ++
        formatsOfSegments (constants + constantsOfSegments front) later := by
  induction front generalizing constants with
  | nil => rfl
  | cons s front ih =>
    rw [List.cons_append, formatsOfSegments, ih, formatsOfSegments, constantsOfSegments,
      Nat.add_assoc, List.cons_append]

/-! ### Formats behind further lines and constants -/

/-- A field is placed after the field before it whatever the name of that is. -/
theorem Field.Renumbered.positionAfter {constants : Nat} {f g : Field}
    (h : Field.Renumbered constants f g) (e : Entry) :
    e.positionAfter (some g) = e.positionAfter (some f) := by
  rw [h.other]
  rfl

/-- A number that fits in a word is written as it is. -/
theorem Entry.name_constantField {ordinal : Nat} (e : Entry) (position : Position)
    (h : ordinal < UInt32.size) :
    (e.constantField (UInt32.ofNat ordinal) position).name = Field.constantName ordinal :=
  congrArg (fun k ↦ "TEXT" ++ toString k) (Nat.mod_eq_of_lt h)

/-- A field that is opened at the same place is the same but for the number in the name of a
constant, which does not wrap. -/
theorem Entry.renumbered_openedField {constants n : Nat} {before before' : Option Field} {e : Entry}
    (hposition : e.positionAfter before' = e.positionAfter before)
    (hsize : e.name.isEmpty = true → n + constants + 1 < UInt32.size) :
    Field.Renumbered constants (e.openedField n before)
      (e.openedField (n + constants) before') := by
  have hconstant := e.usage_openedField_eq_constant_iff n before
  rw [openedField] at hconstant
  rw [openedField, openedField, hposition]
  cases hname : e.name.isEmpty with
  | true =>
    have hlt := hsize hname
    refine ⟨rfl, fun h ↦ absurd rfl h, fun _ ↦ ⟨n + 1, ?_, ?_⟩⟩
    · exact e.name_constantField _ (by omega)
    · rw [Nat.add_right_comm n 1 constants]
      exact e.name_constantField _ hlt
  | false =>
    rw [hname] at hconstant
    exact ⟨rfl, fun _ ↦ rfl, fun h ↦ absurd (hconstant.1 h) Bool.false_ne_true⟩

theorem Field.renumbered_ofRun {constants n : Nat} {before before' : Option Field}
    {run : Entry × List Entry}
    (hposition : run.1.positionAfter before' = run.1.positionAfter before)
    (hsize : run.1.name.isEmpty = true → n + constants + 1 < UInt32.size) :
    Field.Renumbered constants (Field.ofRun n before run)
      (Field.ofRun (n + constants) before' run) := by
  obtain ⟨hother, hnamed, hnumbered⟩ := Entry.renumbered_openedField hposition hsize
  refine ⟨?_, hnamed, hnumbered⟩
  rw [ofRun, ofRun, hother]

/-- The runs of a format give the same fields after further constants. What a field hands on to the
next one is where that is placed. -/
theorem forall₂_renumbered_fieldsOfRuns {constants n : Nat} {before before' : Option Field}
    {runs : List (Entry × List Entry)}
    (hposition : ∀ e : Entry, e.positionAfter before' = e.positionAfter before)
    (hsize : n + constants + constantsOfRuns runs < UInt32.size) :
    List.Forall₂ (Field.Renumbered constants) (fieldsOfRuns n before runs)
      (fieldsOfRuns (n + constants) before' runs) := by
  induction runs generalizing n before before' with
  | nil => exact .nil
  | cons run runs ih =>
    rw [constantsOfRuns_cons] at hsize
    have hone : run.1.name.isEmpty = true → constantsOfRuns [run] = 1 := fun h ↦ by
      rw [constantsOfRuns, List.countP_singleton, if_pos h]
    have hrun : Field.Renumbered constants (Field.ofRun n before run)
        (Field.ofRun (n + constants) before' run) := by
      refine Field.renumbered_ofRun (hposition run.1) fun h ↦ ?_
      have hconstant := hone h
      omega
    -- the fields before the next run are `hrun`, and they place it at the same column
    rw [fieldsOfRuns, fieldsOfRuns, Nat.add_right_comm]
    exact .cons hrun (ih hrun.positionAfter (by omega))

/-- **A segment further down gives the same format, displaced.** -/
theorem Segment.displaced_format {constants n : Nat} (lines : Nat) {s : Segment}
    (hsize : n + constants + s.constants < UInt32.size) :
    RecordFormat.Displaced lines constants (s.format n)
      ((s.moved lines).format (n + constants)) := by
  constructor
  · have hwith := RecordFormat.resolveWindow_with
      { name := s.name
        lines := s.lines
        isWindow := false
        windowReference := none
        window := Window.screen
        keywords := (Keyword.resolve (Entry.area (Entry.runs s.entries).lead)).keywords
        fields := fieldsOfRuns n none (Entry.runs s.entries).parts }
      (s.lines.moved lines) (fieldsOfRuns (n + constants) none (Entry.runs s.entries).parts)
    have hformat : (s.moved lines).format (n + constants) =
        { s.format n with
          lines := s.lines.moved lines
          fields := fieldsOfRuns (n + constants) none (Entry.runs s.entries).parts } := hwith
    rw [hformat, s.lines_format]
  · rw [format, format, RecordFormat.fields_resolveWindow, RecordFormat.fields_resolveWindow]
    exact forall₂_renumbered_fieldsOfRuns (fun _ ↦ rfl) hsize

/-- Segments further down give the same formats, each displaced. -/
theorem forall₂_displaced_formatsOfSegments {constants n : Nat} (lines : Nat)
    {segments : List Segment} (hsize : n + constants + constantsOfSegments segments < UInt32.size) :
    List.Forall₂ (RecordFormat.Displaced lines constants) (formatsOfSegments n segments)
      (formatsOfSegments (n + constants) (segments.map (Segment.moved lines))) := by
  induction segments generalizing n with
  | nil => exact .nil
  | cons s segments ih =>
    rw [constantsOfSegments] at hsize
    rw [List.map_cons, formatsOfSegments, formatsOfSegments,
      show (s.moved lines).constants = s.constants from rfl, Nat.add_right_comm]
    exact .cons (Segment.displaced_format lines (by omega)) (ih (by omega))

/-- **Lines behind which records follow keep their formats, and the records have the formats that
they have on their own, displaced by those lines and by their constants.** -/
theorem ofLines_append {as bs : List String} {b : String} {e : Entry}
    (hb : Entry.ofLine? b = some e) (he : e.opensRecord = true)
    (hsize : (as ++ b :: bs).length < UInt32.size) :
    ∃ later,
      (Member.ofLines (as ++ b :: bs)).formats = (Member.ofLines as).formats ++ later ∧
        List.Forall₂ (RecordFormat.Displaced as.length (Member.ofLines as).constants)
          (Member.ofLines (b :: bs)).formats.tail later := by
  obtain ⟨later, halone, hjoined⟩ := segments_append hb he as bs
  have hcount := constantsOfSegments_segments_le (as ++ b :: bs)
  rw [hjoined, constantsOfSegments_append, constantsOfSegments_map_moved] at hcount
  -- on their own the later lines begin with a format that no line is in
  have hempty : Segment.empty.constants = 0 := rfl
  refine ⟨formatsOfSegments (0 + constantsOfSegments (segments as))
    (later.map (Segment.moved as.length)), ?_, ?_⟩
  · rw [Member.ofLines_eq_ofSegments, Member.ofLines_eq_ofSegments, hjoined, Member.ofSegments,
      Member.ofSegments, formatsOfSegments_append]
  · rw [Member.ofLines_eq_ofSegments (b :: bs), halone, Member.ofSegments, formatsOfSegments,
      List.tail_cons, hempty, constants_ofLines]
    exact forall₂_displaced_formatsOfSegments as.length (by omega)

/-- A title whose quote is not closed, and a record behind it. -/
theorem ofLines_append_unclosed_title :
    Entry.ofLine? "     A          R MENU" =
        some ⟨"          ", 'R', "MENU", "", ' ', "", ' ', "", "", ""⟩ ∧
      ∃ later,
        (Member.ofLines (["     A                                  1  2'TITLE"] ++
            "     A          R MENU" ::
              ["     A                                  3  2'OPTION'"])).formats =
          (Member.ofLines ["     A                                  1  2'TITLE"]).formats ++ later ∧
        List.Forall₂
          (RecordFormat.Displaced 1
            (Member.ofLines ["     A                                  1  2'TITLE"]).constants)
          (Member.ofLines ("     A          R MENU" ::
            ["     A                                  3  2'OPTION'"])).formats.tail later :=
  ⟨by decide,
    ofLines_append (e := ⟨"          ", 'R', "MENU", "", ' ', "", ' ', "", "", ""⟩)
      (by decide) (by decide) (by decide)⟩

end DisplayFile

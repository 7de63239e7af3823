import DisplayFile.Proofs.Member.Segments
import Mathlib.Data.List.Forall2

/-!
# Which line goes where

Every line of the layout adds its keyword area to exactly one place: to the record format of its
segment when it stands before the first entry that opens a field, and else to the field whose run it
is in. The lines themselves decide this. A record line opens a format, an entry that opens a field
opens one, and comments and entries with other markers go nowhere, wherever they stand.

`RecordFormat.Collects` says what a format owes to the entries of its segment, without the order in
which they were read or the state in which they were met. The main statement is
`ofLines_collects_segments`: the formats of a member are, one by one, those that its segments
describe, and the areas of all of them put together are the keyword areas of the layout, each once
and in order.
-/

namespace DisplayFile

/-! ### What a format collects -/

/-- The keywords that the data type of a named entry stands for. -/
def Entry.impliedKeywords (e : Entry) : List Keyword :=
  if e.name.isEmpty then []
  else
    match e.dataType with
    | 'L' => [.flag "DATE"]
    | 'T' => [.flag "TIME"]
    | _ => []

/-- The field is the one that a run opens, and has the text and the keywords that the run gives. -/
structure Field.Collects (run : Entry × List Entry) (f : Field) : Prop where
  constant : f.usage = .constant ↔ run.1.name.isEmpty = true
  name : run.1.name.isEmpty = false → f.name = run.1.name
  value : f.value = (Keyword.resolve (Entry.area (run.1 :: run.2))).constant
  keywords : f.keywords = run.1.impliedKeywords ++
    (Keyword.resolve (Entry.area (run.1 :: run.2))).keywords

/-- The format has the keywords and the fields that the entries of a segment give: the keywords of
what stands before the first entry that opens a field, and one field for each such entry. -/
structure RecordFormat.Collects (es : List Entry) (f : RecordFormat) : Prop where
  keywords : f.keywords = (Keyword.resolve (Entry.area (Entry.runs es).lead)).keywords
  opened : f.fields.length = (es.filter Entry.isOpening).length
  fields : List.Forall₂ Field.Collects (Entry.runs es).parts f.fields

/-- The entries of a member by segments: those before the first record line, then each record line
with the entries up to the next one. -/
def segmentEntries (texts : List String) : List (List Entry) :=
  let cut := Sections.cut Entry.opensRecord (texts.filterMap Entry.ofLine?)
  cut.lead :: cut.parts.map fun part ↦ part.1 :: part.2

/-- The keyword areas of a segment: that of the format, then one for each field. -/
def keywordAreas (es : List Entry) : List (List Keyword.Line) :=
  Entry.area (Entry.runs es).lead ::
    (Entry.runs es).parts.map fun run ↦ Entry.area (run.1 :: run.2)

/-! ### The entries of the segments -/

theorem map_fst_numberedEntries (index : Nat) (texts : List String) :
    (numberedEntries index texts).map Prod.fst = texts.filterMap Entry.ofLine? := by
  induction texts generalizing index with
  | nil => rfl
  | cons text texts ih =>
    rw [numberedEntries_cons, List.map_append, ih, List.filterMap_cons]
    cases Entry.ofLine? text <;> rfl

/-- Each record line makes a segment with its name and with the entries up to the next one, whatever
is asked of the two. -/
theorem map_segmentsOfParts {α : Type} (ask : String → List Entry → α) (count : Nat)
    (parts : List ((Entry × Nat) × List (Entry × Nat))) :
    (segmentsOfParts count parts).map (fun s ↦ ask s.name s.entries) =
      parts.map fun part ↦ ask part.1.1.name (part.1.1 :: part.2.map Prod.fst) := by
  induction parts with
  | nil => rfl
  | cons part parts ih => exact congrArg (_ :: ·) ih

/-- Forgetting the numbers of the lines, the segments are those of the entries. -/
theorem map_entries_segments (texts : List String) :
    (segments texts).map Segment.entries = segmentEntries texts := by
  rw [segmentEntries, ← map_fst_numberedEntries 0 texts, Sections.cut_map, segments,
    segmentsOfSections, List.map_cons, map_segmentsOfParts fun _ entries ↦ entries, Sections.map,
    List.map_map]
  rfl

/-- The segments have the name of what stands before all record lines, and the names of these. -/
theorem map_name_segments (texts : List String) :
    (segments texts).map Segment.name =
      RecordFormat.globalName ::
        ((texts.filterMap Entry.ofLine?).filter Entry.opensRecord).map Entry.name := by
  have hheads : (Sections.cut opensRecordAt (numberedEntries 0 texts)).parts.map Prod.fst =
      (numberedEntries 0 texts).filter opensRecordAt := Sections.heads_cut _
  rw [segments, segmentsOfSections, List.map_cons, map_segmentsOfParts fun name _ ↦ name,
    ← map_fst_numberedEntries 0 texts, List.filter_map, List.map_map]
  refine congrArg (_ :: ·) ?_
  rw [show (Entry.opensRecord ∘ Prod.fst : Entry × Nat → Bool) = opensRecordAt from rfl, ← hheads,
    List.map_map]
  rfl

/-! ### The formats of the segments -/

theorem Entry.keywords_openedField (constants : Nat) (before : Option Field) (e : Entry) :
    (e.openedField constants before).keywords = e.impliedKeywords := by
  rw [openedField, impliedKeywords]
  cases e.name.isEmpty with
  | true => rfl
  | false =>
    rw [if_neg Bool.false_ne_true, if_neg Bool.false_ne_true, namedField]
    split <;> simp_all

theorem Entry.name_openedField (constants : Nat) (before : Option Field) (e : Entry)
    (h : e.name.isEmpty = false) : (e.openedField constants before).name = e.name := by
  rw [openedField, h, if_neg Bool.false_ne_true, namedField]
  split <;> rfl

theorem Field.collects_ofRun (constants : Nat) (before : Option Field)
    (run : Entry × List Entry) : Field.Collects run (Field.ofRun constants before run) where
  constant := run.1.usage_openedField_eq_constant_iff constants before
  name := run.1.name_openedField constants before
  value := rfl
  keywords := by rw [← Entry.keywords_openedField constants before]; rfl

theorem forall₂_collects_fieldsOfRuns (constants : Nat) (before : Option Field)
    (runs : List (Entry × List Entry)) :
    List.Forall₂ Field.Collects runs (fieldsOfRuns constants before runs) := by
  induction runs generalizing constants before with
  | nil => exact .nil
  | cons run runs ih => exact .cons (Field.collects_ofRun _ _ run) (ih _ _)

/-- The runs of a segment are headed by its entries that open a field, in order. An entry that opens
a field belongs to the layout, so filtering by layout first drops none. -/
theorem Entry.map_fst_parts_runs (es : List Entry) :
    (Entry.runs es).parts.map Prod.fst = es.filter isOpening := by
  rw [runs, Sections.heads_cut, List.filter_filter]
  refine List.filter_congr fun e _ ↦ ?_
  simp only [isOpening, isLayout]
  by_cases h : e.marker = ' ' <;> simp [h]

theorem Segment.collects_format (constants : Nat) (s : Segment) :
    RecordFormat.Collects s.entries (s.format constants) where
  keywords := by rw [format, RecordFormat.keywords_resolveWindow]
  opened := by
    have hfields := (forall₂_collects_fieldsOfRuns constants none (Entry.runs s.entries).parts)
    rw [format, RecordFormat.fields_resolveWindow, ← hfields.length_eq,
      ← Entry.map_fst_parts_runs, List.length_map]
  fields := by
    rw [format, RecordFormat.fields_resolveWindow]
    exact forall₂_collects_fieldsOfRuns _ _ _

/-- What holds between a segment and its format, however constants are numbered, holds between
successive segments and their formats one by one. -/
theorem forall₂_formatsOfSegments {R : Segment → RecordFormat → Prop} {segments : List Segment}
    (h : ∀ s ∈ segments, ∀ n, R s (s.format n)) (constants : Nat) :
    List.Forall₂ R segments (formatsOfSegments constants segments) := by
  induction segments generalizing constants with
  | nil => exact .nil
  | cons s segments ih =>
    obtain ⟨hs, hsegments⟩ := List.forall_mem_cons.1 h
    exact .cons (hs constants) (ih hsegments _)

/-- What a format takes over from its segment, however constants are numbered, the formats of
successive segments take over from these. -/
theorem map_formatsOfSegments {α : Type} {ask : RecordFormat → α} {given : Segment → α}
    (h : ∀ s n, ask (s.format n) = given s) (constants : Nat) (segments : List Segment) :
    (formatsOfSegments constants segments).map ask = segments.map given := by
  have heach : List.Forall₂ (fun s f ↦ ask f = given s) segments
      (formatsOfSegments constants segments) :=
    forall₂_formatsOfSegments (fun s _ n ↦ h s n) constants
  have hmaps : List.Forall₂ (· = ·) ((formatsOfSegments constants segments).map ask)
      (segments.map given) :=
    List.forall₂_map_left_iff.2 (List.forall₂_map_right_iff.2 heach.flip)
  rwa [List.forall₂_eq_eq_eq] at hmaps

/-- What holds between the entries of a segment and its format holds all over a member. -/
theorem forall₂_formats_ofLines {R : List Entry → RecordFormat → Prop} {texts : List String}
    (h : ∀ s ∈ segments texts, ∀ n, R s.entries (s.format n)) :
    List.Forall₂ R (segmentEntries texts) (Member.ofLines texts).formats := by
  rw [Member.ofLines_eq_ofSegments, ← map_entries_segments]
  exact List.forall₂_map_left_iff.2 (forall₂_formatsOfSegments h 0)

/-- Every format of a member collects its segment. -/
theorem forall₂_collects_formats_ofLines (texts : List String) :
    List.Forall₂ RecordFormat.Collects (segmentEntries texts) (Member.ofLines texts).formats :=
  forall₂_formats_ofLines fun s _ n ↦ s.collects_format n

/-! ### Nothing lost, nothing twice -/

/-- The areas of a segment are the keyword areas of its layout. -/
theorem flatten_keywordAreas (es : List Entry) :
    (keywordAreas es).flatten = Entry.area (es.filter Entry.isLayout) := by
  have hjoin : (Entry.runs es).lead ++ Sections.joinParts (Entry.runs es).parts =
      es.filter Entry.isLayout := Sections.join_cut _
  rw [keywordAreas, List.flatten_cons, ← List.flatMap_def, ← hjoin, Entry.area, Entry.area,
    List.map_append, Sections.joinParts, List.map_flatMap]
  rfl

/-- The segments are the entries. -/
theorem flatten_segmentEntries (texts : List String) :
    (segmentEntries texts).flatten = texts.filterMap Entry.ofLine? := by
  rw [segmentEntries, List.flatten_cons, ← List.flatMap_def]
  exact Sections.join_cut _

/-- What a segment is made of stands on the lines of the member. -/
theorem exists_line_of_mem_segments {texts : List String} {s : Segment} (hs : s ∈ segments texts)
    {e : Entry} (he : e ∈ s.entries) : ∃ text ∈ texts, Entry.ofLine? text = some e := by
  have hentries : s.entries ∈ segmentEntries texts := by
    rw [← map_entries_segments]
    exact List.mem_map_of_mem hs
  rw [← List.mem_filterMap, ← flatten_segmentEntries]
  exact List.mem_flatten_of_mem hentries he

/-- The entry that opens a run is one of those that were cut. -/
theorem Entry.mem_of_mem_parts_runs {es : List Entry} {run : Entry × List Entry}
    (h : run ∈ (Entry.runs es).parts) : run.1 ∈ es := by
  have hhead : run.1 ∈ es.filter isOpening := by
    rw [← map_fst_parts_runs]
    exact List.mem_map_of_mem h
  exact (List.mem_filter.1 hhead).1

/-- **Every line of the layout goes to exactly one keyword area, and every format and field is made
of its own areas.** The formats are `GLOBAL` and one for each record line; each collects its
segment; and the areas of all segments together are those of the layout. -/
theorem ofLines_collects_segments (texts : List String) :
    (Member.ofLines texts).formats.length =
        1 + ((texts.filterMap Entry.ofLine?).filter Entry.opensRecord).length ∧
      (Member.ofLines texts).formats.map RecordFormat.name =
        RecordFormat.globalName ::
          ((texts.filterMap Entry.ofLine?).filter Entry.opensRecord).map Entry.name ∧
      List.Forall₂ RecordFormat.Collects (segmentEntries texts) (Member.ofLines texts).formats ∧
      ((segmentEntries texts).flatMap keywordAreas).flatten =
        Entry.area ((texts.filterMap Entry.ofLine?).filter Entry.isLayout) := by
  -- the number of formats is read off their names
  have hnames : (Member.ofLines texts).formats.map RecordFormat.name =
      RecordFormat.globalName ::
        ((texts.filterMap Entry.ofLine?).filter Entry.opensRecord).map Entry.name := by
    rw [Member.ofLines_eq_ofSegments, ← map_name_segments]
    exact map_formatsOfSegments (fun s n ↦ RecordFormat.name_resolveWindow _) 0 (segments texts)
  refine ⟨?_, hnames, forall₂_collects_formats_ofLines texts, ?_⟩
  · have hlength := congrArg List.length hnames
    simpa [Nat.add_comm] using hlength
  · have hareas : ∀ segments : List (List Entry), (segments.flatMap keywordAreas).flatten =
        Entry.area (segments.flatten.filter Entry.isLayout) := by
      intro segments
      induction segments with
      | nil => rfl
      | cons es segments ih =>
        rw [List.flatMap_cons, List.flatten_append, ih, flatten_keywordAreas, List.flatten_cons,
          List.filter_append, Entry.area, Entry.area, Entry.area, List.map_append]
    rw [hareas, flatten_segmentEntries]

end DisplayFile

import DisplayFile.Member.Assembly
import DisplayFile.Proofs.Member.Settling
import DisplayFile.Proofs.Sections

/-!
# A member by its segments

Assembling a member is a pass over its lines with a state. This module says what the pass computes
without one: the entries are cut before the record lines into segments, the layout of each segment
is cut before the entries that open a field into runs, and every format and field is built from its
own segment or run. `ofLines_eq_ofSegments` says that both give the same member.

Three things are not local to a segment or run, and each is a parameter here: the line on which a
segment starts and the one before which it ends, how many constants stand before it, and, for a
relative column, the field before. Constants are counted in natural numbers and only a constant's
own number is a word, so that counts add up without a bound on the size of the member.

The proof follows the two cuts. `placeAll_body` and `placeAll_run` say what the entries of one run
do to the open format, `placeAll_runs` collects the runs, `close_addAll_body` closes a segment, and
`close_addAll_parts` is the induction over the segments.
-/

namespace DisplayFile

/-! ### Runs -/

namespace Entry

/-- The entry opens a field of the format that it stands in. A record line can have columns of a
field too, but opens none. -/
def isOpening (e : Entry) : Bool := e.marker = ' ' && e.opensField

/-- The layout of a segment, cut before the entries that open a field. -/
def runs (es : List Entry) : Sections Entry :=
  Sections.cut isOpening (es.filter isLayout)

/-- The lines that entries add to a keyword area. -/
def area (es : List Entry) : List Keyword.Line := es.map keywordLine

/-- Where the entry places its field after the field before it. -/
def positionAfter (before : Option Field) (e : Entry) : Position :=
  if e.column.isEmpty then { row := amount e.row, column := 0 }
  else if e.isRelative then
    { row := 0
      column :=
        match before with
        | some f => f.position.column + amount e.column + f.textWidth
        | none => amount e.column }
  else { row := amount e.row, column := amount e.column }

/-- The field that the entry opens, before its keyword area is read. -/
def openedField (constants : Nat) (before : Option Field) (e : Entry) : Field :=
  if e.name.isEmpty then e.constantField (UInt32.ofNat (constants + 1)) (e.positionAfter before)
  else e.namedField (e.positionAfter before)

/-- Between record lines, the entries of the layout that open a field are those that have columns of
one. -/
theorem isOpening_eq_opensField {e : Entry} (hrecord : e.opensRecord = false)
    (hlayout : e.isLayout = true) : e.isOpening = e.opensField := by
  have hmarker : e.marker = ' ' := by
    rcases (by simpa [isLayout] using hlayout : e.marker = 'R' ∨ e.marker = ' ') with h | h
    · rw [opensRecord, decide_eq_true h] at hrecord
      cases hrecord
    · exact h
  rw [isOpening, decide_eq_true hmarker, Bool.true_and]

/-- No letter in the column of the usage makes a named field a constant. -/
theorem fieldUsage_ne_constant (e : Entry) : e.fieldUsage ≠ .constant := by
  rw [fieldUsage]
  split <;> exact Usage.noConfusion

/-- A field is a constant exactly when the entry that opens it has no name. -/
theorem usage_openedField_eq_constant_iff (constants : Nat) (before : Option Field)
    (e : Entry) : (e.openedField constants before).usage = .constant ↔ e.name.isEmpty = true := by
  rw [openedField]
  cases e.name.isEmpty with
  | true => exact iff_of_true rfl rfl
  | false =>
    have husage : (e.namedField (e.positionAfter before)).usage = e.fieldUsage := by
      rw [namedField]
      split <;> rfl
    rw [if_neg Bool.false_ne_true, husage]
    exact iff_of_false e.fieldUsage_ne_constant Bool.false_ne_true

end Entry

/-- The field of a run: the entry that opens it and the entries after it. -/
def Field.ofRun (constants : Nat) (before : Option Field) (run : Entry × List Entry) : Field :=
  let opened := run.1.openedField constants before
  let resolved := Keyword.resolve (Entry.area (run.1 :: run.2))
  { opened with
    keywords := opened.keywords ++ resolved.keywords
    value := resolved.constant }

/-- How many constants runs open. -/
def constantsOfRuns (runs : List (Entry × List Entry)) : Nat :=
  runs.countP fun run ↦ run.1.name.isEmpty

theorem constantsOfRuns_cons (run : Entry × List Entry) (runs : List (Entry × List Entry)) :
    constantsOfRuns (run :: runs) = constantsOfRuns [run] + constantsOfRuns runs := by
  rw [constantsOfRuns, constantsOfRuns, constantsOfRuns, ← List.countP_append,
    List.singleton_append]

/-- The fields of successive runs. -/
def fieldsOfRuns (constants : Nat) (before : Option Field) : List (Entry × List Entry) → List Field
  | [] => []
  | run :: runs =>
    let field := Field.ofRun constants before run
    field :: fieldsOfRuns (constants + constantsOfRuns [run]) (some field) runs

/-! ### Segments -/

/-- What one record format is built from. -/
structure Segment where
  name : String
  lines : LineRange
  /-- The record line, if there is one, and the entries after it. -/
  entries : List Entry

namespace Segment

/-- How many constants the segment has. -/
def constants (s : Segment) : Nat := constantsOfRuns (Entry.runs s.entries).parts

/-- The record format of a segment. -/
def format (constants : Nat) (s : Segment) : RecordFormat :=
  RecordFormat.resolveWindow
    { name := s.name
      lines := s.lines
      isWindow := false
      windowReference := none
      window := Window.screen
      keywords := (Keyword.resolve (Entry.area (Entry.runs s.entries).lead)).keywords
      fields := fieldsOfRuns constants none (Entry.runs s.entries).parts }

end Segment

/-- The record formats of successive segments. -/
def formatsOfSegments (constants : Nat) : List Segment → List RecordFormat
  | [] => []
  | s :: segments => s.format constants :: formatsOfSegments (constants + s.constants) segments

/-- The entries of a member, each with the number of its line. -/
def numberedEntries (index : Nat) (texts : List String) : List (Entry × Nat) :=
  (texts.zipIdx index).filterMap fun l ↦ (Entry.ofLine? l.1).map (·, l.2)

theorem numberedEntries_cons (index : Nat) (text : String) (texts : List String) :
    numberedEntries index (text :: texts) =
      ((Entry.ofLine? text).map (·, index)).toList ++ numberedEntries (index + 1) texts := by
  rw [numberedEntries, List.zipIdx_cons, List.filterMap_cons]
  cases Entry.ofLine? text <;> rfl

/-- An entry with the number of its line is a record line. -/
def opensRecordAt (e : Entry × Nat) : Bool := e.1.opensRecord

/-- The line before which a segment ends: the record line that comes next, or the end. -/
def stopBefore (count : Nat) : List ((Entry × Nat) × List (Entry × Nat)) → Nat
  | [] => count
  | part :: _ => part.1.2

/-- The segments that record lines open. -/
def segmentsOfParts (count : Nat) : List ((Entry × Nat) × List (Entry × Nat)) → List Segment
  | [] => []
  | part :: parts =>
    { name := part.1.1.name
      lines := { start := part.1.2, stop := stopBefore count parts }
      entries := part.1.1 :: part.2.map Prod.fst } :: segmentsOfParts count parts

/-- The segments of a member: what stands before the first record line, then one for each. -/
def segmentsOfSections (count : Nat) (s : Sections (Entry × Nat)) : List Segment :=
  { name := RecordFormat.globalName
    lines := { start := 0, stop := stopBefore count s.parts }
    entries := s.lead.map Prod.fst } :: segmentsOfParts count s.parts

/-- The segments of the member on physical lines. -/
def segments (texts : List String) : List Segment :=
  segmentsOfSections texts.length (Sections.cut opensRecordAt (numberedEntries 0 texts))

/-- The member of segments. -/
def Member.ofSegments (segments : List Segment) : Member :=
  { formats := formatsOfSegments 0 segments }

/-- The format of a segment has the lines of the segment. -/
@[simp] theorem Segment.lines_format (constants : Nat) (s : Segment) :
    (s.format constants).lines = s.lines :=
  RecordFormat.lines_resolveWindow _

/-! ### What the pass does to an open format -/

namespace OpenFormat

/-- Add lines to the keyword area that is open. -/
def addLines (o : OpenFormat) (lines : List Keyword.Line) : OpenFormat :=
  lines.foldl addLine o

theorem addLine_of_field_eq_none {o : OpenFormat} (h : o.field = none) (line : Keyword.Line) :
    o.addLine line = { o with area := o.area.push line } := by
  rw [addLine, h]

theorem addLine_of_field_eq_some {o : OpenFormat} {f : OpenField} (h : o.field = some f)
    (line : Keyword.Line) :
    o.addLine line = { o with field := some { f with area := f.area.push line } } := by
  rw [addLine, h]

/-- Lines go to the keyword area of the format while no field is open. -/
theorem addLines_of_field_eq_none {o : OpenFormat} (h : o.field = none)
    (lines : List Keyword.Line) :
    o.addLines lines = { o with area := o.area ++ lines } := by
  induction lines generalizing o with
  | nil => simp [addLines]
  | cons line lines ih =>
    show (o.addLine line).addLines lines = _
    rw [addLine_of_field_eq_none h, ih (o := { o with area := o.area.push line }) h]
    simp

/-- Lines go to the keyword area of the field that is open. -/
theorem addLines_of_field_eq_some {o : OpenFormat} {f : OpenField} (h : o.field = some f)
    (lines : List Keyword.Line) :
    o.addLines lines = { o with field := some { f with area := f.area ++ lines } } := by
  induction lines generalizing o f with
  | nil => simp [addLines, ← h]
  | cons line lines ih =>
    show (o.addLine line).addLines lines = _
    rw [addLine_of_field_eq_some h, ih rfl]
    simp

theorem closeField_of_field_eq_none {o : OpenFormat} (h : o.field = none) :
    o.closeField = o := by
  rw [closeField, h]

@[simp] theorem field_closeField (o : OpenFormat) : o.closeField.field = none := by
  rcases h : o.field with - | f <;> simp [closeField, h]

/-- A field that is opened after the others are closed is closed behind them. -/
theorem closeField_of_opened {o : OpenFormat} (h : o.field = none) (f : OpenField) :
    closeField { o with field := some f } = { o with fields := o.fields.push f.close } := by
  cases o
  cases h
  rfl

theorem position_eq_positionAfter (o : OpenFormat) (e : Entry) :
    o.position e = e.positionAfter o.fields.back? := rfl

/-- Closing a format closes its field first. -/
theorem close_closeField (o : OpenFormat) (stop : Nat) :
    o.closeField.close stop = o.close stop := by
  rw [close, close, closeField_of_field_eq_none o.field_closeField]

end OpenFormat

namespace Assembly

/-- Add numbered entries. -/
def addAll (a : Assembly) (es : List (Entry × Nat)) : Assembly :=
  es.foldl (fun a e ↦ a.add e.2 e.1) a

/-- Place entries of the open format. -/
def placeAll (a : Assembly) (es : List Entry) : Assembly := es.foldl place a

/-- Reading lines is adding their entries, each with the number of its line. -/
theorem lines_eq_addAll (a : Assembly) (index : Nat) (texts : List String) :
    a.lines index texts = a.addAll (numberedEntries index texts) := by
  rw [lines, addAll, numberedEntries, List.foldl_filterMap]
  refine congrArg (List.foldl · a (texts.zipIdx index)) (funext fun a ↦ funext fun l ↦ ?_)
  rw [line]
  cases Entry.ofLine? l.1 <;> rfl

theorem addAll_append (a : Assembly) (as bs : List (Entry × Nat)) :
    a.addAll (as ++ bs) = (a.addAll as).addAll bs :=
  List.foldl_append

theorem placeAll_append (a : Assembly) (as bs : List Entry) :
    a.placeAll (as ++ bs) = (a.placeAll as).placeAll bs :=
  List.foldl_append

/-- Between record lines the pass places the entries of the layout and skips the others. -/
theorem addAll_of_not_opensRecord {es : List (Entry × Nat)}
    (h : ∀ e ∈ es, opensRecordAt e = false) (a : Assembly) :
    a.addAll es = a.placeAll ((es.map Prod.fst).filter Entry.isLayout) := by
  induction es generalizing a with
  | nil => rfl
  | cons e es ih =>
    obtain ⟨he, hes⟩ := List.forall_mem_cons.1 h
    have hrecord : e.1.opensRecord = false := he
    show (a.add e.2 e.1).addAll es = _
    rw [ih hes, List.map_cons, add, hrecord]
    cases hlayout : e.1.isLayout with
    | true => rw [List.filter_cons_of_pos hlayout]; rfl
    | false => rw [List.filter_cons_of_neg (by simp [hlayout])]; rfl

/-- Entries that open no field lengthen the keyword area that is open. -/
theorem placeAll_body {body : List Entry} (h : ∀ e ∈ body, e.opensField = false) (a : Assembly) :
    a.placeAll body = { a with current := a.current.addLines (Entry.area body) } := by
  induction body generalizing a with
  | nil => rfl
  | cons e body ih =>
    obtain ⟨he, hbody⟩ := List.forall_mem_cons.1 h
    have hplace : a.place e = { a with current := a.current.addLine e.keywordLine } := by
      rw [place, he]
      rfl
    show (a.place e).placeAll body = _
    rw [ih hbody, hplace]
    rfl

/-- An entry that opens a field closes the open field, and the entries after it belong to its own
field. -/
theorem placeAll_run {run : Entry × List Entry} (hopens : run.1.opensField = true)
    (hbody : ∀ e ∈ run.2, e.opensField = false) {a : Assembly} {n : Nat}
    (hn : a.constants = UInt32.ofNat n) :
    a.placeAll (run.1 :: run.2) =
      { a with
        current :=
          { a.current.closeField with
            field := some
              { field := run.1.openedField n a.current.closeField.fields.back?
                area := (Entry.area (run.1 :: run.2)).toArray } }
        constants := UInt32.ofNat (n + constantsOfRuns [run]) } := by
  have hplace : a.place run.1 =
      { a with
        current :=
          { a.current.closeField with
            field := some
              { field := run.1.openedField n a.current.closeField.fields.back?
                area := #[run.1.keywordLine] } }
        constants := UInt32.ofNat (n + constantsOfRuns [run]) } := by
    rw [place, hopens, if_pos rfl, openField, Entry.openedField, constantsOfRuns,
      List.countP_singleton]
    cases hname : run.1.name.isEmpty with
    | true => simp [OpenFormat.addLine, OpenFormat.position_eq_positionAfter, hn, UInt32.ofNat_add]
    | false => simp [OpenFormat.addLine, OpenFormat.position_eq_positionAfter, hn]
  show (a.place run.1).placeAll run.2 = _
  rw [placeAll_body hbody, hplace, OpenFormat.addLines_of_field_eq_some rfl]
  simp [Entry.area]

/-- Runs leave their fields behind the fields that were there, and the keyword area of the format as
it was. The open field counts as closed, before and after. -/
theorem placeAll_runs {runs : List (Entry × List Entry)}
    (hopens : ∀ run ∈ runs, run.1.opensField = true)
    (hbodies : ∀ run ∈ runs, ∀ e ∈ run.2, e.opensField = false) {a : Assembly} {n : Nat}
    (hn : a.constants = UInt32.ofNat n) :
    (a.placeAll (Sections.joinParts runs)).formats = a.formats ∧
      (a.placeAll (Sections.joinParts runs)).constants =
        UInt32.ofNat (n + constantsOfRuns runs) ∧
      (a.placeAll (Sections.joinParts runs)).current.closeField =
        { a.current.closeField with
          fields := a.current.closeField.fields ++
            fieldsOfRuns n a.current.closeField.fields.back? runs } := by
  induction runs generalizing a n with
  | nil => exact ⟨rfl, hn, by rw [fieldsOfRuns, Array.appendList_nil]; rfl⟩
  | cons run runs ih =>
    obtain ⟨hrun, hopens⟩ := List.forall_mem_cons.1 hopens
    obtain ⟨hbody, hbodies⟩ := List.forall_mem_cons.1 hbodies
    have hfirst := placeAll_run hrun hbody hn
    obtain ⟨hformats, hconstants, hclosed⟩ :=
      ih hopens hbodies (a := a.placeAll (run.1 :: run.2)) (by rw [hfirst])
    -- the field of this run is still open when the next run begins, which closes it
    have hjoin : a.placeAll (Sections.joinParts (run :: runs)) =
        (a.placeAll (run.1 :: run.2)).placeAll (Sections.joinParts runs) :=
      placeAll_append a (run.1 :: run.2) (Sections.joinParts runs)
    have hfield : (a.placeAll (run.1 :: run.2)).current.closeField =
        { a.current.closeField with
          fields := a.current.closeField.fields.push
            (Field.ofRun n a.current.closeField.fields.back? run) } := by
      rw [hfirst]
      exact OpenFormat.closeField_of_opened a.current.field_closeField _
    rw [hjoin]
    refine ⟨by rw [hformats, hfirst], ?_, ?_⟩
    · rw [hconstants, constantsOfRuns_cons run runs, Nat.add_assoc]
    · rw [hclosed, hfield]
      simp [fieldsOfRuns]

/-! ### What the pass does to a member -/

/-- A format of which only the head is collected, and to which the rest of its segment is added,
closes as the format of the segment. -/
theorem close_addAll_body {head : List Entry} {body : List (Entry × Nat)}
    (hlayout : ∀ e ∈ head, e.isLayout = true) (hhead : ∀ e ∈ head, e.isOpening = false)
    (hbody : ∀ e ∈ body, opensRecordAt e = false) {a : Assembly} {name : String}
    {start n : Nat} (ha : a.current = { name, start, area := (Entry.area head).toArray })
    (hn : a.constants = UInt32.ofNat n) (stop : Nat) {s : Segment}
    (hs : s = ⟨name, ⟨start, stop⟩, head ++ body.map Prod.fst⟩) :
    (a.addAll body).formats = a.formats ∧
      (a.addAll body).constants = UInt32.ofNat (n + s.constants) ∧
      (a.addAll body).current.close stop = s.format n := by
  set layout := (body.map Prod.fst).filter Entry.isLayout with hlayoutEq
  set c := Sections.cut Entry.isOpening layout with hc
  have hopening : ∀ e ∈ layout, e.isOpening = e.opensField := by
    intro e he
    obtain ⟨hmem, hlay⟩ := List.mem_filter.1 he
    obtain ⟨numbered, hnumbered, rfl⟩ := List.mem_map.1 hmem
    exact Entry.isOpening_eq_opensField (hbody numbered hnumbered) hlay
  have hjoin : c.join = layout := Sections.join_cut layout
  have hcut : Sections.IsCut Entry.opensField c :=
    (Sections.isCut_cut layout).congr fun e he ↦ hopening e (by rwa [← hjoin])
  -- the head stands before the cut, so cutting the rest alone gives the same runs
  have hruns : Entry.runs s.entries = ⟨head ++ c.lead, c.parts⟩ := by
    rw [Entry.runs, hs, List.filter_append, List.filter_eq_self.2 hlayout,
      Sections.cut_append_of_not_marked hhead]
  have hfirst : a.placeAll c.lead =
      { a with
        current := { name, start, area := (Entry.area (head ++ c.lead)).toArray } } := by
    rw [placeAll_body hcut.lead, ha, OpenFormat.addLines_of_field_eq_none rfl]
    simp [Entry.area]
  obtain ⟨hformats, hconstants, hclosed⟩ :=
    placeAll_runs hcut.heads hcut.bodies (a := a.placeAll c.lead) (n := n)
      (by rw [hfirst]; exact hn)
  have hall : a.addAll body = (a.placeAll c.lead).placeAll (Sections.joinParts c.parts) := by
    rw [addAll_of_not_opensRecord hbody, ← placeAll_append, ← Sections.join, hjoin]
  rw [hall]
  refine ⟨by rw [hformats, hfirst], by rw [hconstants, Segment.constants, hruns], ?_⟩
  rw [← OpenFormat.close_closeField, hclosed, hfirst, Segment.format, hruns, hs]
  simp [OpenFormat.close, OpenFormat.closeField]

/-- A record line closes the open format and opens the next one, of which it is the head. -/
theorem add_of_opensRecord {e : Entry × Nat} (h : opensRecordAt e = true) (a : Assembly) :
    a.add e.2 e.1 =
      { a with
        formats := a.formats.push (a.current.close e.2)
        current :=
          { name := e.1.name, start := e.2, area := (Entry.area [e.1]).toArray } } := by
  rw [add, if_pos (show e.1.opensRecord = true from h)]
  rfl

/-- A member that ends with the segments of a row of parts, after a format of which only the head is
collected. The induction is over the parts: each record line closes one format and leaves the next
one with the record line as its head. -/
theorem close_addAll_parts {parts : List ((Entry × Nat) × List (Entry × Nat))}
    (hheads : ∀ part ∈ parts, opensRecordAt part.1 = true)
    (hbodies : ∀ part ∈ parts, ∀ e ∈ part.2, opensRecordAt e = false)
    (head : List Entry) {body : List (Entry × Nat)}
    (hlayout : ∀ e ∈ head, e.isLayout = true) (hhead : ∀ e ∈ head, e.isOpening = false)
    (hbody : ∀ e ∈ body, opensRecordAt e = false) {a : Assembly} {name : String}
    {start n : Nat} (ha : a.current = { name, start, area := (Entry.area head).toArray })
    (hn : a.constants = UInt32.ofNat n) (count : Nat) :
    ((a.addAll (body ++ Sections.joinParts parts)).close count).formats =
      a.formats.toList ++ formatsOfSegments n
        (⟨name, ⟨start, stopBefore count parts⟩, head ++ body.map Prod.fst⟩ ::
          segmentsOfParts count parts) := by
  induction parts generalizing head body a name start n with
  | nil =>
    obtain ⟨hformats, -, hclosed⟩ :=
      close_addAll_body hlayout hhead hbody ha hn count rfl
    rw [Sections.joinParts_nil, List.append_nil, close, hformats, hclosed]
    simp [formatsOfSegments, segmentsOfParts, stopBefore]
  | cons part parts ih =>
    -- the body closes this format; the record line of the part is the head of the next one
    obtain ⟨hpart, hheads⟩ := List.forall_mem_cons.1 hheads
    obtain ⟨hpartBody, hbodies⟩ := List.forall_mem_cons.1 hbodies
    obtain ⟨hformats, hconstants, hclosed⟩ :=
      close_addAll_body hlayout hhead hbody ha hn part.1.2 rfl
    have hmarker : part.1.1.marker = 'R' := of_decide_eq_true hpart
    have hnext := add_of_opensRecord hpart (a.addAll body)
    have hsplit : a.addAll (body ++ Sections.joinParts (part :: parts)) =
        ((a.addAll body).add part.1.2 part.1.1).addAll (part.2 ++ Sections.joinParts parts) :=
      addAll_append a body _
    rw [hsplit, ih hheads hbodies [part.1.1] (by simp [Entry.isLayout, hmarker])
      (by simp [Entry.isOpening, hmarker]) hpartBody (by rw [hnext])
      (by rw [hnext]; exact hconstants), hnext, hformats, hclosed]
    simp [formatsOfSegments, segmentsOfParts, stopBefore]

end Assembly

/-- **Assembling a member gives the formats of its segments.** -/
theorem Member.ofLines_eq_ofSegments (texts : List String) :
    Member.ofLines texts = Member.ofSegments (segments texts) := by
  set s := Sections.cut opensRecordAt (numberedEntries 0 texts) with hs
  have hcut : Sections.IsCut opensRecordAt s := Sections.isCut_cut _
  have hjoin : s.lead ++ Sections.joinParts s.parts = numberedEntries 0 texts :=
    Sections.join_cut _
  -- the format in front of the first record line is the one that has no head
  have hclose := Assembly.close_addAll_parts hcut.heads hcut.bodies [] (by simp) (by simp)
    hcut.lead (a := {}) (n := 0) rfl rfl texts.length
  rw [Member.ofLines, Assembly.lines_eq_addAll, ← hjoin]
  exact congrArg Member.mk hclose

/-! ### Where formats and fields come from -/

/-- Every field of a row of runs is that of one of them. -/
theorem exists_run_of_mem_fieldsOfRuns {constants : Nat} {before : Option Field}
    {runs : List (Entry × List Entry)} {f : Field} (hf : f ∈ fieldsOfRuns constants before runs) :
    ∃ run ∈ runs, ∃ n previous, f = Field.ofRun n previous run := by
  induction runs generalizing constants before with
  | nil => cases hf
  | cons run runs ih =>
    obtain rfl | hf := List.mem_cons.1 hf
    · exact ⟨run, List.mem_cons_self, constants, before, rfl⟩
    · obtain ⟨later, hlater, hfield⟩ := ih hf
      exact ⟨later, List.mem_cons_of_mem run hlater, hfield⟩

/-- Every format of a row of segments is that of one of them. -/
theorem exists_segment_of_mem_formatsOfSegments {constants : Nat} {segments : List Segment}
    {f : RecordFormat} (hf : f ∈ formatsOfSegments constants segments) :
    ∃ s ∈ segments, ∃ n, f = s.format n := by
  induction segments generalizing constants with
  | nil => cases hf
  | cons s segments ih =>
    obtain rfl | hf := List.mem_cons.1 hf
    · exact ⟨s, List.mem_cons_self, constants, rfl⟩
    · obtain ⟨later, hlater, hformat⟩ := ih hf
      exact ⟨later, List.mem_cons_of_mem s hlater, hformat⟩

/-- Every format of a member is that of one of its segments. -/
theorem exists_segment_of_mem_formats {texts : List String} {f : RecordFormat}
    (hf : f ∈ (Member.ofLines texts).formats) : ∃ s ∈ segments texts, ∃ n, f = s.format n := by
  rw [Member.ofLines_eq_ofSegments] at hf
  exact exists_segment_of_mem_formatsOfSegments hf

end DisplayFile

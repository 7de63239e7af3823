import DisplayFile.Proofs.Keyword.LineEnds
import DisplayFile.Proofs.Member.Counting
import DisplayFile.Proofs.Member.Ranges

/-!
# Constants continued over lines

A constant that is too long for its line goes on in the keyword area of the next one: an area that
ends with a sign is continued. A constant may be cut anywhere but between doubled quotes, and its
pieces may stand on any number of lines. The field that the first line opens always has the text of
the constant, no keywords, and the width of the text for its length
(`ofLines_continued_constant`).

**What is read.** The lines of the constant leave a field open that has their keyword areas, as they
were cut (`Assembly.lines_writtenOn`). How such an area is read is `CutConstant.resolve_area`.

**What settles it.** The line behind the constant opens a field or a record, or there is none. Then
the fields that the open format has are the first ones of that format in the member, whatever else
follows (`Assembly.exists_completes`).

**Where it is found.** The format is that of the first line, and the place of the field among its
fields is the number of lines before it that open one (`length_fields_ofLines`).
-/

namespace DisplayFile

/-! ### The lines of a constant -/

/-- The line has the text in its keyword area, and only blanks behind it. -/
def HasArea (line : String) (area : List Char) : Prop :=
  ∃ blanks, (∀ c ∈ blanks, Text.isBlank c = true) ∧ line.toList.drop 44 = area ++ blanks

/-- The constant stands on lines. The first one opens a field without a name, and the others open
nothing, so they go on with its keyword area. -/
structure Keyword.CutConstant.WrittenOn (c : Keyword.CutConstant) (first : String)
    (further : List String) : Prop where
  opened : ∃ e, Entry.ofLine? first = some e ∧ e.isOpening = true ∧ e.name.isEmpty = true
  continued : ∀ line ∈ further,
    ∃ e, Entry.ofLine? line = some e ∧ e.marker = ' ' ∧ e.opensField = false
  areas : List.Forall₂ HasArea (first :: further) c.areas

/-- The field is a constant with some text and nothing else. -/
structure Field.IsConstant (text : List Char) (f : Field) : Prop where
  usage : f.usage = .constant
  length : f.length = 0
  keywords : f.keywords = []
  value : f.value = String.ofList text

/-- The entries on lines have the keyword areas of the lines. -/
theorem map_keywords_of_hasArea {texts : List String} {areas : List (List Char)}
    (h : List.Forall₂ HasArea texts areas)
    (hentries : ∀ line ∈ texts, ∃ e, Entry.ofLine? line = some e)
    (htrimmed : ∀ area ∈ areas, Text.trimEnd area = area) :
    (texts.filterMap Entry.ofLine?).map (fun e ↦ e.keywords.toList) = areas := by
  induction h with
  | nil => rfl
  | @cons line area texts areas harea _ ih =>
    obtain ⟨⟨e, he⟩, hentries⟩ := List.forall_mem_cons.1 hentries
    obtain ⟨htrim, htrimmed⟩ := List.forall_mem_cons.1 htrimmed
    obtain ⟨blanks, hblanks, hdrop⟩ := harea
    have hkeywords : e.keywords.toList = area := by
      obtain ⟨-, rfl⟩ := Entry.ofLine?_eq_some_iff.1 he
      show (String.ofList (Text.trimEnd (line.toList.drop 44))).toList = area
      rw [String.toList_ofList, hdrop, Text.trimEnd_append_of_forall hblanks, htrim]
    rw [List.filterMap_cons_some he, List.map_cons, hkeywords, ih hentries htrimmed]

namespace Field.IsConstant

/-- The field of a run that opens with an unnamed entry and has the areas of a cut constant. -/
theorem ofRun {c : Keyword.CutConstant} {run : Entry × List Entry}
    (hname : run.1.name.isEmpty = true)
    (hareas : (run.1 :: run.2).map (fun e ↦ e.keywords.toList) = c.areas) (n : Nat)
    (before : Option Field) : Field.IsConstant c.text.chars (Field.ofRun n before run) := by
  have hresolve : Keyword.resolve (Entry.area (run.1 :: run.2)) =
      { keywords := [], constant := String.ofList c.text.chars } := by
    refine c.resolve_area ?_
    rw [← hareas, Entry.area, List.map_map]
    rfl
  have hopened : run.1.openedField n before =
      run.1.constantField (UInt32.ofNat (n + 1)) (run.1.positionAfter before) := by
    rw [Entry.openedField, if_pos hname]
  rw [Field.ofRun, hopened, hresolve]
  exact ⟨rfl, rfl, rfl, rfl⟩

/-- The length of a constant is the width of its text. -/
theorem toNat_effectiveLength {text : List Char} {f : Field} (h : f.IsConstant text)
    (hsize : text.length < UInt32.size) : f.effectiveLength.toNat = text.length := by
  have hzero : ¬f.length > 0 := by
    rw [h.length]
    decide
  rw [effectiveLength, if_neg hzero, textWidth, h.value, String.length_ofList]
  exact Nat.mod_eq_of_lt hsize

end Field.IsConstant

/-- The entries of a constant are those of one run. -/
theorem Keyword.CutConstant.WrittenOn.exists_run {c : Keyword.CutConstant} {first : String}
    {further : List String} (h : c.WrittenOn first further) :
    ∃ run : Entry × List Entry,
      (first :: further).filterMap Entry.ofLine? = run.1 :: run.2 ∧
        (∀ e ∈ run.1 :: run.2, e.marker = ' ') ∧ run.1.opensField = true ∧
        (∀ e ∈ run.2, e.opensField = false) ∧ run.1.name.isEmpty = true ∧
        (run.1 :: run.2).map (fun e ↦ e.keywords.toList) = c.areas := by
  obtain ⟨e, he, hopening, hname⟩ := h.opened
  obtain ⟨hmarker, hopens⟩ := Bool.and_eq_true_iff.1 hopening
  have hentries : (first :: further).filterMap Entry.ofLine? =
      e :: further.filterMap Entry.ofLine? := List.filterMap_cons_some he
  have hfurther : ∀ x ∈ further.filterMap Entry.ofLine?,
      x.marker = ' ' ∧ x.opensField = false := by
    intro x hx
    obtain ⟨line, hline, hx⟩ := List.mem_filterMap.1 hx
    obtain ⟨x', hx', hcontinued⟩ := h.continued line hline
    rw [hx, Option.some_inj] at hx'
    rwa [hx']
  have hall : ∀ line ∈ first :: further, ∃ e, Entry.ofLine? line = some e := by
    refine List.forall_mem_cons.2 ⟨⟨e, he⟩, fun line hline ↦ ?_⟩
    obtain ⟨x, hx, -⟩ := h.continued line hline
    exact ⟨x, hx⟩
  have hareas := map_keywords_of_hasArea h.areas hall fun _ ↦ c.trimEnd_of_mem_areas
  rw [hentries] at hareas
  exact ⟨(e, further.filterMap Entry.ofLine?), hentries,
    List.forall_mem_cons.2 ⟨of_decide_eq_true hmarker, fun x hx ↦ (hfurther x hx).1⟩, hopens,
    fun x hx ↦ (hfurther x hx).2, hname, hareas⟩

namespace Assembly

/-- Lines without a marker are placed in the open format. -/
theorem lines_eq_placeAll {texts : List String}
    (h : ∀ e ∈ texts.filterMap Entry.ofLine?, e.marker = ' ') (a : Assembly) (index : Nat) :
    a.lines index texts = a.placeAll (texts.filterMap Entry.ofLine?) := by
  have hrecord : ∀ e ∈ numberedEntries index texts, opensRecordAt e = false := by
    intro e he
    have hmem : e.1 ∈ texts.filterMap Entry.ofLine? := by
      rw [← map_fst_numberedEntries index texts]
      exact List.mem_map_of_mem he
    rw [opensRecordAt, Entry.opensRecord, h e.1 hmem]
    rfl
  have hlayout : ∀ e ∈ texts.filterMap Entry.ofLine?, e.isLayout = true := by
    intro e he
    rw [Entry.isLayout, h e he]
    rfl
  rw [lines_eq_addAll, addAll_of_not_opensRecord hrecord, map_fst_numberedEntries,
    List.filter_eq_self.2 hlayout]

/-- The lines of a constant open its field behind those that the open format has. -/
theorem lines_writtenOn {c : Keyword.CutConstant} {first : String} {further : List String}
    (h : c.WrittenOn first further) (a : Assembly) (index : Nat) :
    ∃ field, Field.IsConstant c.text.chars field ∧
      (a.lines index (first :: further)).current.LastOpen ∧
      (a.lines index (first :: further)).current.start = a.current.start ∧
      (a.lines index (first :: further)).current.allFields = a.current.allFields ++ [field] := by
  obtain ⟨run, hentries, hmarkers, hopens, hbody, hname, hareas⟩ := h.exists_run
  have hlines : a.lines index (first :: further) = a.placeAll (run.1 :: run.2) := by
    rw [← hentries]
    exact lines_eq_placeAll (by rwa [hentries]) a index
  have hn : a.constants = UInt32.ofNat a.constants.toNat := UInt32.ofNat_toNat.symm
  refine ⟨Field.ofRun a.constants.toNat a.current.closeField.fields.back? run,
    .ofRun hname hareas _ _, ?_⟩
  rw [hlines, placeAll_run hopens hbody hn]
  refine ⟨OpenFormat.lastOpen_of_field_eq_some rfl, ?_, ?_⟩
  · rw [OpenFormat.closeField_eq]
  · rw [OpenFormat.allFields_opened]
    rfl

end Assembly

/-! ### What later lines leave alone -/

/-- The element behind a front is found by the length of the front. -/
theorem getElem?_length_append {α : Type} (front later : List α) (x : α) :
    (front ++ x :: later)[front.length]? = some x := by
  rw [List.getElem?_append_right (Nat.le_refl _), Nat.sub_self]
  rfl

/-- The format is an open one that is closed behind line `index` or later, and the fields that it
has before that line are settled. -/
structure RecordFormat.Completes (index : Nat) (o : OpenFormat) (f : RecordFormat) : Prop where
  start : f.lines.start = o.start
  stop : index ≤ f.lines.stop
  fields : o.allFields <+: f.fields

theorem OpenFormat.completes_close (o : OpenFormat) (index : Nat) :
    (o.close index).Completes index o where
  start := by rw [lines_close]
  stop := by rw [lines_close]
  fields := ⟨[], by rw [List.append_nil, fields_close]⟩

/-- A format that has got another field has settled those before it. -/
theorem RecordFormat.Completes.of_grows {index : Nat} {o p : OpenFormat} {f : RecordFormat}
    {field : Field} (hstart : p.start = o.start) (hfields : p.allFields = o.allFields ++ [field])
    (h : (p.close (index + 1)).Grows f) : f.Completes index o where
  start := by rw [h.start, OpenFormat.lines_close, hstart]
  stop := by
    have hstop := h.stop
    rw [OpenFormat.lines_close] at hstop
    exact Nat.le_of_succ_le hstop
  fields := by
    have hgrows := h.fields
    rw [OpenFormat.fields_close, hfields] at hgrows
    obtain ⟨grown, later, hlater, -⟩ :=
      (hgrows (List.append_ne_nil_of_right_ne_nil _ (List.cons_ne_nil _ _))).exists_eq_append
    exact ⟨grown :: later, hlater.symm⟩

namespace Assembly

/-- A format that a record line closes is the same in the member. -/
theorem getElem?_formats_openFormat (a : Assembly) (index : Nat) (e : Entry)
    (texts : List String) :
    (((a.openFormat index e).lines (index + 1) texts).close
      (index + 1 + texts.length)).formats[a.formats.size]? = some (a.current.close index) := by
  have hopen : (a.openFormat index e).current.LastOpen := fun _ ↦ rfl
  have hgrows := grows_lines hopen (index + 1) texts
  have hformats : ((a.openFormat index e).close (index + 1)).formats =
      (a.formats.toList ++ [a.current.close index]) ++
        [(a.openFormat index e).current.close (index + 1)] := by
    rw [formats_close, openFormat, Array.toList_push]
  rw [Member.Grows, hformats] at hgrows
  obtain ⟨f, later, hlater, -⟩ := hgrows.exists_eq_append
  rw [hlater, List.append_assoc, ← Array.length_toList]
  exact getElem?_length_append _ _ _

/-- The open format grows into one of the member in its place. -/
theorem exists_getElem?_formats {a : Assembly} (ha : a.current.LastOpen) (index : Nat)
    (texts : List String) :
    ∃ f, ((a.lines index texts).close (index + texts.length)).formats[a.formats.size]? = some f ∧
      (a.current.close index).Grows f := by
  have hgrows := grows_lines ha index texts
  rw [Member.Grows, formats_close] at hgrows
  obtain ⟨f, later, hlater, hf⟩ := hgrows.exists_eq_append
  refine ⟨f, ?_, hf⟩
  rw [hlater, ← Array.length_toList]
  exact getElem?_length_append _ _ _

/-- **Before a line that opens something the fields of the open format are settled.** They are the
first ones of that format in the member, whatever lines follow. -/
theorem exists_completes {a : Assembly} (ha : a.current.LastOpen) {texts : List String}
    (hopens : ∀ line ∈ texts.head?, opensRecordOn line = true ∨ opensFieldOn line = true)
    (index : Nat) :
    ∃ f, ((a.lines index texts).close (index + texts.length)).formats[a.formats.size]? = some f ∧
      f.Completes index a.current := by
  cases texts with
  | nil =>
    refine ⟨a.current.close index, ?_, a.current.completes_close index⟩
    show (a.close index).formats[a.formats.size]? = some (a.current.close index)
    rw [formats_close, ← Array.length_toList, List.getElem?_concat_length]
  | cons text texts =>
    rw [lines_cons, List.length_cons, Nat.add_comm texts.length, ← Nat.add_assoc]
    obtain ⟨e, he, hentry⟩ : ∃ e, Entry.ofLine? text = some e ∧
        (e.opensRecord = true ∨ e.isOpening = true) := by
      have h := hopens text rfl
      rw [opensRecordOn, opensFieldOn] at h
      cases he : Entry.ofLine? text with
      | none => simp [he] at h
      | some e => exact ⟨e, rfl, by simpa [he] using h⟩
    have hline : a.line index text = a.add index e := by rw [line, he]
    rw [hline, add]
    split
    · exact ⟨_, a.getElem?_formats_openFormat index e texts, a.current.completes_close index⟩
    · next hrecord =>
      have hopening := hentry.resolve_left hrecord
      obtain ⟨-, hopensField⟩ := Bool.and_eq_true_iff.1 hopening
      obtain ⟨field, hformats, hcurrent⟩ := a.place_of_opensField hopensField
      have hstart : (a.place e).current.start = a.current.start := by
        rw [hcurrent, OpenFormat.closeField_eq]
      have hfields : (a.place e).current.allFields = a.current.allFields ++ [field.close] := by
        rw [hcurrent, OpenFormat.allFields_opened]
      obtain ⟨-, -, hopen⟩ := grows_place ha e (Nat.le_refl index)
      rw [if_pos (Entry.isLayout_of_isOpening hopening), ← hformats]
      obtain ⟨f, hf, hgrows⟩ := exists_getElem?_formats hopen (index + 1) texts
      exact ⟨f, hf, .of_grows hstart hfields hgrows⟩

end Assembly

/-- **A constant can be continued in any way.** The field of its first line has its text and nothing
else. -/
theorem ofLines_continued_constant {c : Keyword.CutConstant} {first : String}
    {further : List String} (h : c.WrittenOn first further) (before : List String)
    {after : List String}
    (hafter : ∀ line ∈ after.head?, opensRecordOn line = true ∨ opensFieldOn line = true) :
    ∃ f field,
      (Member.ofLines (before ++ first :: further ++ after)).formatAtLine? before.length = some f ∧
        f.fields.length =
          (f.lines.linesOf (before ++ first :: further ++ after)).countP opensFieldOn ∧
        f.fields[(before.drop f.lines.start).countP opensFieldOn]? = some field ∧
        field.usage = .constant ∧ field.length = 0 ∧ field.keywords = [] ∧
        field.value = String.ofList c.text.chars ∧
        (c.text.chars.length < UInt32.size →
          field.effectiveLength.toNat = c.text.chars.length) := by
  set texts := before ++ first :: further ++ after with htexts
  set a := Assembly.lines {} 0 before
  set b := a.lines before.length (first :: further)
  have hmember : Member.ofLines texts =
      (b.lines (before ++ first :: further).length after).close
        ((before ++ first :: further).length + after.length) := by
    have hcount : texts.length = (before ++ first :: further).length + after.length := by
      rw [htexts, List.length_append]
    rw [Member.ofLines, hcount, htexts, Assembly.lines_append, Assembly.lines_append, Nat.zero_add,
      Nat.zero_add]
  obtain ⟨field, hfield, hopen, hstart, hfields⟩ := a.lines_writtenOn h before.length
  obtain ⟨f, hf, hcompletes⟩ := Assembly.exists_completes hopen hafter
    (before ++ first :: further).length
  have hcounted := Assembly.counted_lines before
  rw [← hmember] at hf
  have hcontains : f.lines.contains before.length = true := by
    rw [LineRange.contains_iff, hcompletes.start, hstart]
    refine ⟨hcounted.start_le, Nat.lt_of_lt_of_le ?_ hcompletes.stop⟩
    rw [List.length_append, List.length_cons]
    omega
  refine ⟨f, field, formatAtLine?_ofLines_of_contains hf hcontains,
    length_fields_ofLines (List.mem_of_getElem? hf), ?_, hfield.usage, hfield.length,
    hfield.keywords, hfield.value, hfield.toNat_effectiveLength⟩
  obtain ⟨later, hlater⟩ := hcompletes.fields
  rw [hcompletes.start, hstart, ← hcounted.current, ← hlater, hfields, List.append_assoc]
  exact getElem?_length_append _ _ _

/-- The constant `IT'S ON` on three lines, of which the second one has no more than a sign. -/
def Keyword.CutConstant.itsOn : Keyword.CutConstant where
  text := ⟨"IT'S ON".toList, fun c hc ↦ by
    have hsign : "IT'S ON".toList.any Keyword.isSign = false := by decide
    exact Bool.eq_false_iff.2 (List.any_eq_false.1 hsign c hc)⟩
  continued := [([['\''], ['I'], ['T'], ['\'', '\''], ['S'], [' ']], '-'), ([], '+')]
  last := [['O'], ['N'], ['\'']]
  isSign_of_mem := by decide
  join_eq := by decide

/-- A constant of a menu on three lines, with another one behind it. The first line ends with
blanks. -/
theorem ofLines_continued_constant_itsOn :
    let first := "     A                                  1  2'IT''S -  "
    let further := ["     A                                      +",
      "     A                                      ON'"]
    let before := ["     A          R MENU"]
    let after := ["     A                                  3  2'OFF'"]
    (Keyword.CutConstant.itsOn.WrittenOn first further ∧
        ∀ line ∈ after.head?, opensRecordOn line = true ∨ opensFieldOn line = true) ∧
      ∃ f field,
        (Member.ofLines (before ++ first :: further ++ after)).formatAtLine? 1 = some f ∧
          f.fields.length =
            (f.lines.linesOf (before ++ first :: further ++ after)).countP opensFieldOn ∧
          f.fields[(before.drop f.lines.start).countP opensFieldOn]? = some field ∧
          field.usage = .constant ∧ field.length = 0 ∧ field.keywords = [] ∧
          field.value = "IT'S ON" ∧ field.effectiveLength.toNat = 7 := by
  intro first further before after
  have hwritten : Keyword.CutConstant.itsOn.WrittenOn first further := by
    refine ⟨⟨Entry.ofColumns first.toList, by decide, by decide, by decide⟩, ?_, ?_⟩
    · intro line hline
      refine ⟨Entry.ofColumns line.toList, ?_⟩
      revert line
      decide
    · exact .cons ⟨[' ', ' '], List.all_eq_true.1 (by decide), by decide⟩
        (.cons ⟨[], List.forall_mem_nil _, by decide⟩
          (.cons ⟨[], List.forall_mem_nil _, by decide⟩ .nil))
  have hafter : ∀ line ∈ after.head?, opensRecordOn line = true ∨ opensFieldOn line = true := by
    decide
  obtain ⟨f, field, hf, hcount, hplace, husage, hlength, hkeywords, hvalue, hwidth⟩ :=
    ofLines_continued_constant hwritten before hafter
  exact ⟨⟨hwritten, hafter⟩, f, field, hf, hcount, hplace, husage, hlength, hkeywords, hvalue,
    hwidth (by decide)⟩

end DisplayFile

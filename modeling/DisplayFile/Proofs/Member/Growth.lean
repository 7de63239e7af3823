import DisplayFile.Proofs.Member.Segments

/-!
# Members grow at their end

What lines have settled, later lines do not change. When lines are added at the end of a member,
every format but the last one stays as it is. The last one keeps its name and its start, and of its
fields all but the last one stay. Once it has a field, its keywords and its window are settled too,
and so is all of its last field but the keyword area, which may go on (`ofLines_grows`).

The formats of a member and the fields of a format grow in the same shape: all but the last element
stay, the last one grows in its own way, and further ones may follow (`GrowsLast`). That shape is
transitive, so it is enough to look at one line. `Assembly.grows_line` compares the member that ends
in front of a line with the one that ends behind it, and `Assembly.grows_lines` runs over any number
of lines.

One fact about the pass is needed: while a format has a field, its last field is open
(`OpenFormat.LastOpen`). So no line can reach the keyword area of a format that has a field.
-/

namespace DisplayFile

/-! ### Growth -/

/-- The second list is the first one grown at its end: all but the last element stay, the last one
grows, and further ones may follow. -/
def GrowsLast {α : Type} (grows : α → α → Prop) (xs ys : List α) : Prop :=
  ∃ front last grown later,
    xs = front ++ [last] ∧ ys = front ++ grown :: later ∧ grows last grown

/-- The second field is the first one with more lines in its keyword area. -/
def Field.Grows (f g : Field) : Prop :=
  g = { f with keywords := g.keywords, value := g.value }

/-- The second format is the first one with more lines. Until it has a field the lines can be
anything but record lines; afterwards they concern the last field and further ones. -/
structure RecordFormat.Grows (f g : RecordFormat) : Prop where
  name : g.name = f.name
  start : g.lines.start = f.lines.start
  stop : f.lines.stop ≤ g.lines.stop
  fields : f.fields ≠ [] → GrowsLast Field.Grows f.fields g.fields
  /-- The keywords and the window. -/
  heading : f.fields ≠ [] → g = { f with lines := g.lines, fields := g.fields }

/-- The second member is the first one with more lines. -/
def Member.Grows (m n : Member) : Prop :=
  GrowsLast RecordFormat.Grows m.formats n.formats

namespace GrowsLast

variable {α : Type} {grows : α → α → Prop} {xs ys zs : List α}

/-- The last element grows and none follows. -/
theorem last (front : List α) {x y : α} (h : grows x y) :
    GrowsLast grows (front ++ [x]) (front ++ [y]) :=
  ⟨front, x, y, [], rfl, rfl, h⟩

/-- Elements follow and the last one stays. -/
theorem append_right (h : ∀ x, grows x x) (hxs : xs ≠ []) (ys : List α) :
    GrowsLast grows xs (xs ++ ys) := by
  obtain hnil | ⟨front, x, rfl⟩ := xs.eq_nil_or_concat
  · exact absurd hnil hxs
  · rw [List.concat_eq_append]
    exact ⟨front, x, x, ys, rfl, List.append_cons front x ys ▸ rfl, h x⟩

theorem ne_nil (h : GrowsLast grows xs ys) : ys ≠ [] := by
  obtain ⟨front, -, grown, later, -, rfl, -⟩ := h
  exact List.append_ne_nil_of_right_ne_nil front (List.cons_ne_nil grown later)

/-- All but the last element stay where they are. -/
theorem exists_eq_append {front : List α} {x : α} (h : GrowsLast grows (front ++ [x]) ys) :
    ∃ y later, ys = front ++ y :: later ∧ grows x y := by
  obtain ⟨front', x', y, later, hxs, rfl, hgrows⟩ := h
  obtain ⟨rfl, hsame⟩ := List.append_inj' hxs rfl
  cases hsame
  exact ⟨y, later, rfl, hgrows⟩

theorem trans (h : ∀ x y z, grows x y → grows y z → grows x z) (hxy : GrowsLast grows xs ys)
    (hyz : GrowsLast grows ys zs) : GrowsLast grows xs zs := by
  obtain ⟨front, x, y, later, rfl, rfl, hx⟩ := hxy
  obtain ⟨front', y', z, later', hys, rfl, hy⟩ := hyz
  obtain rfl | ⟨init, last, rfl⟩ := later.eq_nil_or_concat
  · -- the element that has grown is the last one, so it may grow further
    obtain ⟨rfl, hsame⟩ := List.append_inj' hys rfl
    cases hsame
    exact ⟨front, x, z, later', rfl, rfl, h x y z hx hy⟩
  · -- others follow the element that has grown, so it stays
    have hsplit : (front ++ y :: init) ++ [last] = front' ++ [y'] := by
      rw [← hys, List.concat_eq_append, List.append_assoc, List.cons_append]
    obtain ⟨rfl, -⟩ := List.append_inj' hsplit rfl
    refine ⟨front, x, y, init ++ z :: later', rfl, ?_, hx⟩
    rw [List.append_assoc, List.cons_append]

end GrowsLast

/-- A field grows into itself, with nothing added. -/
theorem Field.Grows.refl (f : Field) : f.Grows f := rfl

theorem Field.Grows.trans {f g h : Field} (hfg : f.Grows g) (hgh : g.Grows h) : f.Grows h := by
  rw [Field.Grows] at hfg hgh ⊢
  rw [hgh, hfg]

namespace RecordFormat.Grows

theorem refl (f : RecordFormat) : f.Grows f where
  name := rfl
  start := rfl
  stop := Nat.le_refl _
  fields h := by
    have hsame := GrowsLast.append_right Field.Grows.refl h []
    rwa [List.append_nil] at hsame
  heading _ := rfl

theorem trans {f g h : RecordFormat} (hfg : f.Grows g) (hgh : g.Grows h) : f.Grows h where
  name := hgh.name.trans hfg.name
  start := hgh.start.trans hfg.start
  stop := Nat.le_trans hfg.stop hgh.stop
  fields hf :=
    (hfg.fields hf).trans (fun _ _ _ ↦ Field.Grows.trans) (hgh.fields (hfg.fields hf).ne_nil)
  heading hf := by
    have hgh := hgh.heading (hfg.fields hf).ne_nil
    have hfg := hfg.heading hf
    rw [hgh, hfg]

end RecordFormat.Grows

theorem Member.Grows.trans {m n o : Member} (hmn : m.Grows n) (hno : n.Grows o) : m.Grows o :=
  GrowsLast.trans (fun _ _ _ ↦ RecordFormat.Grows.trans) hmn hno

/-! ### The open format -/

namespace OpenFormat

/-- The fields, of which the open one is closed as it stands. -/
def allFields (o : OpenFormat) : List Field := o.closeField.fields.toList

/-- While the format has a field, its last field is open. -/
def LastOpen (o : OpenFormat) : Prop := o.field = none → o.fields = #[]

theorem allFields_of_field_eq_none {o : OpenFormat} (h : o.field = none) :
    o.allFields = o.fields.toList := by
  rw [allFields, closeField_of_field_eq_none h]

theorem allFields_of_field_eq_some {o : OpenFormat} {f : OpenField} (h : o.field = some f) :
    o.allFields = o.fields.toList ++ [f.close] := by
  simp [allFields, closeField, h]

/-- A field that is open is the last one. -/
theorem lastOpen_of_field_eq_some {o : OpenFormat} {f : OpenField} (h : o.field = some f) :
    o.LastOpen := by
  intro hnone
  rw [h] at hnone
  cases hnone

/-- A format without an open field has none. -/
theorem LastOpen.allFields_eq_nil {o : OpenFormat} (ho : o.LastOpen) (h : o.field = none) :
    o.allFields = [] := by
  rw [allFields_of_field_eq_none h, ho h]

/-- Closing a field puts it behind the ones before. -/
theorem closeField_eq (o : OpenFormat) :
    o.closeField = { o with fields := o.allFields.toArray, field := none } := by
  rw [allFields, Array.toArray_toList]
  rcases h : o.field with - | f
  · rw [closeField_of_field_eq_none h, ← h]
  · rw [closeField, h]

/-- An open format is closed with all its fields, and its window is settled last. -/
theorem close_eq (o : OpenFormat) (stop : Nat) :
    o.close stop =
      RecordFormat.resolveWindow
        { name := o.name
          lines := { start := o.start, stop }
          isWindow := false
          windowReference := none
          window := Window.screen
          keywords := (Keyword.resolve o.area.toList).keywords
          fields := o.allFields } := by
  rw [close, closeField_eq]

theorem fields_close (o : OpenFormat) (stop : Nat) : (o.close stop).fields = o.allFields := by
  rw [close_eq, RecordFormat.fields_resolveWindow]

theorem lines_close (o : OpenFormat) (stop : Nat) : (o.close stop).lines = ⟨o.start, stop⟩ := by
  rw [close_eq, RecordFormat.lines_resolveWindow]

/-- Open formats that grow close as formats that do. -/
theorem grows_close {o p : OpenFormat} {m n : Nat} (hname : p.name = o.name)
    (hstart : p.start = o.start) (hstop : m ≤ n)
    (hfields : o.allFields ≠ [] → p.area = o.area ∧ GrowsLast Field.Grows o.allFields p.allFields) :
    (o.close m).Grows (p.close n) where
  name := by rw [close_eq, close_eq, RecordFormat.name_resolveWindow, hname,
    RecordFormat.name_resolveWindow]
  start := by rw [lines_close, lines_close, hstart]
  stop := by rwa [lines_close, lines_close]
  fields h := by
    rw [fields_close] at h ⊢
    rw [fields_close]
    exact (hfields h).2
  heading h := by
    rw [fields_close] at h
    have harea := (hfields h).1
    -- the window is settled from the keywords, and these are the same
    have hwith := RecordFormat.resolveWindow_with
      { name := o.name
        lines := { start := o.start, stop := m }
        isWindow := false
        windowReference := none
        window := Window.screen
        keywords := (Keyword.resolve o.area.toList).keywords
        fields := o.allFields } { start := o.start, stop := n } p.allFields
    have hclose : p.close n =
        { o.close m with lines := { start := o.start, stop := n }, fields := p.allFields } := by
      rw [close_eq, close_eq, hname, hstart, harea]
      exact hwith
    rw [hclose]

/-- A line in the open keyword area lengthens the last field, if there is one. -/
theorem grows_addLine {o : OpenFormat} (ho : o.LastOpen) (line : Keyword.Line) {m n : Nat}
    (hstop : m ≤ n) : (o.close m).Grows ((o.addLine line).close n) ∧ (o.addLine line).LastOpen := by
  rcases h : o.field with - | f
  · rw [addLine_of_field_eq_none h]
    refine ⟨grows_close rfl rfl hstop fun hfields ↦ ?_, ho⟩
    exact absurd (ho.allFields_eq_nil h) hfields
  · rw [addLine_of_field_eq_some h]
    refine ⟨grows_close rfl rfl hstop fun _ ↦ ⟨rfl, ?_⟩, lastOpen_of_field_eq_some rfl⟩
    rw [allFields_of_field_eq_some h, allFields_of_field_eq_some rfl]
    exact GrowsLast.last _ rfl

/-- A field that is opened comes behind the others. -/
theorem allFields_opened (o : OpenFormat) (f : OpenField) :
    allFields { o.closeField with field := some f } = o.allFields ++ [f.close] := by
  rw [allFields_of_field_eq_some rfl, allFields]

/-- A format grows when a field is opened behind its own. -/
theorem grows_opened (o : OpenFormat) (f : OpenField) {m n : Nat} (hstop : m ≤ n) :
    (o.close m).Grows (close { o.closeField with field := some f } n) := by
  refine grows_close (by rw [closeField_eq]) (by rw [closeField_eq]) hstop fun hne ↦ ?_
  rw [allFields_opened]
  exact ⟨by rw [closeField_eq], GrowsLast.append_right Field.Grows.refl hne _⟩

end OpenFormat

/-! ### The pass -/

namespace Assembly

/-- An entry that opens a field closes the open one and leaves its own open. -/
theorem place_of_opensField {e : Entry} (h : e.opensField = true) (a : Assembly) :
    ∃ f, (a.place e).formats = a.formats ∧
      (a.place e).current = { a.current.closeField with field := some f } := by
  rw [place, if_pos h, openField]
  cases e.name.isEmpty with
  | true => exact ⟨_, rfl, rfl⟩
  | false => exact ⟨_, rfl, rfl⟩

/-- An entry that opens no field adds to the keyword area that is open. -/
theorem place_of_not_opensField {e : Entry} (h : e.opensField = false) (a : Assembly) :
    a.place e = { a with current := a.current.addLine e.keywordLine } := by
  rw [place, h]
  rfl

/-- An entry that is placed lets the open format grow. -/
theorem grows_place {a : Assembly} (ha : a.current.LastOpen) (e : Entry) {m n : Nat}
    (hstop : m ≤ n) :
    (a.place e).formats = a.formats ∧
      (a.current.close m).Grows ((a.place e).current.close n) ∧
      (a.place e).current.LastOpen := by
  cases h : e.opensField with
  | false =>
    rw [place_of_not_opensField h]
    exact ⟨rfl, OpenFormat.grows_addLine ha e.keywordLine hstop⟩
  | true =>
    obtain ⟨f, hformats, hcurrent⟩ := a.place_of_opensField h
    rw [hcurrent]
    exact ⟨hformats, a.current.grows_opened f hstop, OpenFormat.lastOpen_of_field_eq_some rfl⟩

/-- Closing an assembly puts the open format behind the others. -/
theorem formats_close (a : Assembly) (count : Nat) :
    (a.close count).formats = a.formats.toList ++ [a.current.close count] := by
  rw [close, Array.toList_push]

theorem formats_close_ne_nil (a : Assembly) (count : Nat) : (a.close count).formats ≠ [] := by
  rw [formats_close]
  exact List.append_ne_nil_of_right_ne_nil _ (List.cons_ne_nil _ [])

/-- **One more line lets the member grow.** -/
theorem grows_line {a : Assembly} (ha : a.current.LastOpen) (index : Nat) (text : String) :
    (a.close index).Grows ((a.line index text).close (index + 1)) ∧
      (a.line index text).current.LastOpen := by
  have hsucc : index ≤ index + 1 := Nat.le_succ index
  -- a line that is skipped only moves the end of the last format
  have hskip : (a.close index).Grows (a.close (index + 1)) := by
    rw [Member.Grows, formats_close, formats_close]
    refine GrowsLast.last _ (OpenFormat.grows_close rfl rfl hsucc fun h ↦ ⟨rfl, ?_⟩)
    have hsame := GrowsLast.append_right Field.Grows.refl h []
    rwa [List.append_nil] at hsame
  rw [line]
  cases Entry.ofLine? text with
  | none => exact ⟨hskip, ha⟩
  | some e =>
    show (a.close index).Grows ((a.add index e).close (index + 1)) ∧
      (a.add index e).current.LastOpen
    rw [add]
    split
    · refine ⟨?_, fun _ ↦ rfl⟩
      -- the record line closes the format where the member ended before it
      have hformats : ((a.openFormat index e).close (index + 1)).formats =
          (a.close index).formats ++ [(a.openFormat index e).current.close (index + 1)] := by
        rw [formats_close, formats_close, openFormat, Array.toList_push]
      rw [Member.Grows, hformats]
      exact GrowsLast.append_right RecordFormat.Grows.refl (a.formats_close_ne_nil index) _
    · split
      · obtain ⟨hformats, hgrows, hopen⟩ := grows_place ha e hsucc
        refine ⟨?_, hopen⟩
        rw [Member.Grows, formats_close, formats_close, hformats]
        exact GrowsLast.last _ hgrows
      · exact ⟨hskip, ha⟩

/-- **More lines let the member grow.** -/
theorem grows_lines {a : Assembly} (ha : a.current.LastOpen) (index : Nat) (texts : List String) :
    (a.close index).Grows ((a.lines index texts).close (index + texts.length)) := by
  induction texts generalizing a index with
  | nil =>
    have hsame := GrowsLast.append_right RecordFormat.Grows.refl (a.formats_close_ne_nil index) []
    rwa [List.append_nil] at hsame
  | cons text texts ih =>
    obtain ⟨hgrows, hopen⟩ := grows_line ha index text
    have hrest := ih hopen (index + 1)
    rw [lines_cons, List.length_cons, Nat.add_comm texts.length, ← Nat.add_assoc]
    exact hgrows.trans hrest

/-- The last field of the open format is open after any lines. -/
theorem lastOpen_lines {a : Assembly} (ha : a.current.LastOpen) (index : Nat)
    (texts : List String) : (a.lines index texts).current.LastOpen := by
  induction texts generalizing a index with
  | nil => exact ha
  | cons text texts ih => exact ih (grows_line ha index text).2 (index + 1)

end Assembly

/-- **What is settled stays settled.** Lines that are added at the end of a member let it grow. -/
theorem ofLines_grows (as bs : List String) :
    (Member.ofLines as).Grows (Member.ofLines (as ++ bs)) := by
  have hopen := Assembly.lastOpen_lines (a := {}) (fun _ ↦ rfl) 0 as
  have hgrows := Assembly.grows_lines hopen as.length bs
  rw [Member.ofLines, Member.ofLines, List.length_append, Assembly.lines_append, Nat.zero_add]
  exact hgrows

end DisplayFile

import DisplayFile.Proofs.Member.Displacement
import DisplayFile.Proofs.Text.Decimal
import Mathlib.Data.List.Nodup

/-!
# Constants are numbered through the member

A field is a constant exactly when the line that opens it has no name, and every other field has the
name on its line. The constants of a member are numbered from 1 in the order of their lines,
whatever formats they are in (`ofLines_constants_numbered`).

A field takes its number when it is opened and joins the fields when it is closed, which may be at a
record line. By the segments of a member there is no such delay: a run gets as a parameter how many
constants stand before it. So the numbers of one format are a range
(`namesOfConstants_fieldsOfRuns`), and the ranges of successive formats adjoin. A number is a word;
as no member has more constants than lines, a bound on the lines is enough for numbers not to come
round again.
-/

namespace DisplayFile

/-- The fields of all formats. -/
def Member.fields (m : Member) : List Field := m.formats.flatMap RecordFormat.fields

/-- The entries of a member that open a field. -/
def openingEntries (texts : List String) : List Entry :=
  (texts.filterMap Entry.ofLine?).filter Entry.isOpening

/-- The field has the name that the entry has, or is a constant if the entry has none. -/
structure Field.NamedBy (e : Entry) (f : Field) : Prop where
  constant : f.usage = .constant ↔ e.name = ""
  name : f.usage ≠ .constant → f.name = e.name

/-! ### The entry of a field -/

theorem Field.Collects.namedBy {run : Entry × List Entry} {f : Field} (h : Field.Collects run f) :
    Field.NamedBy run.1 f where
  constant := h.constant.trans String.isEmpty_iff
  name hf := h.name (Bool.eq_false_iff.2 fun hempty ↦ hf (h.constant.2 hempty))

/-- The fields of a format are named by the entries of its segment that open one. -/
theorem RecordFormat.Collects.forall₂_namedBy {es : List Entry} {f : RecordFormat}
    (h : RecordFormat.Collects es f) :
    List.Forall₂ Field.NamedBy (es.filter Entry.isOpening) f.fields := by
  rw [← Entry.map_fst_parts_runs, List.forall₂_map_left_iff]
  exact h.fields.imp fun _ _ ↦ Field.Collects.namedBy

/-- The fields of a member are named by its entries that open one. -/
theorem forall₂_namedBy_fields (texts : List String) :
    List.Forall₂ Field.NamedBy (openingEntries texts) (Member.ofLines texts).fields := by
  have hopening : openingEntries texts =
      (segmentEntries texts).flatMap fun es ↦ es.filter Entry.isOpening := by
    rw [openingEntries, ← flatten_segmentEntries, List.filter_flatten, List.flatMap_def]
  rw [hopening]
  exact List.rel_flatMap (forall₂_collects_formats_ofLines texts)
    fun _ _ ↦ RecordFormat.Collects.forall₂_namedBy

/-! ### The numbers of constants -/

/-- The names of constants numbered from one number on. -/
def constantNames (first count : Nat) : List String :=
  (List.range' first count).map Field.constantName

/-- The names of the constants among some fields. -/
def namesOfConstants (fields : List Field) : List String :=
  (fields.filter (·.usage = .constant)).map Field.name

theorem constantNames_append (first count later : Nat) :
    constantNames first count ++ constantNames (first + count) later =
      constantNames first (count + later) := by
  rw [constantNames, constantNames, ← List.map_append, List.range'_append_1, constantNames]

theorem namesOfConstants_append (as bs : List Field) :
    namesOfConstants (as ++ bs) = namesOfConstants as ++ namesOfConstants bs := by
  rw [namesOfConstants, List.filter_append, List.map_append, namesOfConstants, namesOfConstants]

/-- The number of a constant is read off its name. -/
theorem constantName_injective : Function.Injective Field.constantName := by
  intro m n h
  have hdigits : String.ofList (Text.Numeral.digits m) = String.ofList (Text.Numeral.digits n) :=
    (String.append_right_inj "TEXT").1 h
  rw [← Text.Numeral.value_digits m, String.ofList_injective hdigits, Text.Numeral.value_digits]

theorem nodup_constantNames (first count : Nat) : (constantNames first count).Nodup :=
  List.Nodup.map constantName_injective List.nodup_range'

/-- A run that opens a constant gives it the next number, and any other run gives none. -/
theorem namesOfConstants_ofRun {n : Nat} (before : Option Field) {run : Entry × List Entry}
    (hsize : n + constantsOfRuns [run] < UInt32.size) :
    namesOfConstants [Field.ofRun n before run] =
      constantNames (n + 1) (constantsOfRuns [run]) := by
  have hconstant : (Field.ofRun n before run).usage = .constant ↔ run.1.name.isEmpty = true :=
    run.1.usage_openedField_eq_constant_iff n before
  rw [constantsOfRuns, List.countP_singleton] at hsize ⊢
  cases hname : run.1.name.isEmpty with
  | false =>
    rw [hname] at hconstant
    have hother : ¬(Field.ofRun n before run).usage = .constant := fun h ↦
      Bool.false_ne_true (hconstant.1 h)
    rw [namesOfConstants, List.filter_cons_of_neg (by simpa using hother)]
    rfl
  | true =>
    rw [hname, if_pos rfl] at hsize
    have hfield : (Field.ofRun n before run).name = Field.constantName (n + 1) := by
      rw [Field.ofRun, Entry.openedField, if_pos hname]
      exact run.1.name_constantField (run.1.positionAfter before) hsize
    rw [namesOfConstants, List.filter_cons_of_pos (by simpa using hconstant.2 hname),
      List.map_cons, hfield]
    rfl

theorem namesOfConstants_fieldsOfRuns {n : Nat} (before : Option Field)
    {runs : List (Entry × List Entry)} (hsize : n + constantsOfRuns runs < UInt32.size) :
    namesOfConstants (fieldsOfRuns n before runs) =
      constantNames (n + 1) (constantsOfRuns runs) := by
  induction runs generalizing n before with
  | nil => rfl
  | cons run runs ih =>
    rw [constantsOfRuns_cons] at hsize ⊢
    rw [fieldsOfRuns, ← List.singleton_append, namesOfConstants_append,
      namesOfConstants_ofRun before (by omega), ih _ (by omega), ← constantNames_append,
      Nat.add_right_comm]

/-- The constants of successive formats are numbered on from one to the next. -/
theorem namesOfConstants_formatsOfSegments {n : Nat} {segments : List Segment}
    (hsize : n + constantsOfSegments segments < UInt32.size) :
    namesOfConstants ((formatsOfSegments n segments).flatMap RecordFormat.fields) =
      constantNames (n + 1) (constantsOfSegments segments) := by
  induction segments generalizing n with
  | nil => rfl
  | cons s segments ih =>
    rw [constantsOfSegments] at hsize ⊢
    have hformat : namesOfConstants (s.format n).fields = constantNames (n + 1) s.constants := by
      rw [Segment.format, RecordFormat.fields_resolveWindow]
      exact namesOfConstants_fieldsOfRuns none (by rw [← Segment.constants]; omega)
    rw [formatsOfSegments, List.flatMap_cons, namesOfConstants_append, hformat, ih (by omega),
      ← constantNames_append, Nat.add_right_comm]

/-- **Constants are numbered through the member, from 1 in the order of their lines.** They are the
fields of lines without a name, and every other field has the name on its line. -/
theorem ofLines_constants_numbered {texts : List String} (hsize : texts.length < 2 ^ 32) :
    List.Forall₂ Field.NamedBy (openingEntries texts) (Member.ofLines texts).fields ∧
      namesOfConstants (Member.ofLines texts).fields =
        constantNames 1 (Member.ofLines texts).constants ∧
      (namesOfConstants (Member.ofLines texts).fields).Nodup := by
  have hcount := constantsOfSegments_segments_le texts
  have hnames : namesOfConstants (Member.ofLines texts).fields =
      constantNames 1 (Member.ofLines texts).constants := by
    rw [constants_ofLines, Member.ofLines_eq_ofSegments]
    exact namesOfConstants_formatsOfSegments (Nat.lt_of_le_of_lt (by omega) hsize)
  refine ⟨forall₂_namedBy_fields texts, hnames, ?_⟩
  rw [hnames]
  exact nodup_constantNames 1 _

/-- A title, a record with a named field and a line that is only hidden, and a record with another
text. -/
theorem ofLines_constants_numbered_menu :
    let texts :=
      ["     A                                  1  2'TITLE'",
       "     A          R MENU",
       "     A            CHOICE         1A  B  3  2",
       "     A                               H",
       "     A          R FOOT",
       "     A                                 24  2'F3=EXIT'"]
    texts.length < 2 ^ 32 ∧
      (Member.ofLines texts).constants = 3 ∧
      namesOfConstants (Member.ofLines texts).fields = ["TEXT1", "TEXT2", "TEXT3"] ∧
      (Member.ofLines texts).fields.map Field.name = ["TEXT1", "CHOICE", "TEXT2", "TEXT3"] := by
  intro texts
  have hsize : texts.length < 2 ^ 32 := by decide
  have hconstants : (Member.ofLines texts).constants = 3 := by decide +kernel
  obtain ⟨-, hnames, -⟩ := ofLines_constants_numbered hsize
  refine ⟨hsize, hconstants, ?_, by decide +kernel⟩
  rw [hnames, hconstants]
  decide

end DisplayFile

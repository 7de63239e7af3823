import DisplayFile.Proofs.Keyword.Size
import DisplayFile.Proofs.Member.WellFormed
import Mathlib.Algebra.Order.BigOperators.Group.List
import Mathlib.Algebra.Order.Group.Nat

/-!
# Columns that add up

In a printer file a field can be placed relative to the field before it: its column is the sum of
the column of that field, the width of its text and an offset. Sums chain in this way through all
the fields of a format, in words of 32 bits and without a check, and the texts are put together from
any number of lines.

The sums are exact as long as the member is not too large (`ofLines_columns_add_up`). An offset or
an absolute column is at most 999, because there are three columns for it, and the text of a field
is not longer than the keyword areas of its lines. So a field reaches no further than the sum of
these over the lines of its format up to it (`Entry.roomOf`). The invariant over the fields of a
format is that the field before and all the entries that are still to come have room in a word.
-/

namespace DisplayFile

/-! ### Where a field stands -/

/-- The column behind the text of a field. -/
def Field.reach (f : Field) : Nat := f.position.column.toNat + f.value.length

/-- The column behind the text of the field before, or 0 if there is none. -/
def Field.reachBefore (before : Option Field) : Nat := (before.map Field.reach).getD 0

/-- The field stands where its entry places it behind the field before it: by an offset behind the
text of that field, or at the row and column that are given. -/
structure Field.PlacedAfter (before : Option Field) (e : Entry) (f : Field) : Prop where
  relative : e.isRelative = true → f.position.row = 0 ∧
    f.position.column.toNat = reachBefore before + (Entry.amount e.column).toNat
  absolute : e.isRelative = false → f.position = ⟨Entry.amount e.row, Entry.amount e.column⟩
  /-- A field that is placed relative to another does not cover its text. -/
  behind : e.isRelative = true → ∀ g ∈ before, g.reach ≤ f.position.column.toNat

/-- The fields stand where their entries place them, each behind the one before it. -/
inductive Field.AllPlacedAfter : Option Field → List Entry → List Field → Prop where
  | nil (before : Option Field) : AllPlacedAfter before [] []
  | cons {before : Option Field} {e : Entry} {f : Field} {es : List Entry} {fs : List Field}
      (head : f.PlacedAfter before e) (tail : AllPlacedAfter (some f) es fs) :
      AllPlacedAfter before (e :: es) (f :: fs)

/-! ### Room -/

namespace Entry

/-- By how much an entry can push the fields behind it: an offset of three digits and a text. -/
def room (e : Entry) : Nat := 999 + e.keywords.length

/-- By how much entries can push the fields behind them. -/
def roomOf (es : List Entry) : Nat := (es.map room).sum

theorem roomOf_append (es es' : List Entry) : roomOf (es ++ es') = roomOf es + roomOf es' := by
  rw [roomOf, List.map_append, List.sum_append]
  rfl

theorem roomOf_le_of_sublist {es es' : List Entry} (h : es.Sublist es') :
    roomOf es ≤ roomOf es' :=
  (h.map room).sum_le_sum fun _ _ ↦ Nat.zero_le _

/-- The room of entries is that of their keyword areas and of their number. -/
theorem roomOf_eq (es : List Entry) :
    roomOf es = Keyword.areaSize (area es) + 999 * es.length := by
  induction es with
  | nil => rfl
  | cons e es ih =>
    have harea : Keyword.areaSize (area (e :: es)) =
        e.keywords.length + Keyword.areaSize (area es) := rfl
    have hroom : roomOf (e :: es) = 999 + e.keywords.length + roomOf es := rfl
    rw [hroom, harea, ih, List.length_cons]
    omega

theorem column_of_isRelative {e : Entry} (h : e.isRelative = true) : e.column.isEmpty = false := by
  rw [isRelative, Bool.and_eq_true, decide_eq_true_eq] at h
  cases hempty : e.column.isEmpty with
  | false => rfl
  | true =>
    rw [String.isEmpty_iff.1 hempty] at h
    cases h.2

/-- The keyword area of an entry is a part of its line, and there are three columns for a column. -/
theorem length_le_of_ofLine? {line : String} {e : Entry} (h : ofLine? line = some e) :
    e.keywords.length ≤ line.length ∧ e.column.length ≤ 3 := by
  obtain ⟨-, rfl⟩ := ofLine?_eq_some_iff.1 h
  refine ⟨?_, Text.length_trimmedSpan_le _ 41 44⟩
  rw [ofColumns, String.length_ofList, ← String.length_toList]
  exact (Text.length_trimEnd_le _).trans (List.length_drop.trans_le (Nat.sub_le _ _))

/-- The entries of a member have no more room than its lines. -/
theorem roomOf_filterMap_le (texts : List String) :
    roomOf (texts.filterMap ofLine?) ≤ (texts.map String.length).sum + 999 * texts.length := by
  induction texts with
  | nil => exact Nat.le_refl 0
  | cons text texts ih =>
    rw [List.map_cons, List.sum_cons, List.length_cons]
    rcases h : ofLine? text with - | e
    · rw [List.filterMap_cons_none h]
      omega
    · rw [List.filterMap_cons_some h]
      have hroom : roomOf (e :: texts.filterMap ofLine?) =
          999 + e.keywords.length + roomOf (texts.filterMap ofLine?) := rfl
      obtain ⟨hkeywords, -⟩ := length_le_of_ofLine? h
      omega

end Entry

/-! ### One field behind another -/

namespace Field

/-- The text of a field and its offset have room in the entries of its run. -/
theorem length_value_ofRun_le (constants : Nat) (before : Option Field)
    (run : Entry × List Entry) :
    (ofRun constants before run).value.length + 999 ≤ Entry.roomOf (run.1 :: run.2) := by
  have hvalue : (ofRun constants before run).value.length ≤
      Keyword.areaSize (Entry.area (run.1 :: run.2)) :=
    Keyword.length_constant_resolve_le _
  rw [Entry.roomOf_eq, List.length_cons]
  omega

theorem position_ofRun (constants : Nat) (before : Option Field) (run : Entry × List Entry) :
    (ofRun constants before run).position = run.1.positionAfter before := by
  show (run.1.openedField constants before).position = _
  rw [Entry.openedField]
  split
  · rfl
  · rw [Entry.namedField]
    split <;> rfl

/-- **The sum does not wrap**, when there is room behind the field before. -/
theorem toNat_add_textWidth {before : Field} {offset : UInt32}
    (h : before.reach + offset.toNat < 2 ^ 32) :
    (before.position.column + offset + before.textWidth).toNat = before.reach + offset.toNat := by
  rw [reach] at h ⊢
  have hwidth : before.textWidth.toNat = before.value.length :=
    UInt32.toNat_ofNat_of_lt (show before.value.length < 2 ^ 32 by omega)
  have hsum : (before.position.column + offset).toNat =
      before.position.column.toNat + offset.toNat := by
    rw [UInt32.toNat_add]
    exact Nat.mod_eq_of_lt (by omega)
  rw [UInt32.toNat_add, hsum, hwidth, Nat.mod_eq_of_lt (by omega)]
  omega

/-- A field is placed as its entry says. -/
theorem placedAfter_ofRun {before : Option Field} {run : Entry × List Entry}
    (hcolumn : (Entry.amount run.1.column).toNat ≤ 999)
    (hroom : reachBefore before + 999 < 2 ^ 32) (constants : Nat) :
    (ofRun constants before run).PlacedAfter before run.1 := by
  have hcolumnOf : run.1.isRelative = true →
      (ofRun constants before run).position.row = 0 ∧
        (ofRun constants before run).position.column.toNat =
          reachBefore before + (Entry.amount run.1.column).toNat := by
    intro hrelative
    have hne : run.1.column.isEmpty = false := run.1.column_of_isRelative hrelative
    rw [position_ofRun, Entry.positionAfter.eq_def, hne, if_neg Bool.false_ne_true,
      if_pos hrelative]
    refine ⟨rfl, ?_⟩
    rcases before with - | f
    · exact (Nat.zero_add _).symm
    · have hreach : reachBefore (some f) = f.reach := rfl
      exact toNat_add_textWidth (by omega)
  refine ⟨hcolumnOf, fun hrelative ↦ ?_, fun hrelative g hg ↦ ?_⟩
  · rw [position_ofRun, Entry.positionAfter.eq_def, hrelative, if_neg Bool.false_ne_true]
    split
    · next hempty =>
      rw [String.isEmpty_iff.1 hempty]
      rfl
    · rfl
  · rw [(hcolumnOf hrelative).2, Option.mem_def.1 hg]
    exact Nat.le_add_right _ _

/-- How far a field reaches. -/
theorem reach_ofRun_le {before : Option Field} {run : Entry × List Entry}
    (hcolumn : (Entry.amount run.1.column).toNat ≤ 999)
    (hroom : reachBefore before + 999 < 2 ^ 32) (constants : Nat) :
    (ofRun constants before run).reach ≤ reachBefore before + Entry.roomOf (run.1 :: run.2) := by
  have hplaced := placedAfter_ofRun hcolumn hroom constants
  have hvalue := length_value_ofRun_le constants before run
  have hstart :
      (ofRun constants before run).position.column.toNat ≤ reachBefore before + 999 := by
    cases hrelative : run.1.isRelative with
    | true =>
      rw [(hplaced.relative hrelative).2]
      omega
    | false =>
      rw [hplaced.absolute hrelative]
      exact hcolumn.trans (Nat.le_add_left _ _)
  rw [reach]
  omega

/-! ### All fields of a format -/

/-- **The fields of successive runs are placed one behind the other.** What a field reaches is taken
from the room of its own run, so there is room for the runs behind it. -/
theorem allPlacedAfter_fieldsOfRuns {runs : List (Entry × List Entry)} {before : Option Field}
    (hcolumns : ∀ run ∈ runs, (Entry.amount run.1.column).toNat ≤ 999)
    (hroom : reachBefore before + Entry.roomOf (Sections.joinParts runs) < 2 ^ 32)
    (constants : Nat) :
    AllPlacedAfter before (runs.map Prod.fst) (fieldsOfRuns constants before runs) := by
  induction runs generalizing before constants with
  | nil => exact .nil before
  | cons run runs ih =>
    obtain ⟨hcolumn, hcolumns⟩ := List.forall_mem_cons.1 hcolumns
    have hjoin : Sections.joinParts (run :: runs) =
        (run.1 :: run.2) ++ Sections.joinParts runs := rfl
    have hvalue := length_value_ofRun_le constants before run
    rw [hjoin, Entry.roomOf_append] at hroom
    have hfirst : reachBefore before + 999 < 2 ^ 32 := by omega
    have hreach := reach_ofRun_le hcolumn hfirst constants
    refine .cons (placedAfter_ofRun hcolumn hfirst constants) (ih hcolumns ?_ _)
    show (ofRun constants before run).reach + _ < 2 ^ 32
    omega

end Field

/-- The fields of a format stand where the entries that open them place them. -/
def RecordFormat.Placed (es : List Entry) (f : RecordFormat) : Prop :=
  Field.AllPlacedAfter none (es.filter Entry.isOpening) f.fields

theorem Segment.placed_format {s : Segment}
    (hcolumns : ∀ e ∈ s.entries, (Entry.amount e.column).toNat ≤ 999)
    (hroom : Entry.roomOf s.entries < 2 ^ 32) (constants : Nat) :
    (s.format constants).Placed s.entries := by
  have hjoin : (Entry.runs s.entries).lead ++ Sections.joinParts (Entry.runs s.entries).parts =
      s.entries.filter Entry.isLayout := Sections.join_cut _
  have hsublist : (Sections.joinParts (Entry.runs s.entries).parts).Sublist s.entries :=
    (List.sublist_append_right _ _).trans (hjoin ▸ List.filter_sublist)
  rw [RecordFormat.Placed, format, RecordFormat.fields_resolveWindow, ← Entry.map_fst_parts_runs]
  refine Field.allPlacedAfter_fieldsOfRuns
    (fun run hrun ↦ hcolumns run.1 (Entry.mem_of_mem_parts_runs hrun)) ?_ constants
  have hle := Entry.roomOf_le_of_sublist hsublist
  show 0 + _ < 2 ^ 32
  omega

/-- **Columns add up without a wrap.** In a member with fewer than 2³² characters, counting 999 more
for each line, every field of every format stands where the entry that opens it places it. -/
theorem ofLines_columns_add_up (texts : List String)
    (h : (texts.map String.length).sum + 999 * texts.length < 2 ^ 32) :
    List.Forall₂ RecordFormat.Placed (segmentEntries texts) (Member.ofLines texts).formats := by
  refine forall₂_formats_ofLines fun s hs n ↦ Segment.placed_format (fun e he ↦ ?_) ?_ n
  · obtain ⟨text, -, hline⟩ := exists_line_of_mem_segments hs he
    have hcolumn := (Entry.length_le_of_ofLine? hline).2
    have hamount : Entry.amount e.column ≤ 999 := Entry.amount_le hcolumn (by decide)
    exact UInt32.le_iff_toNat_le.1 hamount
  · have hsublist : s.entries.Sublist (texts.filterMap Entry.ofLine?) := by
      rw [← flatten_segmentEntries, ← map_entries_segments]
      exact List.sublist_flatten_of_mem (List.mem_map_of_mem hs)
    calc Entry.roomOf s.entries
        ≤ Entry.roomOf (texts.filterMap Entry.ofLine?) := Entry.roomOf_le_of_sublist hsublist
      _ ≤ (texts.map String.length).sum + 999 * texts.length := Entry.roomOf_filterMap_le texts
      _ < 2 ^ 32 := h

/-- A page heading of which each part is placed behind the one before, whose text goes over two
lines in the first. -/
theorem ofLines_columns_add_up_heading :
    let texts :=
      ["     A          R HEADER",
        "     A                                     2'Customer -",
        "     A                                      report'",
        "     A                                    +3'Page'",
        "     A            PAGNBR         4S 0O    +1"]
    (texts.map String.length).sum + 999 * texts.length < 2 ^ 32 ∧
      List.Forall₂ RecordFormat.Placed (segmentEntries texts) (Member.ofLines texts).formats ∧
      (Member.ofLines texts).formats.map (·.fields.map fun f ↦ (f.position, f.value)) =
        [[], [(⟨0, 2⟩, "Customer report"), (⟨0, 20⟩, "Page"), (⟨0, 25⟩, "")]] := by
  intro texts
  have hsize : (texts.map String.length).sum + 999 * texts.length < 2 ^ 32 := by decide
  exact ⟨hsize, ofLines_columns_add_up texts hsize, by decide +kernel⟩

end DisplayFile

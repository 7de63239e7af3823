import DisplayFile.Member.Assembly
import DisplayFile.Proofs.Text.Columns
import Mathlib.Data.List.Forall2

/-!
# Lines are read by position

An entry has what stands in its columns, wherever in their columns the texts are put, and nothing
else. Three statements make that exact.

**Whatever is put into the columns is read from them** (`FilledLine.ofLine?_text`). A filled line
has a text in each range of columns, with blanks on both sides of it, and the keyword area behind
them, which may be of any length.

**Every line is a filled line** once blanks fill it up to the 80 columns of a line
(`FilledLine.print_ofLine`), and then no column is looked up that the line does not have
(`Entry.read?_padded`).

**What stands in other columns does not matter**, nor do blanks at the end (`SameColumns`). So lines
can be replaced by such lines anywhere in a member.
-/

namespace DisplayFile

/-! ### Filled lines -/

/-- A text in columns of which it takes only some, with blanks on both sides of it. -/
structure Cell (width : Nat) where
  before : Nat
  text : List Char
  after : Nat
  fills : before + text.length + after = width

namespace Cell

variable {width : Nat}

/-- The characters in the columns. -/
def print (c : Cell width) : List Char :=
  List.replicate c.before ' ' ++ (c.text ++ List.replicate c.after ' ')

/-- A cell fills its columns and no more. -/
theorem length_print (c : Cell width) : c.print.length = width := by
  rw [print, List.length_append, List.length_append, List.length_replicate, List.length_replicate,
    ← Nat.add_assoc, c.fills]

/-- Where in its columns a text stands does not matter. -/
theorem trim_print (c : Cell width) : Text.trim c.print = Text.trim c.text := by
  have hbehind : c.text ++ List.replicate c.after ' ' =
      c.text.rightpad (c.text.length + c.after) ' ' := by
    rw [List.rightpad, Nat.add_sub_cancel_left]
  rw [print, Text.trim, Text.trimStart_replicate_append, hbehind]
  exact Text.trim_rightpad _ c.text

/-- The text at the left of its columns. -/
def left (text : List Char) (h : text.length ≤ width) : Cell width :=
  ⟨0, text, width - text.length, by omega⟩

/-- The text at the right of its columns. -/
def right (text : List Char) (h : text.length ≤ width) : Cell width :=
  ⟨width - text.length, text, 0, by omega⟩

theorem print_left {text : List Char} (h : text.length ≤ width) :
    (left text h).print = text.rightpad width ' ' := rfl

theorem print_right {text : List Char} (h : text.length ≤ width) :
    (right text h).print = text.leftpad width ' ' :=
  congrArg (List.replicate _ ' ' ++ ·) (List.append_nil text)

end Cell

/-- What stands in all columns of a line. Two columns, in front of the name and behind it, belong to
no attribute, and neither do those in front of the conditioning zone. -/
structure FilledLine where
  sequence : List Char
  zone : List Char
  marker : Char
  beforeName : Char
  name : Cell 10
  behindName : Char
  length : Cell 5
  dataType : Char
  decimals : Cell 2
  usage : Char
  row : Cell 3
  column : Cell 3
  keywords : List Char
  length_sequence : sequence.length = 6
  length_zone : zone.length = 10

namespace FilledLine

/-- The characters of the line. -/
def print (f : FilledLine) : List Char :=
  f.sequence ++ (f.zone ++ (f.marker :: f.beforeName :: (f.name.print ++ (f.behindName ::
    (f.length.print ++ (f.dataType :: (f.decimals.print ++ (f.usage :: (f.row.print ++
      (f.column.print ++ f.keywords))))))))))

/-- The line. -/
def text (f : FilledLine) : String := String.ofList f.print

/-- What the line says, if it is no comment: each attribute as it was put into its columns. -/
def entry (f : FilledLine) : Entry :=
  { zone := String.ofList f.zone
    marker := f.marker
    name := String.ofList (Text.trim f.name.text)
    length := String.ofList (Text.trim f.length.text)
    dataType := f.dataType.toUpper
    decimals := String.ofList (Text.trim f.decimals.text)
    usage := f.usage.toUpper
    row := String.ofList (Text.trim f.row.text)
    column := String.ofList (Text.trim f.column.text)
    keywords := String.ofList (Text.trimEnd f.keywords) }

/-- The entry on the line, if the conditioning zone does not make it a comment. -/
def entryUnlessComment (f : FilledLine) : Option Entry :=
  if f.zone.head? = some '*' then none else some f.entry

/-- The columns of a filled line are read as the entry that it means. -/
theorem ofColumns_print (f : FilledLine) : Entry.ofColumns f.print = f.entry := by
  have hname := f.name.length_print
  have hlength := f.length.length_print
  have hdecimals := f.decimals.length_print
  have hrow := f.row.length_print
  have hcolumn := f.column.length_print
  have hsequence := f.length_sequence
  have hzone := f.length_zone
  rw [entry, ← f.name.trim_print, ← f.length.trim_print, ← f.decimals.trim_print,
    ← f.row.trim_print, ← f.column.trim_print, Entry.ofColumns, print]
  -- only the lengths of the stretches matter from here on
  generalize f.name.print = name at *
  generalize f.length.print = length at *
  generalize f.decimals.print = decimals at *
  generalize f.row.print = row at *
  generalize f.column.print = column at *
  simp [Text.trimmedSpan, Text.span, Text.column, List.drop_append, hzone, hname, hlength,
    hdecimals, hrow, hcolumn, hsequence, List.getElem?_append, List.drop_eq_nil_of_le]

/-- A filled line is a comment exactly when its zone begins with an asterisk. -/
theorem isComment_print_iff (f : FilledLine) :
    Entry.isComment f.print = true ↔ f.zone.head? = some '*' := by
  obtain ⟨c, zone, hzone⟩ := List.exists_cons_of_length_eq_add_one f.length_zone
  have hcolumn : Text.column f.print 6 = c := by
    rw [Text.column, print, List.getD_eq_getElem?_getD,
      List.getElem?_append_right f.length_sequence.le, f.length_sequence, hzone]
    rfl
  rw [Entry.isComment, decide_eq_true_iff, hcolumn, hzone, List.head?_cons, Option.some_inj]

/-- **What is put into the columns of a line is read from it.** -/
theorem ofLine?_text (f : FilledLine) : Entry.ofLine? f.text = f.entryUnlessComment := by
  simp only [Entry.ofLine?, text, String.toList_ofList, isComment_print_iff, ofColumns_print,
    entryUnlessComment]

end FilledLine

/-! ### Lines that are filled up -/

namespace Entry

/-- The line with blanks behind it up to the width of a line. A longer line stays as it is. -/
def padded (line : List Char) : List Char := line.rightpad 80 ' '

/-- The columns from `start` up to but not including `stop`, if the line has all of them. -/
def slice? (line : List Char) (start stop : Nat) : Option (List Char) :=
  if start ≤ stop ∧ stop ≤ line.length then some ((line.drop start).take (stop - start)) else none

/-- Read a line in which no column may be missing. There is no answer where a column is looked up
that the line does not have. -/
def read? (cs : List Char) : Option (Option Entry) := do
  if (← cs[6]?) = '*' then return none
  let zone ← slice? cs 6 16
  let marker ← cs[16]?
  let name ← slice? cs 18 28
  let length ← slice? cs 29 34
  let dataType ← cs[34]?
  let decimals ← slice? cs 35 37
  let usage ← cs[37]?
  let row ← slice? cs 38 41
  let column ← slice? cs 41 44
  let keywords ← slice? cs 44 cs.length
  return some
    { zone := String.ofList zone
      marker
      name := String.ofList (Text.trim name)
      length := String.ofList (Text.trim length)
      dataType := dataType.toUpper
      decimals := String.ofList (Text.trim decimals)
      usage := usage.toUpper
      row := String.ofList (Text.trim row)
      column := String.ofList (Text.trim column)
      keywords := String.ofList (Text.trimEnd keywords) }

theorem le_length_padded (line : List Char) : 80 ≤ (padded line).length := by
  rw [padded, List.length_rightpad]
  exact Nat.le_max_left 80 line.length

theorem slice?_padded (line : List Char) {start stop : Nat} (hle : start ≤ stop)
    (hstop : stop ≤ 80) : slice? (padded line) start stop = some (Text.span line start stop) := by
  rw [slice?, if_pos ⟨hle, hstop.trans (le_length_padded line)⟩, padded,
    Text.take_drop_rightpad line hstop]

theorem getElem?_padded (line : List Char) {i : Nat} (h : i < 80) :
    (padded line)[i]? = some (Text.column line i) :=
  Text.getElem?_rightpad line h

/-- The keyword area has no blanks of the padding. -/
theorem trimEnd_drop_padded (line : List Char) :
    Text.trimEnd ((padded line).drop 44) = Text.trimEnd (line.drop 44) := by
  refine Text.trimEnd_eq_of_column_eq fun i ↦ ?_
  rw [Text.column_drop, Text.column_drop, padded, List.rightpad, Text.column_append_replicate]

theorem slice?_padded_length (line : List Char) :
    slice? (padded line) 44 (padded line).length = some ((padded line).drop 44) := by
  have hwidth := le_length_padded line
  rw [slice?, if_pos ⟨by omega, Nat.le_refl _⟩, ← List.length_drop, List.take_length]

/-- **No column is missing in a line that is filled up**, and it says what the line says. -/
theorem read?_padded (line : String) : read? (padded line.toList) = some (ofLine? line) := by
  have hcomment := getElem?_padded line.toList (show 6 < 80 by decide)
  have hzone := slice?_padded line.toList (show 6 ≤ 16 by decide) (by decide)
  have hmarker := getElem?_padded line.toList (show 16 < 80 by decide)
  have hname := slice?_padded line.toList (show 18 ≤ 28 by decide) (by decide)
  have hlength := slice?_padded line.toList (show 29 ≤ 34 by decide) (by decide)
  have hdataType := getElem?_padded line.toList (show 34 < 80 by decide)
  have hdecimals := slice?_padded line.toList (show 35 ≤ 37 by decide) (by decide)
  have husage := getElem?_padded line.toList (show 37 < 80 by decide)
  have hrow := slice?_padded line.toList (show 38 ≤ 41 by decide) (by decide)
  have hcolumn := slice?_padded line.toList (show 41 ≤ 44 by decide) (by decide)
  have hkeywords := slice?_padded_length line.toList
  simp only [read?, hcomment, hzone, hmarker, hname, hlength, hdataType, hdecimals, husage, hrow,
    hcolumn, hkeywords, trimEnd_drop_padded, Option.bind_eq_bind, Option.bind_some]
  by_cases hstar : Text.column line.toList 6 = '*'
  · rw [if_pos hstar, ofLine?_eq_none_iff.2 hstar]
    rfl
  · rw [if_neg hstar, ofLine?_eq_some_iff.2 ⟨hstar, rfl⟩]
    rfl

end Entry

namespace FilledLine

/-- The line that has in all columns what a line has there. -/
def ofLine (line : List Char) : FilledLine where
  sequence := Text.span line 0 6
  zone := Text.span line 6 16
  marker := Text.column line 16
  beforeName := Text.column line 17
  name := ⟨0, Text.span line 18 28, 0, by simp [Text.length_span]⟩
  behindName := Text.column line 28
  length := ⟨0, Text.span line 29 34, 0, by simp [Text.length_span]⟩
  dataType := Text.column line 34
  decimals := ⟨0, Text.span line 35 37, 0, by simp [Text.length_span]⟩
  usage := Text.column line 37
  row := ⟨0, Text.span line 38 41, 0, by simp [Text.length_span]⟩
  column := ⟨0, Text.span line 41 44, 0, by simp [Text.length_span]⟩
  keywords := (Entry.padded line).drop 44
  length_sequence := Text.length_span line 0 6
  length_zone := Text.length_span line 6 16

/-- **Every line is a filled line once blanks fill it up.** -/
theorem print_ofLine (line : List Char) : (ofLine line).print = Entry.padded line := by
  have hspans : (ofLine line).print = Text.span line 0 44 ++ (Entry.padded line).drop 44 := by
    simp only [print, ofLine, Cell.print, Text.span_eq_map]
    rfl
  rw [hspans, ← Text.take_drop_rightpad line (show 44 ≤ 80 by decide)]
  exact List.take_append_drop 44 _

end FilledLine

/-! ### Columns that are not read -/

/-- No attribute is read from the column: it stands in front of the zone or next to the name. -/
def Entry.isUnread (i : Nat) : Bool := i < 6 || i = 17 || i = 28

/-- The lines have the same characters in all columns that are read, if blanks follow both. -/
def SameColumns (as bs : String) : Prop :=
  ∀ i, Entry.isUnread i = false → Text.column as.toList i = Text.column bs.toList i

/-- Any number of blanks at the end. -/
theorem sameColumns_append_blanks (line : String) (n : Nat) :
    SameColumns line (line ++ String.ofList (List.replicate n ' ')) := by
  intro i _
  rw [String.toList_append, String.toList_ofList, Text.column_append_replicate]

/-- Behind the ends of both lines there is nothing to compare. -/
theorem sameColumns_iff_forall_lt {as bs : String} :
    SameColumns as bs ↔ ∀ i < max as.toList.length bs.toList.length,
      Entry.isUnread i = false → Text.column as.toList i = Text.column bs.toList i := by
  refine ⟨fun h i _ ↦ h i, fun h i hi ↦ ?_⟩
  rcases Nat.lt_or_ge i (max as.toList.length bs.toList.length) with hlt | hge
  · exact h i hlt hi
  · rw [Text.column_of_length_le (show as.toList.length ≤ i by omega),
      Text.column_of_length_le (show bs.toList.length ≤ i by omega)]

instance (as bs : String) : Decidable (SameColumns as bs) :=
  decidable_of_iff _ sameColumns_iff_forall_lt.symm

/-- **Lines with the same columns say the same.** -/
theorem ofLine?_eq_of_sameColumns {as bs : String} (h : SameColumns as bs) :
    Entry.ofLine? as = Entry.ofLine? bs := by
  have hspan (start stop : Nat)
      (hread : ∀ i ∈ List.range' start (stop - start), Entry.isUnread i = false) :
      Text.span as.toList start stop = Text.span bs.toList start stop := by
    rw [Text.span_eq_map, Text.span_eq_map]
    exact List.map_congr_left fun i hi ↦ h i (hread i hi)
  have hkeywords : Text.trimEnd (as.toList.drop 44) = Text.trimEnd (bs.toList.drop 44) := by
    refine Text.trimEnd_eq_of_column_eq fun i ↦ ?_
    have hread : Entry.isUnread (44 + i) = false := by
      simp only [Entry.isUnread, Bool.or_eq_false_iff, decide_eq_false_iff_not]
      omega
    rw [Text.column_drop, Text.column_drop, h _ hread]
  have hcomment : Entry.isComment as.toList = Entry.isComment bs.toList := by
    rw [Entry.isComment, Entry.isComment, h 6 rfl]
  have hentry : Entry.ofColumns as.toList = Entry.ofColumns bs.toList := by
    simp only [Entry.ofColumns, Text.trimmedSpan, hkeywords, h 16 rfl, h 34 rfl, h 37 rfl,
      hspan 6 16 (by decide), hspan 18 28 (by decide), hspan 29 34 (by decide),
      hspan 35 37 (by decide), hspan 38 41 (by decide), hspan 41 44 (by decide)]
  rw [Entry.ofLine?, Entry.ofLine?, hcomment, hentry]

/-- Assembling depends on what the lines say. -/
theorem Assembly.lines_congr {as bs : List String}
    (h : List.Forall₂ (fun a b ↦ Entry.ofLine? a = Entry.ofLine? b) as bs) (a : Assembly)
    (index : Nat) : a.lines index as = a.lines index bs := by
  induction h generalizing a index with
  | nil => rfl
  | @cons text text' as bs htext _ ih =>
    have hline : a.line index text = a.line index text' := by rw [line, line, htext]
    rw [lines_cons, lines_cons, hline, ih]

/-- **A line is read by position.** A star in column 6 makes it a comment. Otherwise every attribute
is what was put into its columns, and every line has something in all of them, whether blanks have
to fill it up or not. Lines that have the same columns make the same member. -/
theorem ofLine?_by_position (line : String) (f : FilledLine) {as bs : List String}
    (h : List.Forall₂ SameColumns as bs) :
    (Entry.ofLine? line = none ↔ line.toList[6]? = some '*') ∧
      Entry.ofLine? f.text = f.entryUnlessComment ∧
      (FilledLine.ofLine line.toList).print = Entry.padded line.toList ∧
      Entry.ofLine? line = (FilledLine.ofLine line.toList).entryUnlessComment ∧
      Entry.read? (Entry.padded line.toList) = some (Entry.ofLine? line) ∧
      as.map Entry.ofLine? = bs.map Entry.ofLine? ∧
      Member.ofLines as = Member.ofLines bs := by
  have hlines : List.Forall₂ (fun a b ↦ Entry.ofLine? a = Entry.ofLine? b) as bs :=
    h.imp fun _ _ ↦ ofLine?_eq_of_sameColumns
  refine ⟨?_, f.ofLine?_text, FilledLine.print_ofLine _, ?_, Entry.read?_padded line, ?_, ?_⟩
  · rw [Entry.ofLine?_eq_none_iff, Text.column, List.getD_eq_getElem?_getD]
    cases line.toList[6]? with
    | none => decide
    | some c => rw [Option.getD_some, Option.some_inj]
  · -- the blanks that fill the line up say nothing
    have hpadded : (FilledLine.ofLine line.toList).text =
        line ++ String.ofList (List.replicate (80 - line.toList.length) ' ') := by
      rw [FilledLine.text, FilledLine.print_ofLine, Entry.padded, List.rightpad,
        String.ofList_append, String.ofList_toList]
    rw [ofLine?_eq_of_sameColumns (sameColumns_append_blanks line _), ← hpadded,
      FilledLine.ofLine?_text]
  · exact List.forall₂_eq_eq_eq ▸
      (List.forall₂_map_left_iff.2 (List.forall₂_map_right_iff.2 hlines))
  · rw [Member.ofLines, Member.ofLines, Assembly.lines_congr hlines, h.length_eq]

/-- A line that ends in its name, a line with its texts in the middle of their columns, and a record
of which only columns that are not read are changed. -/
theorem ofLine?_by_position_menu :
    let line := "     A  85      R ME"
    let f : FilledLine :=
      { sequence := "00120A".toList
        zone := "O N85     ".toList
        marker := ' '
        beforeName := '*'
        name := ⟨2, "AMOUNT".toList, 2, by decide⟩
        behindName := 'R'
        length := ⟨1, ['7'], 3, by decide⟩
        dataType := 'y'
        decimals := ⟨0, ['2'], 1, by decide⟩
        usage := 'o'
        row := ⟨1, ['4'], 1, by decide⟩
        column := ⟨0, "+12".toList, 0, by decide⟩
        keywords := "  EDTCDE(J)  ".toList
        length_sequence := by decide
        length_zone := by decide }
    let as := ["     A          R MENU", "     A                                  1  2'ON -"]
    let bs := ["00010B          RXMENU   ", "     A           X          X           1  2'ON -    "]
    List.Forall₂ SameColumns as bs ∧
      f.text = "00120AO N85      *  AMOUNT  R 7   y2 o 4 +12  EDTCDE(J)  " ∧
      Entry.ofLine? f.text =
        some
          { zone := "O N85     ", marker := ' ', name := "AMOUNT", length := "7", dataType := 'Y',
            decimals := "2", usage := 'O', row := "4", column := "+12",
            keywords := "  EDTCDE(J)" } ∧
      Entry.ofLine? line ≠ none ∧
      Entry.read? (Entry.padded line.toList) = some (Entry.ofLine? line) ∧
      Member.ofLines as = Member.ofLines bs := by
  intro line f as bs
  have hcolumns : List.Forall₂ SameColumns as bs := .cons (by decide) (.cons (by decide) .nil)
  obtain ⟨hcomment, htext, -, -, hread, -, hmember⟩ := ofLine?_by_position line f hcolumns
  refine ⟨hcolumns, by decide, htext.trans (by decide), ?_, hread, hmember⟩
  rw [Ne, hcomment]
  decide

end DisplayFile

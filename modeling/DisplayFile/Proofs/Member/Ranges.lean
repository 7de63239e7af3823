import DisplayFile.Command.FileTree
import DisplayFile.Proofs.Command.Outcomes
import DisplayFile.Proofs.Command.Running
import DisplayFile.Proofs.Command.Switches
import DisplayFile.Proofs.Member.Routing
import Mathlib.Data.List.Forall2

/-!
# Ranges of lines

The ranges of the formats lie end to end over the lines of a member. They are cut at its record
lines: the first format starts on line 0, every other one on its own record line, and each ends
where the next one starts or at the end of the member (`lines_ofLines`). A range is empty when a
record line is followed by another one, or stands on line 0.

So every line is in one range only. The range that a line is in has as many others before it as
there are record lines up to the line (`LineRange.contains_between`), which makes its format that of
the last record line up to the line (`ownerIndex_countP`). The lookup of a line goes through the
ranges from the start and finds that format.

**A command line that asks for a line is answered with the name of its format**, in words or in
JSON, and fails where there is no such line (`ofLines_ranges_tile`). Lines are counted from 1 there,
so line 0 is outside of every member.
-/

namespace DisplayFile

/-! ### Ranges between cuts -/

/-- The ranges from `start` to `stop`, cut at line numbers. -/
def LineRange.between (start : Nat) (cuts : List Nat) (stop : Nat) : List LineRange :=
  match cuts with
  | [] => [{ start, stop }]
  | next :: cuts => { start, stop := next } :: between next cuts stop

namespace LineRange

theorem map_start_between (start : Nat) (cuts : List Nat) (stop : Nat) :
    (between start cuts stop).map LineRange.start = start :: cuts := by
  induction cuts generalizing start with
  | nil => rfl
  | cons next cuts ih => exact congrArg (start :: ·) (ih next)

theorem map_stop_between (start : Nat) (cuts : List Nat) (stop : Nat) :
    (between start cuts stop).map LineRange.stop = cuts ++ [stop] := by
  induction cuts generalizing start with
  | nil => rfl
  | cons next cuts ih => exact congrArg (next :: ·) (ih next)

theorem length_between (start : Nat) (cuts : List Nat) (stop : Nat) :
    (between start cuts stop).length = cuts.length + 1 := by
  rw [← List.length_map LineRange.start, map_start_between, List.length_cons]

theorem contains_iff {r : LineRange} {line : Nat} :
    r.contains line = true ↔ r.start ≤ line ∧ line < r.stop := by
  rw [contains, Bool.and_eq_true, decide_eq_true_iff, decide_eq_true_iff]

/-- Of ascending line numbers none is up to a line that the first one is behind. -/
theorem countP_cons_of_pairwise {next : Nat} {cuts : List Nat}
    (h : (next :: cuts).Pairwise (· < ·)) (line : Nat) :
    (next :: cuts).countP (· ≤ line) =
      if next ≤ line then cuts.countP (· ≤ line) + 1 else 0 := by
  obtain ⟨hnext, -⟩ := List.pairwise_cons.1 h
  by_cases hle : next ≤ line
  · rw [if_pos hle, List.countP_cons, if_pos (decide_eq_true hle)]
  · rw [if_neg hle, List.countP_eq_zero]
    intro i hi
    have hbehind : line < i := by
      obtain rfl | hi := List.mem_cons.1 hi
      · omega
      · have hlt := hnext i hi
        omega
    simpa using hbehind

/-- Either no cut is up to a line, or the last one that is has the others that are before it. -/
theorem countP_eq_zero_or_succ {cuts : List Nat} (h : cuts.Pairwise (· < ·)) (line : Nat) :
    (cuts.countP (· ≤ line) = 0 ∧ ∀ i ∈ cuts, line < i) ∨
      ∃ k i, cuts.countP (· ≤ line) = k + 1 ∧ cuts[k]? = some i ∧ i ≤ line ∧
        ∀ j ∈ cuts, j ≤ line → j ≤ i := by
  induction cuts with
  | nil => exact .inl ⟨rfl, by simp⟩
  | cons next cuts ih =>
    obtain ⟨hnext, hcuts⟩ := List.pairwise_cons.1 h
    rw [countP_cons_of_pairwise h]
    by_cases hle : next ≤ line
    · rw [if_pos hle]
      right
      obtain ⟨hcount, hbehind⟩ | ⟨k, i, hcount, hi, hi', hlast⟩ := ih hcuts
      · refine ⟨0, next, by rw [hcount], rfl, hle, List.forall_mem_cons.2 ⟨by omega, ?_⟩⟩
        intro j hj hj'
        have hlt := hbehind j hj
        omega
      · refine ⟨k + 1, i, by rw [hcount], hi, hi', List.forall_mem_cons.2 ⟨fun _ ↦ ?_, hlast⟩⟩
        exact Nat.le_of_lt (hnext i (List.mem_of_getElem? hi))
    · rw [if_neg hle]
      refine .inl ⟨rfl, List.forall_mem_cons.2 ⟨by omega, fun j hj ↦ ?_⟩⟩
      have hlt := hnext j hj
      omega

/-- The range that a line is in has as many ranges before it as there are cuts up to the line. -/
theorem contains_between {start stop : Nat} {cuts : List Nat} (hcuts : cuts.Pairwise (· < ·))
    (hbounds : ∀ i ∈ cuts, start ≤ i ∧ i ≤ stop) {k : Nat} {r : LineRange}
    (hr : (between start cuts stop)[k]? = some r) (line : Nat) :
    r.contains line = true ↔ start ≤ line ∧ line < stop ∧ k = cuts.countP (· ≤ line) := by
  induction cuts generalizing start k with
  | nil =>
    obtain ⟨rfl, rfl⟩ : k = 0 ∧ { start, stop } = r := by
      cases k with
      | zero => exact ⟨rfl, Option.some.inj hr⟩
      | succ k => cases hr
    rw [contains_iff, List.countP_nil]
    exact ⟨fun h ↦ ⟨h.1, h.2, rfl⟩, fun h ↦ ⟨h.1, h.2.1⟩⟩
  | cons next cuts ih =>
    obtain ⟨hnext, hlater⟩ := List.pairwise_cons.1 hcuts
    obtain ⟨⟨hstart, hstop⟩, hbounds⟩ := List.forall_mem_cons.1 hbounds
    rw [countP_cons_of_pairwise hcuts]
    cases k with
    | zero =>
      have hrange : { start, stop := next } = r := Option.some.inj hr
      rw [← hrange, contains_iff]
      show start ≤ line ∧ line < next ↔ _
      split <;> omega
    | succ k =>
      have hlaterBounds : ∀ i ∈ cuts, next ≤ i ∧ i ≤ stop := fun i hi ↦
        ⟨Nat.le_of_lt (hnext i hi), (hbounds i hi).2⟩
      rw [ih hlater hlaterBounds hr]
      split <;> omega

end LineRange

/-! ### The ranges of a member -/

/-- The line opens a record format. -/
def opensRecordOn (line : String) : Bool := (Entry.ofLine? line).any Entry.opensRecord

/-- The numbers of the record lines. -/
def recordLines (texts : List String) : List Nat := texts.findIdxs opensRecordOn

theorem map_snd_filter_numberedEntries (index : Nat) (texts : List String) :
    ((numberedEntries index texts).filter opensRecordAt).map Prod.snd =
      texts.findIdxs opensRecordOn index := by
  induction texts generalizing index with
  | nil => rfl
  | cons text texts ih =>
    rw [numberedEntries_cons, List.filter_append, List.map_append, ih, List.findIdxs_cons,
      opensRecordOn]
    cases Entry.ofLine? text with
    | none => rfl
    | some e =>
      show List.map Prod.snd ([(e, index)].filter opensRecordAt) ++ _ =
        if e.opensRecord = true then _ else _
      rw [List.filter_singleton, opensRecordAt]
      cases e.opensRecord <;> rfl

/-- The numbers of the record lines are those of the cut. -/
theorem map_parts_cut_numberedEntries (texts : List String) :
    (Sections.cut opensRecordAt (numberedEntries 0 texts)).parts.map (fun part ↦ part.1.2) =
      recordLines texts := by
  rw [recordLines, ← map_snd_filter_numberedEntries, ← Sections.heads_cut, List.map_map]
  rfl

theorem map_lines_segmentsOfParts (count : Nat)
    (parts : List ((Entry × Nat) × List (Entry × Nat))) (start : Nat) :
    { start, stop := stopBefore count parts } ::
        (segmentsOfParts count parts).map Segment.lines =
      LineRange.between start (parts.map fun part ↦ part.1.2) count := by
  induction parts generalizing start with
  | nil => rfl
  | cons part parts ih => exact congrArg (_ :: ·) (ih part.1.2)

/-- The ranges of a member are cut at its record lines. -/
theorem lines_ofLines (texts : List String) :
    (Member.ofLines texts).formats.map RecordFormat.lines =
      LineRange.between 0 (recordLines texts) texts.length := by
  rw [Member.ofLines_eq_ofSegments, Member.ofSegments,
    map_formatsOfSegments fun s n ↦ s.lines_format n, segments, segmentsOfSections, List.map_cons,
    map_lines_segmentsOfParts, map_parts_cut_numberedEntries]

/-- Every format ends where the next one starts, and the last one with the member. -/
theorem map_stop_formats_ofLines (texts : List String) :
    (Member.ofLines texts).formats.map (fun f ↦ f.lines.stop) =
      recordLines texts ++ [texts.length] := by
  rw [← LineRange.map_stop_between 0 (recordLines texts) texts.length, ← lines_ofLines,
    List.map_map]
  rfl

theorem lt_length_of_mem_recordLines {texts : List String} {i : Nat} (h : i ∈ recordLines texts) :
    i < texts.length := by
  have hlt := List.lt_add_of_mem_findIdxs i h
  rwa [Nat.add_zero] at hlt

/-! ### The format of a line -/

/-- The format is the one that the record line with this number opens. -/
structure RecordFormat.OpenedOn (texts : List String) (line : Nat) (f : RecordFormat) : Prop where
  start : f.lines.start = line
  entry : ∃ text e, texts[line]? = some text ∧ Entry.ofLine? text = some e ∧
    e.opensRecord = true ∧ f.name = e.name

/-- The place among the formats of the one that a line belongs to: the format of the last record
line up to the line, or the first one where no record line stands up to it. -/
inductive OwnerIndex (texts : List String) (line : Nat) : Nat → Prop where
  | front (behind : ∀ i ∈ recordLines texts, line < i) : OwnerIndex texts line 0
  | record {k i : Nat} (opened : (recordLines texts)[k]? = some i) (le : i ≤ line)
      (last : ∀ j ∈ recordLines texts, j ≤ line → j ≤ i) : OwnerIndex texts line (k + 1)

theorem mem_numberedEntries {index i : Nat} {texts : List String} {e : Entry}
    (h : (e, i) ∈ numberedEntries index texts) :
    ∃ text, texts[i - index]? = some text ∧ Entry.ofLine? text = some e := by
  obtain ⟨⟨text, number⟩, hline, hentry⟩ := List.mem_filterMap.1 h
  obtain ⟨e', he', hsame⟩ := Option.map_eq_some_iff.1 hentry
  cases hsame
  exact ⟨text, (List.mk_mem_zipIdx_iff_le_and_getElem?_sub.1 hline).2, he'⟩

/-- Every declared format has the name of its record line and starts there. -/
theorem forall₂_formatsOfSegments_segmentsOfParts (constants count : Nat)
    (parts : List ((Entry × Nat) × List (Entry × Nat))) :
    List.Forall₂ (fun (head : Entry × Nat) (f : RecordFormat) ↦
        f.lines.start = head.2 ∧ f.name = head.1.name)
      (parts.map Prod.fst) (formatsOfSegments constants (segmentsOfParts count parts)) := by
  induction parts generalizing constants with
  | nil => exact .nil
  | cons part parts ih =>
    refine .cons ⟨?_, ?_⟩ (ih _)
    · rw [Segment.lines_format]
    · rw [Segment.format, RecordFormat.name_resolveWindow]

/-- Behind the first format there is one for each record line. -/
theorem forall₂_openedOn (texts : List String) :
    List.Forall₂ (RecordFormat.OpenedOn texts) (recordLines texts)
      (Member.ofLines texts).formats.tail := by
  set parts := (Sections.cut opensRecordAt (numberedEntries 0 texts)).parts with hparts
  have hheads : parts.map Prod.fst = (numberedEntries 0 texts).filter opensRecordAt :=
    Sections.heads_cut _
  have hentries : ∀ head ∈ parts.map Prod.fst, ∃ text, texts[head.2]? = some text ∧
      Entry.ofLine? text = some head.1 ∧ head.1.opensRecord = true := by
    intro head hmem
    obtain ⟨hmem, hopens⟩ := List.mem_filter.1 (hheads ▸ hmem)
    obtain ⟨text, htext, he⟩ := mem_numberedEntries hmem
    exact ⟨text, htext, he, hopens⟩
  obtain ⟨constants, htail⟩ : ∃ constants, (Member.ofLines texts).formats.tail =
      formatsOfSegments constants (segmentsOfParts texts.length parts) :=
    ⟨_, by rw [Member.ofLines_eq_ofSegments]; rfl⟩
  have hopened := (List.forall₂_and_left _ _).2
    ⟨hentries, forall₂_formatsOfSegments_segmentsOfParts constants texts.length parts⟩
  rw [← map_parts_cut_numberedEntries, ← hparts, htail,
    show parts.map (fun part ↦ part.1.2) = (parts.map Prod.fst).map Prod.snd by
      rw [List.map_map]; rfl, List.forall₂_map_left_iff]
  refine hopened.imp fun head f ⟨⟨text, htext, he, hopens⟩, hstart, hname⟩ ↦ ?_
  exact ⟨hstart, text, head.1, htext, he, hopens, hname⟩

/-- The number of record lines up to a line is the place of its format. -/
theorem ownerIndex_countP (texts : List String) (line : Nat) :
    OwnerIndex texts line ((recordLines texts).countP (· ≤ line)) := by
  have hascending : (recordLines texts).Pairwise (· < ·) := List.pairwise_findIdxs
  obtain ⟨hcount, hbehind⟩ | ⟨k, i, hcount, hi, hle, hlast⟩ :=
    LineRange.countP_eq_zero_or_succ hascending line
  · rw [hcount]
    exact .front hbehind
  · rw [hcount]
    exact .record hi hle hlast

/-- The formats whose ranges contain a line are the one at the place of its owner, and none behind
the end. -/
theorem contains_lines_ofLines {texts : List String} {k : Nat} {f : RecordFormat}
    (hf : (Member.ofLines texts).formats[k]? = some f) (line : Nat) :
    f.lines.contains line = true ↔
      line < texts.length ∧ k = (recordLines texts).countP (· ≤ line) := by
  have hrange : (LineRange.between 0 (recordLines texts) texts.length)[k]? = some f.lines := by
    rw [← lines_ofLines, List.getElem?_map, hf, Option.map_some]
  have hbounds : ∀ i ∈ recordLines texts, 0 ≤ i ∧ i ≤ texts.length := fun i hi ↦
    ⟨Nat.zero_le i, Nat.le_of_lt (lt_length_of_mem_recordLines hi)⟩
  rw [LineRange.contains_between List.pairwise_findIdxs hbounds hrange]
  exact ⟨fun h ↦ h.2, fun h ↦ ⟨Nat.zero_le line, h⟩⟩

theorem length_formats_ofLines (texts : List String) :
    (Member.ofLines texts).formats.length = (recordLines texts).length + 1 := by
  rw [← List.length_map RecordFormat.lines, lines_ofLines, LineRange.length_between]

/-- A line of the member has a format, and its lookup finds it. -/
theorem formatAtLine?_ofLines {texts : List String} {line : Nat} (h : line < texts.length) :
    ∃ f, (Member.ofLines texts).formats[(recordLines texts).countP (· ≤ line)]? = some f ∧
      (Member.ofLines texts).formatAtLine? line = some f := by
  have hlt : (recordLines texts).countP (· ≤ line) < (Member.ofLines texts).formats.length := by
    have hle := List.countP_le_length (p := fun i ↦ decide (i ≤ line)) (l := recordLines texts)
    rw [length_formats_ofLines]
    omega
  have hf := List.getElem?_eq_getElem hlt
  refine ⟨_, hf, ?_⟩
  rw [Member.formatAtLine?, List.find?_eq_some_iff_getElem]
  refine ⟨(contains_lines_ofLines hf line).2 ⟨h, rfl⟩, _, hlt, rfl, fun j hj ↦ ?_⟩
  have hother := contains_lines_ofLines (List.getElem?_eq_getElem (Nat.lt_trans hj hlt)) line
  rw [Bool.not_eq_true', ← Bool.not_eq_true, hother]
  omega

/-- The format whose range contains a line is the one that the lookup finds. -/
theorem formatAtLine?_ofLines_of_contains {texts : List String} {k : Nat} {f : RecordFormat}
    (hf : (Member.ofLines texts).formats[k]? = some f) {line : Nat}
    (h : f.lines.contains line = true) :
    (Member.ofLines texts).formatAtLine? line = some f := by
  obtain ⟨hline, rfl⟩ := (contains_lines_ofLines hf line).1 h
  obtain ⟨g, hg, hfound⟩ := formatAtLine?_ofLines hline
  rw [hfound, ← hg, hf]

theorem formatAtLine?_ofLines_eq_none {texts : List String} {line : Nat} :
    (Member.ofLines texts).formatAtLine? line = none ↔ texts.length ≤ line := by
  constructor
  · intro hnone
    by_contra hlt
    obtain ⟨f, -, hf⟩ := formatAtLine?_ofLines (Nat.not_le.1 hlt)
    rw [hf] at hnone
    cases hnone
  · intro hle
    rw [Member.formatAtLine?, List.find?_eq_none]
    intro f hf
    obtain ⟨k, hk⟩ := List.mem_iff_getElem?.1 hf
    rw [contains_lines_ofLines hk]
    omega

/-- A line counted from 1 is found in the format that its lookup finds. -/
theorem Member.locate?_eq_some {m : Member} {number : Nat} {f : RecordFormat} (h : 1 ≤ number)
    (hf : m.formatAtLine? (number - 1) = some f) : m.locate? number = some f.name := by
  obtain ⟨line, rfl⟩ := Nat.exists_eq_succ_of_ne_zero (Nat.ne_of_gt h)
  have hline : m.formatAtLine? line = some f := hf
  rw [locate?, hline, Option.map_some]

theorem Member.locate?_ofLines_eq_none_iff {texts : List String} {line : Nat} :
    (Member.ofLines texts).locate? line = none ↔ line = 0 ∨ texts.length < line := by
  rcases line with - | line
  · simp [locate?]
  · rw [locate?, Option.map_eq_none_iff, formatAtLine?_ofLines_eq_none]
    omega

/-! ### The command -/

section Running

variable {m : Type → Type} [Monad m] [LawfulMonad m] {files : Files m} {arguments : List String}
  {options : Options} {settings : Settings} {path : String} {number : Nat} {bytes : ByteArray}
  (hrequest : Request.ofArguments arguments = .ok (.run options (.locate path number)))
  (hsettings : loadSettings files options.config = pure (.ok settings))
  (hread : files.read path = pure (.ok bytes))
include hrequest hsettings hread

/-- What a command line with a line leads to is decided by the lookup of the line. -/
theorem run_locate :
    run files arguments =
      pure (match (Member.ofBytes bytes).locate? number with
        | some name => Outcome.answer
            (Member.locatedText number name ((options.output.or settings.output).getD .text) ++
              "\n")
        | none => .failed ((options.output.or settings.output).getD .text) options.quiet
            s!"no record format covers line {number}") := by
  rw [run_of_loadSettings_eq_pure hrequest hsettings, Command.run, readMember_of_eq_pure hread,
    pure_bind]
  refine congrArg pure ?_
  cases hname : (Member.ofBytes bytes).locate? number with
  | none => simp only [Member.outcome, hname]
  | some name => simp only [Member.outcome, hname]

/-- A line that is found is answered with the name of its format. -/
theorem exists_run_locates {name : String}
    (hname : (Member.ofBytes bytes).locate? number = some name) :
    ∃ o, run files arguments = pure o ∧
      o.Locates ((options.output.or settings.output).getD .text) number name := by
  refine ⟨_, run_locate hrequest hsettings hread, ?_⟩
  rw [hname]
  -- the line is one that was given, so its number is read back from the answer in JSON
  exact Outcome.locates_answer (Request.line_lt_of_ofArguments hrequest) _ name

/-- A line that is not found is a failure. -/
theorem exists_run_refuses (hname : (Member.ofBytes bytes).locate? number = none) :
    ∃ o, run files arguments = pure o ∧
      o.Refuses ((options.output.or settings.output).getD .text) options.quiet
        s!"no record format covers line {number}" := by
  refine ⟨_, run_locate hrequest hsettings hread, ?_⟩
  rw [hname]
  exact Outcome.refuses_failed _ _ _

end Running

/-- **The ranges of the formats tile the lines of a member, and every line is found in the format
of the last record line up to it.** The command that locates a line, counted from 1, answers with
the name of that format, and fails outside the member. -/
theorem ofLines_ranges_tile (texts : List String) :
    (Member.ofLines texts).formats.map (fun f ↦ f.lines.start) = 0 :: recordLines texts ∧
      (Member.ofLines texts).formats.map (fun f ↦ f.lines.stop) =
        recordLines texts ++ [texts.length] ∧
      (Member.ofLines texts).formats.head?.map RecordFormat.name = some RecordFormat.globalName ∧
      List.Forall₂ (RecordFormat.OpenedOn texts) (recordLines texts)
        (Member.ofLines texts).formats.tail ∧
      (∀ line, (Member.ofLines texts).formatAtLine? line = none ↔ texts.length ≤ line) ∧
      (∀ line < texts.length, ∃ k f,
        OwnerIndex texts line k ∧
          (Member.ofLines texts).formats[k]? = some f ∧
          (Member.ofLines texts).formatAtLine? line = some f ∧
          ∀ j g, (Member.ofLines texts).formats[j]? = some g →
            (g.lines.contains line = true ↔ j = k)) ∧
      ∀ {m : Type → Type} [Monad m] [LawfulMonad m] (files : Files m) (arguments : List String)
        (options : Options) (settings : Settings) (path : String) (number : Nat)
        (bytes : ByteArray),
        Request.ofArguments arguments = .ok (.run options (.locate path number)) →
        loadSettings files options.config = pure (.ok settings) →
        files.read path = pure (.ok bytes) →
        Text.lines (Text.Utf8.decodeLossy bytes) = texts →
        let form := (options.output.or settings.output).getD .text
        (1 ≤ number → number ≤ texts.length → ∃ f,
          (Member.ofLines texts).formatAtLine? (number - 1) = some f ∧
            ∃ o, run files arguments = pure o ∧ o.Locates form number f.name) ∧
        (number = 0 ∨ texts.length < number →
          ∃ o, run files arguments = pure o ∧
            o.Refuses form options.quiet s!"no record format covers line {number}") := by
  refine ⟨?_, map_stop_formats_ofLines texts, ?_, forall₂_openedOn texts,
    fun line ↦ formatAtLine?_ofLines_eq_none, ?_, ?_⟩
  · rw [← LineRange.map_start_between 0 (recordLines texts) texts.length, ← lines_ofLines,
      List.map_map]
    rfl
  · rw [Member.ofLines_eq_ofSegments]
    exact congrArg some (RecordFormat.name_resolveWindow _)
  · intro line hline
    obtain ⟨f, hf, hfound⟩ := formatAtLine?_ofLines hline
    refine ⟨_, f, ownerIndex_countP texts line, hf, hfound, fun j g hg ↦ ?_⟩
    rw [contains_lines_ofLines hg]
    exact ⟨fun h ↦ h.2, fun h ↦ ⟨hline, h⟩⟩
  · intro m _ _ files arguments options settings path number bytes hrequest hsettings hread htexts
      form
    have hmember : Member.ofBytes bytes = Member.ofLines texts := congrArg Member.ofLines htexts
    constructor
    · intro hpos hle
      obtain ⟨f, -, hfound⟩ := formatAtLine?_ofLines (Nat.sub_one_lt_of_le hpos hle)
      refine ⟨f, hfound, exists_run_locates hrequest hsettings hread ?_⟩
      rw [hmember]
      exact Member.locate?_eq_some hpos hfound
    · intro houtside
      refine exists_run_refuses hrequest hsettings hread ?_
      rw [hmember]
      exact Member.locate?_ofLines_eq_none_iff.2 houtside

/-- A file with a blank line, a record line and a comment. The comment is in the record, which is
the answer to where it belongs, in words and in JSON, and there is no fourth line. -/
theorem ofLines_ranges_tile_menu :
    let bytes := "\n                R MENU\n      * OPTIONS\n".toUTF8
    let texts := ["", "                R MENU", "      * OPTIONS"]
    let files := FileTree.files ⟨[(["MENU.dspf"], some bytes)]⟩
    let located (arguments : List String) : Outcome :=
      run files (["locate", "MENU.dspf", "--line"] ++ arguments)
    (files.read "MENU.dspf" = pure (.ok bytes) ∧ loadSettings files none = pure (.ok {}) ∧
        Text.lines (Text.Utf8.decodeLossy bytes) = texts ∧ 2 < texts.length) ∧
      (∃ k f, OwnerIndex texts 2 k ∧
        (Member.ofLines texts).formats[k]? = some f ∧
        (Member.ofLines texts).formatAtLine? 2 = some f ∧
        ∀ j g, (Member.ofLines texts).formats[j]? = some g →
          (g.lines.contains 2 = true ↔ j = k)) ∧
      ((located ["3"]).code = 0 ∧ (located ["3"]).stdout = "MENU\n" ∧
        (located ["3"]).stderr = "") ∧
      ((located ["3", "--output", "json"]).code = 0 ∧
        Json.read (located ["3", "--output", "json"]).stdout =
          .ok (.object [("format", .string "MENU"), ("line", Json.ofNat 3)]) ∧
        (located ["3", "--output", "json"]).stderr = "") ∧
      (located ["4"]).code = 1 ∧ (located ["4"]).stdout = "" ∧
        (located ["4"]).stderr = "no record format covers line 4\n" := by
  intro bytes texts files located
  have hread : files.read "MENU.dspf" = pure (.ok bytes) := rfl
  have hsettings : loadSettings files none = pure (.ok {}) := rfl
  have htexts : Text.lines (Text.Utf8.decodeLossy bytes) = texts := by decide +kernel
  have hname : ∀ f, (Member.ofLines texts).formatAtLine? (3 - 1) = some f → f.name = "MENU" := by
    intro f hf
    have hmenu : ((Member.ofLines texts).formatAtLine? (3 - 1)).map (·.name) = some "MENU" := by
      decide +kernel
    rw [hf] at hmenu
    exact Option.some.inj hmenu
  obtain ⟨-, -, -, -, -, howner, hcommand⟩ := ofLines_ranges_tile texts
  refine ⟨⟨hread, hsettings, htexts, by decide⟩, howner 2 (by decide), ?_, ?_, ?_⟩
  · obtain ⟨f, hf, o, hrun, ho⟩ := (hcommand files ["locate", "MENU.dspf", "--line", "3"] {} {}
      "MENU.dspf" 3 bytes (by decide +kernel) hsettings hread htexts).1 (by decide) (by decide)
    rw [hname f hf] at ho
    have hlocated : located ["3"] = o := hrun
    rw [hlocated]
    exact ⟨ho.code, ho.text rfl, ho.stderr⟩
  · obtain ⟨f, hf, o, hrun, ho⟩ := (hcommand files
      ["locate", "MENU.dspf", "--line", "3", "--output", "json"] { output := some .json } {}
      "MENU.dspf" 3 bytes (by decide +kernel) hsettings hread htexts).1 (by decide) (by decide)
    rw [hname f hf] at ho
    have hlocated : located ["3", "--output", "json"] = o := hrun
    rw [hlocated]
    exact ⟨ho.code, ho.json rfl, ho.stderr⟩
  · obtain ⟨o, hrun, ho⟩ := (hcommand files ["locate", "MENU.dspf", "--line", "4"] {} {}
      "MENU.dspf" 4 bytes (by decide +kernel) hsettings hread htexts).2 (.inr (by decide))
    have hlocated : located ["4"] = o := hrun
    rw [hlocated]
    exact ⟨ho.code, ho.stdout, ho.text rfl rfl⟩

end DisplayFile

import DisplayFile.Proofs.Keyword.Items

/-!
# Ends of lines in keyword text

At the end of a line a scan is settled. A name has ended and so has a constant that was followed by
nothing, while brackets and quotes that are open stay open. Two properties of keyword text rest on
this.

**A line without text says nothing** (`resolve_filter_text`). A settled scan reads the end of
another line without change, whatever is open.

**A constant can be cut anywhere but between doubled quotes** (`CutConstant.resolve_area`). Its
pieces stand on lines of their own, all but the last followed by a sign. The scan behind a piece is
in one of three places, in front of the constant, in its text or behind it (`Scan.Place`), and every
piece leads from one place to the next, so the pieces may be of any size or empty.
-/

namespace DisplayFile.Keyword

/-! ### Settled scans -/

namespace Scan

variable {α : Type}

/-- The scan is where the end of a line leaves it: no name is under construction, except in front of
open brackets or quotes, and no constant waits for what follows its quote. -/
def Settled (s : Scan α) : Prop :=
  s.mode ≠ .closing ∧ (s.mode = .plain → s.word = "")

theorem settled_start : Settled ({} : Scan α) := ⟨by simp, fun _ ↦ rfl⟩

theorem settled_endWord {s : Scan α} (h : s.mode = .plain) (stamp : α) :
    (s.endWord stamp).Settled := by
  rw [endWord]
  split
  · next hword => exact ⟨by simp [h], fun _ ↦ String.isEmpty_iff.1 hword⟩
  · exact ⟨by simp [h], fun _ ↦ rfl⟩

/-- The end of a line settles the scan. -/
theorem settled_endLine (s : Scan α) (stamp : α) : (s.endLine stamp).Settled := by
  rw [endLine]
  cases h : s.mode with
  | plain => exact settled_endWord h stamp
  | bracketed depth => exact ⟨by simp [h], by simp [h]⟩
  | quoted => exact ⟨by simp [h], by simp [h]⟩
  | closing => exact settled_endWord rfl stamp

/-- A settled scan reads the end of a line without change. -/
theorem Settled.endLine_eq {s : Scan α} (hs : s.Settled) (stamp : α) : s.endLine stamp = s := by
  obtain ⟨hclosing, hword⟩ := hs
  rw [endLine]
  cases h : s.mode with
  | plain => exact if_pos (by rw [hword h]; rfl)
  | bracketed depth => rfl
  | quoted => rfl
  | closing => exact absurd h hclosing

theorem settled_line (s : Scan α) (text : String) (stamp : α) : (s.line text stamp).Settled :=
  settled_endLine _ stamp

/-- A line without text leaves a settled scan as it is. -/
theorem Settled.line_eq {s : Scan α} (hs : s.Settled) {text : String} (htext : text.isEmpty = true)
    (stamp : α) : s.line text stamp = s := by
  have hnone : withoutContinuation text.toList = [] := by
    rw [String.isEmpty_iff.1 htext]
    rfl
  rw [line, hnone, chars_nil, hs.endLine_eq]

/-- Lines without text can be left out. -/
theorem Settled.lines_filter {s : Scan α} (hs : s.Settled) (ls : List (String × α)) :
    s.lines (ls.filter fun l ↦ !l.1.isEmpty) = s.lines ls := by
  induction ls generalizing s with
  | nil => rfl
  | cons l ls ih =>
    have hcons : s.lines (l :: ls) = (s.line l.1 l.2).lines ls := rfl
    cases h : l.1.isEmpty with
    | true => rw [List.filter_cons_of_neg (by simp [h]), ih hs, hcons, hs.line_eq h]
    | false =>
      rw [List.filter_cons_of_pos (by simp [h]), hcons]
      exact ih (settled_line s l.1 l.2)

end Scan

/-- **A line without text says nothing**, wherever it stands in a keyword area. -/
theorem resolve_filter_text (area : List Line) :
    resolve (area.filter fun l ↦ !l.text.isEmpty) = resolve area := by
  have htext : (fun l : Line ↦ !l.text.isEmpty) =
      (fun l : String × String ↦ !l.1.isEmpty) ∘ fun l ↦ (l.text, l.zone) := rfl
  simp only [resolve, htext, ← List.filter_map, Scan.settled_start.lines_filter]

example :
    resolve [⟨"TITLE('ONE", ""⟩, ⟨"", "  07      "⟩, ⟨"TWO')", "  01      "⟩] =
      { keywords := [⟨"TITLE", some "'ONETWO'", [⟨1, false⟩]⟩], constant := "" } := by
  decide

/-! ### Constants cut into pieces -/

/-- The parts of a quoted constant that are not cut: the quotes around it, and the characters of its
text, of which a quote is doubled. -/
def quotedUnits (text : List Char) : List (List Char) :=
  ['\''] :: (text.map (fun c ↦ doubled [c]) ++ [['\'']])

/-- The units make up the constant as it is printed. -/
theorem flatten_quotedUnits (text : ConstantText) :
    (quotedUnits text.chars).flatten = (Item.constant text).print := by
  simp [quotedUnits, Item.print, doubled, List.flatMap_def]

/-- A constant cut into pieces, all but the last followed by a sign. -/
structure CutConstant where
  text : ConstantText
  /-- The pieces in front of the last one, each with its sign. -/
  continued : List (List (List Char) × Char)
  last : List (List Char)
  isSign_of_mem : ∀ piece ∈ continued, isSign piece.2 = true
  join_eq : continued.flatMap Prod.fst ++ last = quotedUnits text.chars

/-- The sign behind a piece is not read. -/
theorem withoutContinuation_concat {cs : List Char} {c : Char} (h : isSign c = true) :
    withoutContinuation (cs ++ [c]) = cs := by
  rw [withoutContinuation, List.getLast?_concat, Option.any_some, if_pos h, List.dropLast_concat]

/-- A piece in a keyword area, with the sign that continues it. -/
def continuedArea (piece : List (List Char) × Char) : List Char := piece.1.flatten ++ [piece.2]

/-- What the pieces are in the keyword areas of their lines. -/
def CutConstant.areas (c : CutConstant) : List (List Char) :=
  c.continued.map continuedArea ++ [c.last.flatten]

namespace Scan

variable {α : Type} (tokens : List (Token α)) (constant : String) (stamp : α)

/-- A scan in the text of a constant. -/
def quoting (read : List Char) : Scan α :=
  { mode := .quoted, inner := String.ofList read, tokens := tokens.toArray, constant }

/-- Where a scan is behind some units of a constant, at the end of a line. -/
inductive Place (text : List Char) : List (List Char) → Scan α → Prop where
  | front : Place text [] (idle tokens constant)
  | inText (read rest : List Char) (split : text = read ++ rest) :
      Place text (['\''] :: read.map fun c ↦ doubled [c]) (quoting tokens constant read)
  | behind : Place text (quotedUnits text) (idle tokens (String.ofList text))

variable {tokens constant}

theorem chars_quoting {read cs : List Char} (h : ∀ c ∈ cs, isSign c = false) :
    (quoting tokens constant read).chars stamp (cs.map fun c ↦ doubled [c]).flatten =
      quoting tokens constant (read ++ cs) := by
  have hdoubled : (cs.map fun c ↦ doubled [c]).flatten = doubled cs := by
    simp [doubled, List.flatMap_def]
  rw [hdoubled, chars_doubled stamp h rfl, quoting, quoting, String.ofList_append]

/-- A piece that starts in the text ends in it or behind the constant. -/
theorem Place.of_inText {text read rest : List Char} (htext : ∀ c ∈ text, isSign c = false)
    (hsplit : text = read ++ rest) {piece more : List (List Char)}
    (hpiece : piece ++ more = rest.map (fun c ↦ doubled [c]) ++ [['\'']]) :
    Place tokens constant text (['\''] :: (read.map (fun c ↦ doubled [c]) ++ piece))
      (((quoting tokens constant read).chars stamp piece.flatten).endLine stamp) := by
  obtain rfl | ⟨init, last, rfl⟩ := more.eq_nil_or_concat
  · -- the piece has the closing quote
    rw [List.append_nil] at hpiece
    have hunits : (['\''] :: (read.map (fun c ↦ doubled [c]) ++ piece)) = quotedUnits text := by
      rw [hpiece, quotedUnits, hsplit, List.map_append, List.append_assoc]
    have hscan : ((quoting tokens constant read).chars stamp piece.flatten).endLine stamp =
        idle tokens (String.ofList text) := by
      rw [hpiece, List.flatten_append, chars_append,
        chars_quoting stamp fun c hc ↦ htext c (hsplit ▸ List.mem_append_right read hc), ← hsplit]
      rfl
    rw [hunits, hscan]
    exact .behind
  · -- the piece is some more of the text
    rw [List.concat_eq_append, ← List.append_assoc] at hpiece
    obtain ⟨hinit, -⟩ := List.append_inj' hpiece rfl
    obtain ⟨cs, later, rfl, rfl, -⟩ := List.append_eq_map_iff.1 hinit
    have hscan : ((quoting tokens constant read).chars stamp
        (cs.map fun c ↦ doubled [c]).flatten).endLine stamp =
          quoting tokens constant (read ++ cs) := by
      rw [chars_quoting stamp fun c hc ↦ htext c (by rw [hsplit]; simp [hc])]
      rfl
    rw [hscan, ← List.map_append]
    exact .inText (read ++ cs) later (by rw [hsplit, List.append_assoc])

/-- **Every piece leads from one place to another**, by what it is and not by how it was cut. -/
theorem Place.piece {text : List Char} (htext : ∀ c ∈ text, isSign c = false)
    {units piece more : List (List Char)} {s : Scan α} (hs : Place tokens constant text units s)
    (hpiece : units ++ piece ++ more = quotedUnits text) :
    Place tokens constant text (units ++ piece) ((s.chars stamp piece.flatten).endLine stamp) := by
  cases hs with
  | front =>
    cases piece with
    | nil => exact .front
    | cons unit piece =>
      obtain ⟨rfl, hrest⟩ := List.cons.inj hpiece
      exact Place.of_inText stamp htext (List.nil_append text).symm hrest
  | inText read rest hsplit =>
    have hrest : piece ++ more = rest.map (fun c ↦ doubled [c]) ++ [['\'']] := by
      rw [quotedUnits, hsplit, List.map_append, List.append_assoc, List.append_assoc] at hpiece
      exact List.append_cancel_left (List.cons.inj hpiece).2
    exact Place.of_inText stamp htext hsplit hrest
  | behind =>
    rw [List.append_assoc, List.append_right_eq_self] at hpiece
    obtain ⟨rfl, -⟩ := List.append_eq_nil_iff.1 hpiece
    rw [List.append_nil]
    exact .behind

/-- Behind all units the constant has ended. -/
theorem Place.eq_idle {text : List Char} {s : Scan α}
    (hs : Place tokens constant text (quotedUnits text) s) :
    s = idle tokens (String.ofList text) := by
  generalize hunits : quotedUnits text = units at hs
  cases hs with
  | front => cases hunits
  | inText read rest hsplit =>
    -- the text is shorter than the units that are read
    have hlength := congrArg List.length hunits
    simp [quotedUnits, hsplit] at hlength
  | behind => rfl

/-- The lines of the pieces lead behind the constant. The induction is over the continued pieces,
each of which hands on its place. -/
theorem Place.lines {text : List Char} (htext : ∀ c ∈ text, isSign c = false)
    {continued : List (List (List Char) × Char)} {last : List (List Char)}
    (hsigns : ∀ piece ∈ continued, isSign piece.2 = true)
    (hlast : ∀ c ∈ last.flatten.getLast?, isSign c = false) {units : List (List Char)} {s : Scan α}
    (hs : Place tokens constant text units s)
    (hjoin : units ++ (continued.flatMap Prod.fst ++ last) = quotedUnits text)
    {ls : List (String × α)}
    (hls : ls.map (fun l ↦ l.1.toList) = continued.map continuedArea ++ [last.flatten]) :
    s.lines ls = idle tokens (String.ofList text) := by
  induction continued generalizing units s ls with
  | nil =>
    obtain ⟨l, ls, rfl, hl, hnil⟩ := List.map_eq_cons_iff.1 hls
    obtain rfl := List.map_eq_nil_iff.1 hnil
    have hall : units ++ last ++ [] = quotedUnits text := (List.append_nil _).trans hjoin
    have hend := hs.piece l.2 htext hall
    rw [show units ++ last = quotedUnits text from hjoin] at hend
    have hscan : s.lines [l] = (s.chars l.2 last.flatten).endLine l.2 := by
      show s.line l.1 l.2 = _
      rw [line, hl, withoutContinuation_of_getLast? hlast]
    rw [hscan, hend.eq_idle]
  | cons piece continued ih =>
    obtain ⟨l, ls, rfl, hl, hls⟩ := List.map_eq_cons_iff.1 hls
    obtain ⟨hsign, hsigns⟩ := List.forall_mem_cons.1 hsigns
    rw [List.flatMap_cons, List.append_assoc, ← List.append_assoc units] at hjoin
    have hnext := hs.piece l.2 htext hjoin
    have hscan : s.line l.1 l.2 = (s.chars l.2 piece.1.flatten).endLine l.2 := by
      rw [line, hl, continuedArea, withoutContinuation_concat hsign]
    show (s.line l.1 l.2).lines ls = _
    rw [hscan]
    exact ih hsigns hnext hjoin hls

end Scan

namespace CutConstant

/-- The last piece is empty or has the closing quote. -/
theorem last_eq (c : CutConstant) : c.last = [] ∨ ∃ init, c.last = init ++ [['\'']] := by
  obtain hnil | ⟨init, unit, hlast⟩ := c.last.eq_nil_or_concat
  · exact .inl hnil
  · right
    have hjoin := c.join_eq
    rw [hlast, List.concat_eq_append, ← List.append_assoc, quotedUnits, ← List.cons_append] at hjoin
    obtain ⟨-, hunit⟩ := List.append_inj' hjoin rfl
    exact ⟨init, by rw [hlast, List.concat_eq_append, hunit]⟩

theorem isSign_getLast?_last (c : CutConstant) :
    ∀ x ∈ c.last.flatten.getLast?, isSign x = false := by
  obtain hnil | ⟨init, hlast⟩ := c.last_eq
  · simp [hnil]
  · intro x hx
    rw [hlast, List.flatten_append, List.flatten_singleton, List.getLast?_concat] at hx
    rw [← Option.mem_some.1 hx]
    rfl

/-- No piece has blanks at the end of its keyword area. -/
theorem trimEnd_of_mem_areas {c : CutConstant} {area : List Char} (h : area ∈ c.areas) :
    Text.trimEnd area = area := by
  obtain h | h := List.mem_append.1 h
  · obtain ⟨piece, hpiece, rfl⟩ := List.mem_map.1 h
    have hblank : Text.isBlank piece.2 = false := by
      obtain hsign | hsign : piece.2 = '+' ∨ piece.2 = '-' := by
        simpa [isSign] using c.isSign_of_mem piece hpiece
      · rw [hsign]; rfl
      · rw [hsign]; rfl
    exact Text.trimEnd_concat_of_not_isBlank _ hblank
  · rw [List.mem_singleton.1 h]
    obtain hnil | ⟨init, hlast⟩ := c.last_eq
    · rw [hnil]
      rfl
    · rw [hlast, List.flatten_append, List.flatten_singleton]
      exact Text.trimEnd_concat_of_not_isBlank _ (by decide)

/-- **A constant is read as its text however it is cut over lines.** -/
theorem resolve_area (c : CutConstant) {area : List Line}
    (h : area.map (fun l ↦ l.text.toList) = c.areas) :
    resolve area = { keywords := [], constant := String.ofList c.text.chars } := by
  have hls : (area.map fun l ↦ (l.text, l.zone)).map (fun l ↦ l.1.toList) =
      c.continued.map continuedArea ++ [c.last.flatten] := by
    rw [List.map_map]
    exact h
  -- a scan that has read nothing is in front of the constant
  have hscan : Scan.lines ({} : Scan String) (area.map fun l ↦ (l.text, l.zone)) =
      Scan.idle [] (String.ofList c.text.chars) :=
    Scan.Place.lines c.text.isSign_of_mem c.isSign_of_mem c.isSign_getLast?_last .front c.join_eq
      hls
  simp only [resolve, hscan]
  rfl

end CutConstant

end DisplayFile.Keyword

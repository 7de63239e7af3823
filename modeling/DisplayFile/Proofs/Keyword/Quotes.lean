import DisplayFile.Proofs.Keyword.Endings
import DisplayFile.Proofs.Keyword.Tokens

/-!
# What quotes protect

A quote outside brackets opens a constant, and what stands in a constant is content. This module is
about the two places where that is all that quotes do.

**In a value a quote is a character like others.** Brackets are counted there whether they stand in
quotes or not, and no bracket is kept. So a value is read as it is written exactly when there is no
bracket in its quoted parts (`keywords_resolve_payload_iff`); what is read behind it may then be
anything (`keywords_resolve_cons_line`).

**The end of a line does not close a constant.** A constant that is neither closed nor continued on
its line goes on with the next one, as if it had been continued: a sign at the end of a line makes
no difference (`Scan.line_push`). What ends first behind that line is the constant itself, and the
lines up to there say nothing of their own (`open_constant_goes_on`).
-/

namespace DisplayFile.Keyword

/-! ### Quotes in a value -/

/-- A part of a value, in quotes or not. -/
inductive Piece where
  | unquoted (chars : List Char) (plain : ∀ c ∈ chars, c ≠ '\'' ∧ isBracket c = false)
  | quoted (chars : List Char) (unquoted : ∀ c ∈ chars, c ≠ '\'')

/-- A part of a value as it is written. -/
def Piece.print : Piece → List Char
  | unquoted chars _ => chars
  | quoted chars _ => '\'' :: (chars ++ ['\''])

/-- What is written between the brackets of a keyword: parts in quotes, in which brackets may stand
as they like, and parts without quotes and brackets. -/
structure Payload where
  pieces : List Piece
  print_ne_nil : pieces.flatMap Piece.print ≠ []

namespace Payload

/-- The characters between the brackets. -/
def chars (payload : Payload) : List Char := payload.pieces.flatMap Piece.print

/-- The line on which a keyword with this payload is written. -/
def line (payload : Payload) (word : Word) (zone : String) : Line :=
  { text := String.ofList (word.chars ++ '(' :: (payload.chars ++ [')'])), zone }

/-- The keyword that is meant by the line. -/
def keyword (payload : Payload) (word : Word) (zone : String) : Keyword :=
  { name := Text.upper (String.ofList word.chars)
    value := some (String.ofList payload.chars)
    conditions := Condition.ofZone zone }

end Payload

/-- A text without brackets is balanced. -/
theorem closes_of_forall {cs : List Char} (h : ∀ c ∈ cs, isBracket c = false) :
    closes 0 cs = true := by
  induction cs with
  | nil => rfl
  | cons c cs ih =>
    obtain ⟨hc, hcs⟩ := List.forall_mem_cons.1 h
    obtain ⟨hopen, hclose⟩ : c ≠ '(' ∧ c ≠ ')' := by simpa [isBracket] using hc
    rw [closes_cons, if_neg hopen, if_neg hclose, ih hcs]

theorem withoutBrackets_of_forall {cs : List Char} (h : ∀ c ∈ cs, isBracket c = false) :
    withoutBrackets cs = cs := by
  refine List.filter_eq_self.2 fun c hc ↦ ?_
  simpa [isBracket] using h c hc

/-- What stands in front of a part with nothing left over is read apart from it. -/
theorem keywords_resolve_append {front : List Line} (hmode : (scanArea front).mode = .plain)
    (hleft : leftOver front = "") (back : List Line) :
    (resolve (front ++ back)).keywords = (resolve front).keywords ++ (resolve back).keywords := by
  rw [keywords_resolve, endings_append hmode, hleft, Ending.leftTo_empty, List.filterMap_append,
    keywords_resolve, keywords_resolve]

/-- **Behind a well-formed line everything is read as if it stood alone.** -/
theorem keywords_resolve_cons_line (l : ItemLine) (rest : List Line) :
    (resolve (l.line :: rest)).keywords = l.keywords ++ (resolve rest).keywords := by
  have hscan : scanArea [l.line] = Scan.idle _ _ := Scan.lines_map_line [l]
  have hmode : (scanArea [l.line]).mode = .plain := by rw [hscan]; rfl
  have hleft : leftOver [l.line] = "" := by rw [leftOver, hscan]; rfl
  have hline : (resolve [l.line]).keywords = l.keywords := by
    rw [← List.flatMap_singleton ItemLine.keywords l]
    exact keywords_resolve_map_line [l]
  rw [← hline]
  exact keywords_resolve_append hmode hleft rest

/-- **A payload is read as it is written exactly when no bracket stands in its quotes**, whatever
lines follow. -/
theorem keywords_resolve_payload_iff (word : Word) (payload : Payload) (zone : String)
    (rest : List Line) :
    (resolve (payload.line word zone :: rest)).keywords =
        payload.keyword word zone :: (resolve rest).keywords ↔
      ∀ c ∈ payload.chars, isBracket c = false := by
  constructor
  · intro h
    -- no keyword has brackets in its value, so this one has none
    have hmem : payload.keyword word zone ∈
        (resolve (payload.line word zone :: rest)).keywords := by
      rw [h]
      exact List.mem_cons_self
    obtain ⟨t, ht, hkeyword⟩ := exists_shaped_of_mem_resolve hmem
    have hvalue : some (String.ofList payload.chars) = (ofToken t).value :=
      congrArg Keyword.value hkeyword
    rw [ofToken] at hvalue
    split at hvalue
    · cases hvalue
    · have hchars : payload.chars = t.value.toList := by
        rw [← Option.some.inj hvalue, String.toList_ofList]
      rw [hchars]
      exact ht.value
  · intro h
    let l : ItemLine :=
      { zone
        indent := 0
        items := [(.valued word ⟨payload.chars, closes_of_forall h⟩, 0)]
        separated := .singleton _ }
    have hline : payload.line word zone = l.line := by
      simp [Payload.line, ItemLine.line, l, printItems, Item.print]
    have hkeywords : l.keywords = [payload.keyword word zone] := by
      have hne : payload.chars ≠ [] := payload.print_ne_nil
      simp [ItemLine.keywords, l, Item.keyword?, withoutBrackets_of_forall h, hne, Payload.keyword]
    rw [hline, keywords_resolve_cons_line, hkeywords, List.singleton_append]

/-- A bracket that is opened in quotes takes the keyword and the line behind it away. -/
theorem keywords_resolve_payload_open_bracket :
    let word : Word := ⟨['C', 'F', '0', '3'], by simp, by simp [isNameChar, isSign]⟩
    let payload : Payload :=
      { pieces :=
          [.unquoted ['0', '3', ' '] (by simp [isBracket]),
            .quoted ['E', 'x', 'i', 't', ' ', '('] (by simp)]
        print_ne_nil := by simp [Piece.print] }
    let rest : List Line := [⟨"DSPATR(HI)", ""⟩]
    (payload.line word "").text = "CF03(03 'Exit (')" ∧
      (resolve (payload.line word "" :: rest)).keywords = [] ∧
      (resolve (payload.line word "" :: rest)).keywords ≠
        payload.keyword word "" :: (resolve rest).keywords := by
  decide

/-! ### Constants that are left open -/

namespace Scan

variable {α : Type} {s s' : Scan α} {text : String} {es es' : List (Ending α)}

/-- **A sign at the end of a line makes no difference.** -/
theorem line_push (s : Scan α) {text : String} {sign : Char} (stamp : α)
    (hlast : ∀ c ∈ text.toList.getLast?, isSign c = false) (hsign : isSign sign = true) :
    s.line (text.push sign) stamp = s.line text stamp := by
  rw [line, line, String.toList_push, withoutContinuation_concat hsign,
    withoutContinuation_of_getLast? hlast]

/-- The scan is in a constant that starts with this text. -/
structure HoldsOpen (text : String) (s : Scan α) : Prop where
  inConstant : s.InConstant
  inner : ∃ more, s.inner = text ++ more

/-- The constant that starts with the text is still open, or it is what ended first. -/
def GoesOn (text : String) (es : List (Ending α)) (s : Scan α) : Prop :=
  es = [] ∧ HoldsOpen text s ∨ ∃ more rest, es = .constant (text ++ more) :: rest

theorem HoldsOpen.goesOn (h : HoldsOpen text s) : GoesOn text [] s := .inl ⟨rfl, h⟩

theorem HoldsOpen.goesOn_constant (h : HoldsOpen text s) (rest : List (Ending α)) :
    GoesOn text (.constant s.inner :: rest) s' := by
  obtain ⟨more, hmore⟩ := h.inner
  exact .inr ⟨more, rest, by rw [hmore]⟩

/-- What goes on over one stretch and then over another goes on over both. -/
theorem GoesOn.trans (h : GoesOn text es s) (h' : HoldsOpen text s → GoesOn text es' s') :
    GoesOn text (es ++ es') s' := by
  obtain ⟨rfl, hopen⟩ | ⟨more, rest, rfl⟩ := h
  · exact h' hopen
  · exact .inr ⟨more, rest ++ es', rfl⟩

theorem HoldsOpen.keep (h : HoldsOpen text s) (c : Char) : HoldsOpen text (s.keep c) := by
  obtain ⟨more, hmore⟩ := h.inner
  exact ⟨h.inConstant, more.push c, String.ext (by simp [Scan.keep, hmore])⟩

/-- Inside the constant a character comes behind the text, or is a quote that may close it. -/
theorem HoldsOpen.quoted (h : HoldsOpen text s) (c : Char) : HoldsOpen text (s.quoted c) := by
  rw [Scan.quoted]
  split
  · exact ⟨.inr rfl, h.inner⟩
  · split
    · exact h
    · exact h.keep c

/-- The character behind a quote ends the constant, which starts with the text, or goes on with
it. -/
theorem HoldsOpen.closing (h : HoldsOpen text s) (stamp : α) (c : Char) :
    GoesOn text (s.closingEndings stamp c) (s.closing stamp c) := by
  rw [closingEndings, Scan.closing]
  split
  · exact HoldsOpen.goesOn ⟨.inl rfl, (h.keep c).inner⟩
  · exact h.goesOn_constant _

theorem HoldsOpen.char (h : HoldsOpen text s) (stamp : α) (c : Char) :
    GoesOn text (s.charEndings stamp c) (s.char stamp c) := by
  rw [charEndings, Scan.char]
  obtain hmode | hmode := h.inConstant
  · rw [hmode]
    exact (h.quoted c).goesOn
  · rw [hmode]
    exact h.closing stamp c

/-- Over any characters the constant stays open, or it is what ends first. -/
theorem HoldsOpen.chars (h : HoldsOpen text s) (stamp : α) (cs : List Char) :
    GoesOn text (s.charsEndings stamp cs) (s.chars stamp cs) := by
  induction cs generalizing s with
  | nil => exact h.goesOn
  | cons c cs ih => exact (h.char stamp c).trans ih

/-- The end of a line closes the constant only behind a quote. -/
theorem HoldsOpen.endLine (h : HoldsOpen text s) (stamp : α) :
    GoesOn text (s.endLineEndings stamp) (s.endLine stamp) := by
  rw [endLineEndings, Scan.endLine]
  obtain hmode | hmode := h.inConstant
  · rw [hmode]
    exact h.goesOn
  · rw [hmode]
    exact h.goesOn_constant _

/-- **Nothing ends on lines in front of a constant that was open before them.** -/
theorem HoldsOpen.lines (h : HoldsOpen text s) (ls : List (String × α)) :
    GoesOn text (s.linesEndings ls) (s.lines ls) := by
  induction ls generalizing s with
  | nil => exact h.goesOn
  | cons l ls ih =>
    have hline : GoesOn text (s.lineEndings l.2 l.1) (s.line l.1 l.2) :=
      (h.chars l.2 _).trans fun hopen ↦ hopen.endLine l.2
    exact hline.trans ih

/-! ### Lines without quotes -/

/-- In a constant nothing ends where there is no quote. -/
theorem charsEndings_of_quoted (hmode : s.mode = .quoted) (stamp : α) {cs : List Char}
    (hcs : ∀ c ∈ cs, c ≠ '\'') :
    s.charsEndings stamp cs = [] ∧ (s.chars stamp cs).mode = .quoted := by
  induction cs generalizing s with
  | nil => exact ⟨rfl, hmode⟩
  | cons c cs ih =>
    obtain ⟨hc, hcs⟩ := List.forall_mem_cons.1 hcs
    have hchar : s.char stamp c = s.quoted c := by rw [char, hmode]
    have hquoted : (s.char stamp c).mode = .quoted := by
      rw [hchar, quoted, if_neg hc]
      split
      · exact hmode
      · exact hmode
    obtain ⟨hnil, hend⟩ := ih hquoted hcs
    exact ⟨by rw [charsEndings, hnil, charEndings, hmode]; rfl, hend⟩

theorem forall_mem_withoutContinuation {p : Char → Prop} {cs : List Char} (h : ∀ c ∈ cs, p c) :
    ∀ c ∈ withoutContinuation cs, p c := by
  rw [withoutContinuation]
  split
  · exact fun c hc ↦ h c (List.dropLast_subset cs hc)
  · exact h

/-- Lines without a quote end nothing inside a constant. -/
theorem linesEndings_of_quoted (hmode : s.mode = .quoted) {ls : List (String × α)}
    (hls : ∀ l ∈ ls, ∀ c ∈ l.1.toList, c ≠ '\'') : s.linesEndings ls = [] := by
  induction ls generalizing s with
  | nil => rfl
  | cons l ls ih =>
    obtain ⟨hl, hls⟩ := List.forall_mem_cons.1 hls
    obtain ⟨hnil, hquoted⟩ :=
      charsEndings_of_quoted hmode l.2 (forall_mem_withoutContinuation hl)
    have hline : s.line l.1 l.2 = s.chars l.2 (withoutContinuation l.1.toList) :=
      InLiteral.endLine_eq (.quoted hquoted) l.2
    rw [linesEndings, lineEndings, hnil, endLineEndings, hquoted, hline, ih hquoted hls]
    rfl

end Scan

/-! ### Keyword areas with an open constant -/

/-- The second part of a keyword area adds the keywords and the constants that it has alone. -/
structure OnTheirOwn (front back : List Line) : Prop where
  keywords : (resolve (front ++ back)).keywords =
    (resolve front).keywords ++ (resolve back).keywords
  closings : closings (front ++ back) = closings front ++ closings back

/-- A part that adds nothing is read on its own only if nothing ends in it. -/
theorem onTheirOwn_iff_of_endings_eq {front back : List Line}
    (h : endings (front ++ back) = endings front) : OnTheirOwn front back ↔ endings back = [] := by
  constructor
  · rintro ⟨hkeywords, hclosings⟩
    rw [keywords_resolve, h, keywords_resolve, keywords_resolve, List.self_eq_append_right]
      at hkeywords
    rw [closings, h, closings, closings, List.self_eq_append_right] at hclosings
    rcases hback : endings back with - | ⟨t | text, es⟩
    · rfl
    · rw [hback] at hkeywords
      cases hkeywords
    · rw [hback] at hclosings
      cases hclosings
  · intro hback
    exact
      { keywords := by simp [keywords_resolve, h, hback]
        closings := by simp [closings, h, hback] }

/-- **A constant that is left open goes on with the next line, continued or not.** The area is read
as if the line were continued. What ends first behind the line, if anything does, is the constant
that was open, and on lines without quotes nothing does; so they are not read on their own unless
they say nothing. -/
theorem open_constant_goes_on {before : List Line} {l : Line}
    (hopen : (scanArea (before ++ [l])).mode = .quoted)
    (hlast : ∀ c ∈ l.text.toList.getLast?, isSign c = false) (after : List Line) :
    (∀ sign, isSign sign = true →
        resolve (before ++ [l] ++ after) =
          resolve (before ++ [{ l with text := l.text.push sign }] ++ after)) ∧
      (endings (before ++ [l] ++ after) = endings (before ++ [l]) ∨
        ∃ more rest, endings (before ++ [l] ++ after) =
          endings (before ++ [l]) ++ .constant (leftOver (before ++ [l]) ++ more) :: rest) ∧
      ((∀ l' ∈ after, ∀ c ∈ l'.text.toList, c ≠ '\'') →
        (OnTheirOwn (before ++ [l]) after ↔ endings after = [])) := by
  refine ⟨fun sign hsign ↦ ?_, ?_, fun hquotes ↦ ?_⟩
  · refine resolve_append_of_scanArea_eq ?_ after
    rw [scanArea_append, scanArea_append]
    exact (Scan.line_push (scanArea before) l.zone hlast hsign).symm
  · have hheld : Scan.HoldsOpen (leftOver (before ++ [l])) (scanArea (before ++ [l])) :=
      ⟨.inl hopen, "", String.append_empty.symm⟩
    rw [endings_append_lines]
    obtain ⟨hnil, -⟩ | ⟨more, rest, hrest⟩ := hheld.lines (after.map fun l ↦ (l.text, l.zone))
    · exact .inl (by rw [hnil, List.append_nil])
    · exact .inr ⟨more, rest, by rw [hrest]⟩
  · refine onTheirOwn_iff_of_endings_eq ?_
    have hls : ∀ l' ∈ after.map fun l ↦ (l.text, l.zone), ∀ c ∈ l'.1.toList, c ≠ '\'' := by
      intro l' hl'
      obtain ⟨line, hline, rfl⟩ := List.mem_map.1 hl'
      exact hquotes line hline
    rw [endings_append_lines, Scan.linesEndings_of_quoted hopen hls, List.append_nil]

/-- A keyword on the line behind a constant that is left open. -/
theorem open_constant_goes_on_over_keyword :
    let l : Line := ⟨"'Hello", ""⟩
    let after : List Line := [⟨"World", ""⟩]
    ((scanArea ([] ++ [l])).mode = .quoted ∧ ∀ c ∈ l.text.toList.getLast?, isSign c = false) ∧
      (∀ sign, isSign sign = true →
        resolve ([] ++ [l] ++ after) =
          resolve ([] ++ [{ l with text := l.text.push sign }] ++ after)) ∧
      (endings ([] ++ [l] ++ after) = endings ([] ++ [l]) ∨
        ∃ more rest, endings ([] ++ [l] ++ after) =
          endings ([] ++ [l]) ++ .constant (leftOver ([] ++ [l]) ++ more) :: rest) ∧
      ((∀ l' ∈ after, ∀ c ∈ l'.text.toList, c ≠ '\'') →
        (OnTheirOwn ([] ++ [l]) after ↔ endings after = [])) := by
  intro l after
  have hopen : (scanArea ([] ++ [l])).mode = .quoted := by decide
  have hlast : ∀ c ∈ l.text.toList.getLast?, isSign c = false := by
    intro c hc
    have hletter : l.text.toList.getLast? = some 'o' := by decide
    rw [hletter, Option.mem_some] at hc
    rw [← hc]
    rfl
  exact ⟨⟨hopen, hlast⟩, open_constant_goes_on hopen hlast after⟩

/-- The lines behind a constant that is neither closed nor continued are not read on their own. -/
theorem not_onTheirOwn_open_constant :
    let front : List Line := [⟨"'Hello", ""⟩]
    let back : List Line := [⟨"'World' BLINK", ""⟩]
    (scanArea front).mode = .quoted ∧ resolve (front ++ back) = ⟨[], "Hello"⟩ ∧
      resolve back = ⟨[.flag "BLINK"], "World"⟩ ∧ ¬OnTheirOwn front back := by
  intro front back
  have hfront : resolve front = ⟨[], ""⟩ := by decide
  have hboth : resolve (front ++ back) = ⟨[], "Hello"⟩ := by decide
  have hback : resolve back = ⟨[.flag "BLINK"], "World"⟩ := by decide
  refine ⟨by decide, hboth, hback, fun h ↦ ?_⟩
  have hkeywords := h.keywords
  rw [hboth, hfront, hback] at hkeywords
  cases hkeywords

end DisplayFile.Keyword

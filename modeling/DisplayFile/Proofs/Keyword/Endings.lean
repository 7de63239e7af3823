import DisplayFile.Proofs.Keyword.Cuts

/-!
# What ends in keyword text

A scan collects text until something ends: a keyword, where its name does, or a quoted constant,
where it is closed. Either takes the text that is under construction and leaves none of it. This
module lists what ends in a keyword area, in order (`endings`); the keywords and the constant that
the area stands for are read off that list (`keywords_resolve`, `constant_resolve`).

**A part of an area hands on one text.** A part that ends outside brackets and quotes may have
collected text that nothing has taken, such as `RED` in `COLOR (RED)`. The first thing that ends
behind it takes that text in front of its own, and nothing else passes from one part to the next
(`endings_append`).

**So two parts are read apart when no text is left over**, and only then, unless what would take it
does not show (`apart_iff`): nothing ends in the second part, or a constant that a later one
replaces.
-/

namespace DisplayFile.Keyword

/-- What ends in keyword text, with the text that it takes. -/
inductive Ending (α : Type) where
  | keyword (token : Token α)
  | constant (text : String)
deriving DecidableEq, Repr

namespace Ending

variable {α : Type}

/-- The token of a keyword. -/
def token? : Ending α → Option (Token α)
  | keyword token => some token
  | constant _ => none

/-- The text of a constant. -/
def text? : Ending α → Option String
  | keyword _ => none
  | constant text => some text

/-- The same ending when it takes a further text in front of its own. -/
def behind (left : String) : Ending α → Ending α
  | keyword token => keyword { token with value := left ++ token.value }
  | constant text => constant (left ++ text)

@[simp] theorem token?_keyword (token : Token α) : (keyword token).token? = some token := rfl

@[simp] theorem token?_constant (text : String) : (constant text : Ending α).token? = none := rfl

@[simp] theorem text?_keyword (token : Token α) : (keyword token).text? = none := rfl

@[simp] theorem text?_constant (text : String) : (constant text : Ending α).text? = some text := rfl

@[simp] theorem behind_keyword (left : String) (token : Token α) :
    (keyword token).behind left = keyword { token with value := left ++ token.value } := rfl

@[simp] theorem behind_constant (left text : String) :
    (constant text : Ending α).behind left = constant (left ++ text) := rfl

/-- An ending is not changed by an empty text in front of it. -/
@[simp] theorem behind_empty (e : Ending α) : e.behind "" = e := by
  cases e <;> simp

/-- A text that is left over goes to the first ending. -/
def leftTo (left : String) (es : List (Ending α)) : List (Ending α) :=
  es.modifyHead (behind left)

/-- What of a text that is left over these endings do not take. -/
def leftAfter (left : String) (es : List (Ending α)) : String :=
  if es = [] then left else ""

@[simp] theorem leftTo_nil (left : String) : leftTo left ([] : List (Ending α)) = [] := rfl

@[simp] theorem leftTo_cons (left : String) (e : Ending α) (es : List (Ending α)) :
    leftTo left (e :: es) = e.behind left :: es := rfl

/-- Where no text is left over, endings are what they are. -/
@[simp] theorem leftTo_empty (es : List (Ending α)) : leftTo "" es = es := by
  cases es <;> simp

@[simp] theorem leftAfter_nil (left : String) : leftAfter left ([] : List (Ending α)) = left := rfl

@[simp] theorem leftAfter_cons (left : String) (e : Ending α) (es : List (Ending α)) :
    leftAfter left (e :: es) = "" := rfl

/-- Of two lists of endings the second gets what the first does not take. -/
theorem leftTo_append (left : String) (es es' : List (Ending α)) :
    leftTo left (es ++ es') = leftTo left es ++ leftTo (leftAfter left es) es' := by
  cases es <;> simp

/-- What the first of two lists of endings leaves, the second may take. -/
theorem leftAfter_append (left : String) (es es' : List (Ending α)) :
    leftAfter left (es ++ es') = leftAfter (leftAfter left es) es' := by
  cases es with
  | nil => rfl
  | cons e es => cases es' <;> rfl

end Ending

namespace Scan

variable {α : Type} (stamp : α)

/-! ### The endings of a scan -/

/-- What ends with the name under construction. -/
def wordEndings (s : Scan α) : List (Ending α) :=
  if s.word.isEmpty then [] else [.keyword ⟨s.word, s.inner, stamp⟩]

/-- What ends with the constant under construction and with the name in front of it. -/
def constantEndings (s : Scan α) : List (Ending α) :=
  .constant s.inner :: s.endConstant.wordEndings stamp

/-- What ends with a character outside brackets and quotes. -/
def plainEndings (s : Scan α) (c : Char) : List (Ending α) :=
  if c = ' ' then s.wordEndings stamp else []

/-- What ends with a character after a quote inside a constant. -/
def closingEndings (s : Scan α) (c : Char) : List (Ending α) :=
  if c = '\'' then [] else .constant s.inner :: s.endConstant.plainEndings stamp c

/-- What ends with a character. -/
def charEndings (s : Scan α) (c : Char) : List (Ending α) :=
  match s.mode with
  | .plain => s.plainEndings stamp c
  | .bracketed _ | .quoted => []
  | .closing => s.closingEndings stamp c

/-- What ends with characters of a line. -/
def charsEndings : Scan α → List Char → List (Ending α)
  | _, [] => []
  | s, c :: cs => s.charEndings stamp c ++ charsEndings (s.char stamp c) cs

/-- What ends with the line. -/
def endLineEndings (s : Scan α) : List (Ending α) :=
  match s.mode with
  | .plain => s.wordEndings stamp
  | .bracketed _ | .quoted => []
  | .closing => s.constantEndings stamp

/-- What ends on a line. -/
def lineEndings (s : Scan α) (text : String) : List (Ending α) :=
  let cs := withoutContinuation text.toList
  s.charsEndings stamp cs ++ (s.chars stamp cs).endLineEndings stamp

/-- What ends on lines. -/
def linesEndings : Scan α → List (String × α) → List (Ending α)
  | _, [] => []
  | s, l :: ls => s.lineEndings l.2 l.1 ++ (s.line l.1 l.2).linesEndings ls

/-- Lines end what they end in a scan that goes on with them. -/
theorem linesEndings_append (s : Scan α) (as bs : List (String × α)) :
    s.linesEndings (as ++ bs) = s.linesEndings as ++ (s.lines as).linesEndings bs := by
  induction as generalizing s with
  | nil => rfl
  | cons l as ih => rw [List.cons_append, linesEndings, ih, linesEndings, List.append_assoc]; rfl

/-! ### Endings are what a scan records -/

/-- From one scan to a later one these endings are recorded. -/
structure Records (s : Scan α) (es : List (Ending α)) (s' : Scan α) : Prop where
  tokens : s'.tokens.toList = s.tokens.toList ++ es.filterMap Ending.token?
  constant : s'.constant = (es.filterMap Ending.text?).getLast?.getD s.constant

/-- A step that changes neither tokens nor the constant records no ending. -/
theorem Records.of_eq {s s' : Scan α} (htokens : s'.tokens = s.tokens)
    (hconstant : s'.constant = s.constant) : Records s [] s' :=
  ⟨by simp [htokens], by simp [hconstant]⟩

/-- What is recorded one after the other is recorded in this order, and the constant of the later
part stands, if it has one. -/
theorem Records.trans {s s' s'' : Scan α} {es es' : List (Ending α)} (h : Records s es s')
    (h' : Records s' es' s'') : Records s (es ++ es') s'' where
  tokens := by rw [h'.tokens, h.tokens, List.filterMap_append, List.append_assoc]
  constant := by
    rw [h'.constant, h.constant, List.filterMap_append, List.getLast?_append]
    cases (es'.filterMap Ending.text?).getLast? <;> rfl

/-- The end of a name records its keyword, and nothing where there is no name. -/
theorem records_endWord (s : Scan α) : Records s (s.wordEndings stamp) (s.endWord stamp) := by
  rw [wordEndings, endWord]
  split
  · exact .of_eq rfl rfl
  · exact ⟨by simp, rfl⟩

theorem records_endConstant (s : Scan α) : Records s [.constant s.inner] s.endConstant :=
  ⟨by simp [endConstant], rfl⟩

/-- At the end of a line a constant is recorded before the name in front of it. -/
theorem records_constantEndings (s : Scan α) :
    Records s (s.constantEndings stamp) (s.endConstant.endWord stamp) :=
  s.records_endConstant.trans (records_endWord stamp s.endConstant)

/-- Outside brackets and quotes a blank records a name, and no other character records anything. -/
theorem records_plain (s : Scan α) (c : Char) :
    Records s (s.plainEndings stamp c) (s.plain stamp c) := by
  rw [plainEndings, plain]
  split
  · exact records_endWord stamp s
  · -- nothing else ends anything outside brackets and quotes
    split
    · exact .of_eq rfl rfl
    · split
      · exact .of_eq rfl rfl
      · split
        · exact .of_eq rfl rfl
        · split
          · exact .of_eq rfl rfl
          · exact .of_eq rfl rfl

/-- Nothing is recorded inside brackets, also where they are closed. -/
theorem records_bracketed (s : Scan α) (depth : Nat) (c : Char) :
    Records s [] (s.bracketed depth c) := by
  rw [bracketed.eq_def]
  split
  · exact .of_eq rfl rfl
  · split
    · cases depth with
      | zero => exact .of_eq rfl rfl
      | succ outer => exact .of_eq rfl rfl
    · exact .of_eq rfl rfl

/-- Nothing is recorded inside a constant: whether a quote closes it is decided by the next
character. -/
theorem records_quoted (s : Scan α) (c : Char) : Records s [] (s.quoted c) := by
  rw [quoted]
  split
  · exact .of_eq rfl rfl
  · split
    · exact .of_eq rfl rfl
    · exact .of_eq rfl rfl

/-- The character behind a quote records the constant unless it is a quote itself. -/
theorem records_closing (s : Scan α) (c : Char) :
    Records s (s.closingEndings stamp c) (s.closing stamp c) := by
  rw [closingEndings, closing]
  split
  · exact .of_eq rfl rfl
  · exact s.records_endConstant.trans (records_plain stamp s.endConstant c)

/-- A character records what ends with it. -/
theorem records_char (s : Scan α) (c : Char) :
    Records s (s.charEndings stamp c) (s.char stamp c) := by
  rw [charEndings, char]
  cases s.mode with
  | plain => exact records_plain stamp s c
  | bracketed depth => exact records_bracketed s depth c
  | quoted => exact records_quoted s c
  | closing => exact records_closing stamp s c

/-- A row of characters records what ends with each of them. -/
theorem records_chars (s : Scan α) (cs : List Char) :
    Records s (s.charsEndings stamp cs) (s.chars stamp cs) := by
  induction cs generalizing s with
  | nil => exact .of_eq rfl rfl
  | cons c cs ih => exact (records_char stamp s c).trans (ih _)

/-- The end of a line records a name or a closed constant, and nothing where one is still open. -/
theorem records_endLine (s : Scan α) : Records s (s.endLineEndings stamp) (s.endLine stamp) := by
  rw [endLineEndings, endLine]
  cases s.mode with
  | plain => exact records_endWord stamp s
  | bracketed depth => exact .of_eq rfl rfl
  | quoted => exact .of_eq rfl rfl
  | closing => exact records_constantEndings stamp s

/-- **A scan of lines records what ends on them.** -/
theorem records_lines (s : Scan α) (ls : List (String × α)) :
    Records s (s.linesEndings ls) (s.lines ls) := by
  induction ls generalizing s with
  | nil => exact .of_eq rfl rfl
  | cons l ls ih =>
    have hline : Records s (s.lineEndings l.2 l.1) (s.line l.1 l.2) :=
      (records_chars l.2 s _).trans (records_endLine l.2 _)
    exact hline.trans (ih _)

/-! ### Text that is left over -/

/-- One scan has a text in front of what the other has under construction, and they are alike in
all else that decides how they go on. -/
structure Ahead (left : String) (s t : Scan α) : Prop where
  mode : s.mode = t.mode
  word : s.word = t.word
  inner : s.inner = left ++ t.inner

variable {left : String} {s t : Scan α}

/-- A character that both scans collect stands behind the text in front. -/
theorem Ahead.keep (h : Ahead left s t) (c : Char) : Ahead left (s.keep c) (t.keep c) :=
  ⟨h.mode, h.word, String.ext (by simp [Scan.keep, h.inner])⟩

theorem Ahead.setMode (h : Ahead left s t) (mode : Mode) :
    Ahead left { s with mode } { t with mode } :=
  ⟨rfl, h.word, h.inner⟩

/-- The two scans end alike, but that the first takes the text with what ends first, if anything
does. -/
structure EndsAlike (left : String) (es es' : List (Ending α)) (s t : Scan α) : Prop where
  endings : es = Ending.leftTo left es'
  ahead : Ahead (Ending.leftAfter left es') s t

/-- Where nothing ends, the text is still left over. -/
theorem Ahead.endsAlike_nil (h : Ahead left s t) : EndsAlike left [] [] s t := ⟨rfl, h⟩

/-- A text that the first endings do not take goes on to the later ones. -/
theorem EndsAlike.trans {es es' fs fs' : List (Ending α)} {s' t' : Scan α}
    (h : EndsAlike left es es' s t) (h' : EndsAlike (Ending.leftAfter left es') fs fs' s' t') :
    EndsAlike left (es ++ fs) (es' ++ fs') s' t' where
  endings := by rw [h.endings, h'.endings, Ending.leftTo_append]
  ahead := by rw [Ending.leftAfter_append]; exact h'.ahead

/-- A name that ends takes the text into the value of its keyword. -/
theorem Ahead.endWord (h : Ahead left s t) :
    EndsAlike left (s.wordEndings stamp) (t.wordEndings stamp) (s.endWord stamp)
      (t.endWord stamp) := by
  rw [wordEndings, wordEndings, Scan.endWord, Scan.endWord, h.word]
  split
  · exact h.endsAlike_nil
  · exact ⟨by simp [h.inner], h.mode, rfl, rfl⟩

/-- A constant that is closed takes the text in front of its own. -/
theorem Ahead.endConstant (h : Ahead left s t) :
    EndsAlike left [.constant s.inner] [.constant t.inner] s.endConstant t.endConstant :=
  ⟨by simp [h.inner], rfl, h.word, rfl⟩

theorem Ahead.constantEndings (h : Ahead left s t) :
    EndsAlike left (s.constantEndings stamp) (t.constantEndings stamp)
      (s.endConstant.endWord stamp) (t.endConstant.endWord stamp) :=
  h.endConstant.trans (h.endConstant.ahead.endWord stamp)

/-- Outside brackets and quotes only a name can take the text. -/
theorem Ahead.plain (h : Ahead left s t) (c : Char) :
    EndsAlike left (s.plainEndings stamp c) (t.plainEndings stamp c) (s.plain stamp c)
      (t.plain stamp c) := by
  rw [plainEndings, plainEndings, Scan.plain, Scan.plain]
  split
  · exact h.endWord stamp
  · refine Ahead.endsAlike_nil ?_
    split
    · exact h.setMode .quoted
    · split
      · exact h.setMode (.bracketed 0)
      · split
        · exact h
        · split
          · exact h.keep c
          · exact ⟨h.mode, congrArg (·.push c) h.word, h.inner⟩

/-- Brackets, opened or closed, leave the text in front where it is. -/
theorem Ahead.bracketed (h : Ahead left s t) (depth : Nat) (c : Char) :
    Ahead left (s.bracketed depth c) (t.bracketed depth c) := by
  rw [Scan.bracketed.eq_def, Scan.bracketed.eq_def]
  split
  · exact h.setMode (.bracketed (depth + 1))
  · split
    · cases depth with
      | zero => exact h.setMode .plain
      | succ outer => exact h.setMode (.bracketed outer)
    · exact h.keep c

theorem Ahead.quoted (h : Ahead left s t) (c : Char) : Ahead left (s.quoted c) (t.quoted c) := by
  rw [Scan.quoted, Scan.quoted]
  split
  · exact h.setMode .closing
  · split
    · exact h
    · exact h.keep c

/-- Behind a quote the constant takes the text, or goes on with it where the quote is doubled. -/
theorem Ahead.closing (h : Ahead left s t) (c : Char) :
    EndsAlike left (s.closingEndings stamp c) (t.closingEndings stamp c) (s.closing stamp c)
      (t.closing stamp c) := by
  rw [closingEndings, closingEndings, Scan.closing, Scan.closing]
  split
  · exact ((h.keep c).setMode .quoted).endsAlike_nil
  · exact h.endConstant.trans (h.endConstant.ahead.plain stamp c)

/-- **A character ends the same things in both scans.** -/
theorem Ahead.char (h : Ahead left s t) (c : Char) :
    EndsAlike left (s.charEndings stamp c) (t.charEndings stamp c) (s.char stamp c)
      (t.char stamp c) := by
  rw [charEndings, charEndings, Scan.char, Scan.char, h.mode]
  cases t.mode with
  | plain => exact h.plain stamp c
  | bracketed depth => exact (h.bracketed depth c).endsAlike_nil
  | quoted => exact (h.quoted c).endsAlike_nil
  | closing => exact h.closing stamp c

theorem Ahead.chars (h : Ahead left s t) (cs : List Char) :
    EndsAlike left (s.charsEndings stamp cs) (t.charsEndings stamp cs) (s.chars stamp cs)
      (t.chars stamp cs) := by
  induction cs generalizing left s t with
  | nil => exact h.endsAlike_nil
  | cons c cs ih => exact (h.char stamp c).trans (ih (h.char stamp c).ahead)

/-- At the end of a line a name or a closed constant takes the text, if there is one. -/
theorem Ahead.endLine (h : Ahead left s t) :
    EndsAlike left (s.endLineEndings stamp) (t.endLineEndings stamp) (s.endLine stamp)
      (t.endLine stamp) := by
  rw [endLineEndings, endLineEndings, Scan.endLine, Scan.endLine, h.mode]
  cases t.mode with
  | plain => exact h.endWord stamp
  | bracketed depth => exact h.endsAlike_nil
  | quoted => exact h.endsAlike_nil
  | closing => exact h.constantEndings stamp

/-- **Of a text that is left over only the first ending on the lines knows.** -/
theorem Ahead.lines (h : Ahead left s t) (ls : List (String × α)) :
    EndsAlike left (s.linesEndings ls) (t.linesEndings ls) (s.lines ls) (t.lines ls) := by
  induction ls generalizing left s t with
  | nil => exact h.endsAlike_nil
  | cons l ls ih =>
    have hchars := h.chars l.2 (withoutContinuation l.1.toList)
    have hline : EndsAlike left (s.lineEndings l.2 l.1) (t.lineEndings l.2 l.1) (s.line l.1 l.2)
        (t.line l.1 l.2) := hchars.trans (hchars.ahead.endLine l.2)
    exact hline.trans (ih hline.ahead)

/-- A scan stays settled from line to line. -/
theorem Settled.lines {s : Scan α} (hs : s.Settled) (ls : List (String × α)) :
    (s.lines ls).Settled := by
  induction ls generalizing s with
  | nil => exact hs
  | cons l ls ih => exact ih (settled_line s l.1 l.2)

end Scan

/-! ### The endings of a keyword area -/

/-- What ends in a keyword area, in order. -/
def endings (area : List Line) : List (Ending String) :=
  Scan.linesEndings {} (area.map fun l ↦ (l.text, l.zone))

/-- The texts of the constants that are closed in a keyword area, in order. -/
def closings (area : List Line) : List String := (endings area).filterMap Ending.text?

/-- The text that is under construction where a keyword area ends. -/
def leftOver (area : List Line) : String := (scanArea area).inner

/-- The keyword that an ending stands for. -/
def Ending.keyword? (e : Ending String) : Option Keyword := e.token?.map ofToken

@[simp] theorem Ending.keyword?_keyword (token : Token String) :
    (keyword token).keyword? = some (ofToken token) := rfl

@[simp] theorem Ending.keyword?_constant (text : String) : (constant text).keyword? = none := rfl

theorem settled_scanArea (area : List Line) : (scanArea area).Settled :=
  Scan.settled_start.lines _

/-- The scan of an area records what ends in the area. -/
theorem records_scanArea (area : List Line) : Scan.Records {} (endings area) (scanArea area) :=
  Scan.records_lines {} _

/-- **The keywords of an area are those that end in it**, in order. -/
theorem keywords_resolve (area : List Line) :
    (resolve area).keywords = (endings area).filterMap Ending.keyword? := by
  have htokens : (scanArea area).tokens.toList = (endings area).filterMap Ending.token? := by
    rw [(records_scanArea area).tokens, List.nil_append]
  show (scanArea area).tokens.toList.map ofToken = _
  rw [htokens, List.map_filterMap]
  rfl

/-- **The constant of an area is the one that is closed last**, and empty where none is. -/
theorem constant_resolve (area : List Line) :
    (resolve area).constant = (closings area).getLast?.getD "" :=
  (records_scanArea area).constant

/-- What ends on lines behind others is what ends when the scan goes on with them. -/
theorem endings_append_lines (front back : List Line) :
    endings (front ++ back) =
      endings front ++ (scanArea front).linesEndings (back.map fun l ↦ (l.text, l.zone)) := by
  rw [endings, List.map_append, Scan.linesEndings_append]
  rfl

/-- **One text at most passes from a part of an area to the next.** -/
theorem endings_append {front : List Line} (h : (scanArea front).mode = .plain)
    (back : List Line) :
    endings (front ++ back) = endings front ++ Ending.leftTo (leftOver front) (endings back) := by
  have hword : (scanArea front).word = "" := (settled_scanArea front).2 h
  have hahead : Scan.Ahead (leftOver front) (scanArea front) {} :=
    ⟨h, hword, String.append_empty.symm⟩
  rw [endings_append_lines, (hahead.lines _).endings]
  rfl

/-! ### Parts that are read apart -/

/-- The two parts of a keyword area say together what each of them says, and the constant closed
last is that of the second part if a constant is closed there. -/
structure Apart (front back : List Line) : Prop where
  keywords : (resolve (front ++ back)).keywords =
    (resolve front).keywords ++ (resolve back).keywords
  constant : (resolve (front ++ back)).constant =
    if closings back = [] then (resolve front).constant else (resolve back).constant

/-- A text that goes to the first of these endings does not show: there is no ending, or the first
is a constant that is replaced by a later one. -/
def HidesFirst : List (Ending String) → Prop
  | [] => True
  | .keyword _ :: _ => False
  | .constant _ :: es => es.filterMap Ending.text? ≠ []

/-- A text in front of the value of a keyword shows, unless it is empty. -/
theorem ofToken_append_value_eq_iff (left : String) (t : Token String) :
    ofToken { t with value := left ++ t.value } = ofToken t ↔ left = "" := by
  constructor
  · intro h
    have hvalue := congrArg Keyword.value h
    simp only [ofToken] at hvalue
    split at hvalue
    · next hempty => exact (String.append_eq_empty_iff.1 (String.isEmpty_iff.1 hempty)).1
    · split at hvalue
      · cases hvalue
      · exact String.append_eq_right_iff.1 (Option.some.inj hvalue)
  · rintro rfl
    simp

/-- A text that goes to the first ending is seen in a keyword or in the constant closed last,
unless it is empty or hidden. -/
theorem leftTo_unseen_iff (left before : String) (es : List (Ending String)) :
    (Ending.leftTo left es).filterMap Ending.keyword? = es.filterMap Ending.keyword? ∧
        ((Ending.leftTo left es).filterMap Ending.text?).getLast?.getD before =
          (es.filterMap Ending.text?).getLast?.getD before ↔
      left = "" ∨ HidesFirst es := by
  rcases es with - | ⟨t | text, es⟩
  · simp [HidesFirst]
  · simp [HidesFirst, ofToken_append_value_eq_iff]
  · rcases htexts : es.filterMap Ending.text? with - | ⟨last, texts⟩
    · simp [HidesFirst, List.filterMap_cons, htexts]
    · simp [HidesFirst, List.filterMap_cons, htexts]

/-- **Two parts are read apart exactly when no text is left over between them or it does not
show.** -/
theorem apart_iff {front : List Line} (h : (scanArea front).mode = .plain) (back : List Line) :
    Apart front back ↔ leftOver front = "" ∨ HidesFirst (endings back) := by
  have hkeywords : (resolve (front ++ back)).keywords = (resolve front).keywords ++
      (Ending.leftTo (leftOver front) (endings back)).filterMap Ending.keyword? := by
    rw [keywords_resolve, endings_append h, List.filterMap_append, ← keywords_resolve]
  have hconstant : (resolve (front ++ back)).constant =
      ((Ending.leftTo (leftOver front) (endings back)).filterMap Ending.text?).getLast?.getD
        (resolve front).constant := by
    rw [constant_resolve, closings, endings_append h, List.filterMap_append, List.getLast?_append,
      constant_resolve, closings, Option.getD_or]
  have hlast : (if closings back = [] then (resolve front).constant else (resolve back).constant) =
      ((endings back).filterMap Ending.text?).getLast?.getD (resolve front).constant := by
    rw [constant_resolve back, closings]
    rcases (endings back).filterMap Ending.text? with - | ⟨text, texts⟩
    · rfl
    · rw [if_neg (List.cons_ne_nil _ _), List.getLast?_cons, Option.getD_some, Option.getD_some]
  rw [← leftTo_unseen_iff (leftOver front) (resolve front).constant]
  constructor
  · rintro ⟨hk, hc⟩
    rw [hkeywords, keywords_resolve back] at hk
    rw [hconstant, hlast] at hc
    exact ⟨List.append_cancel_left hk, hc⟩
  · rintro ⟨hk, hc⟩
    exact ⟨by rw [hkeywords, hk, keywords_resolve back], by rw [hconstant, hlast, hc]⟩

/-- A part that ends behind a value that is detached from its keyword. -/
theorem apart_iff_detached_value :
    let front : List Line := [⟨"COLOR (RED)", ""⟩]
    let back : List Line := [⟨"DSPATR(HI)", ""⟩]
    (scanArea front).mode = .plain ∧
      (Apart front back ↔ leftOver front = "" ∨ HidesFirst (endings back)) := by
  intro front back
  have hmode : (scanArea front).mode = .plain := by decide
  exact ⟨hmode, apart_iff hmode back⟩

/-- A value that is detached from its keyword goes to the next one, so the two parts are not read
apart. -/
theorem not_apart_detached_value :
    let front : List Line := [⟨"COLOR (RED)", ""⟩]
    let back : List Line := [⟨"DSPATR(HI)", ""⟩]
    (scanArea front).mode = .plain ∧
      resolve (front ++ back) = ⟨[.flag "COLOR", ⟨"DSPATR", some "REDHI", []⟩], ""⟩ ∧
      resolve back = ⟨[⟨"DSPATR", some "HI", []⟩], ""⟩ ∧ ¬Apart front back := by
  intro front back
  have hfront : resolve front = ⟨[.flag "COLOR"], ""⟩ := by decide
  have hboth :
      resolve (front ++ back) = ⟨[.flag "COLOR", ⟨"DSPATR", some "REDHI", []⟩], ""⟩ := by decide
  have hback : resolve back = ⟨[⟨"DSPATR", some "HI", []⟩], ""⟩ := by decide
  refine ⟨by decide, hboth, hback, fun h ↦ ?_⟩
  have hkeywords := h.keywords
  rw [hboth, hfront, hback] at hkeywords
  exact absurd hkeywords (by decide)

end DisplayFile.Keyword

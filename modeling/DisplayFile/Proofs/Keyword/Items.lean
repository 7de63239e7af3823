import DisplayFile.Keyword.Scan
import DisplayFile.Proofs.Text.Characters
import Mathlib.Data.List.Chain

/-!
# Keyword text that is printed and read back

Well-formed keyword text is a row of items on each line: quoted constants, bare names, and names
with a value in brackets. This module prints such rows (`ItemLine.line`) and shows what scanning
makes of them.

**Between items a scan is idle.** It is in the plain mode and has neither a name nor a value under
construction. An item leaves it pending (`Item.pending`), and a space or the end of the line settles
what is pending, so that the scan is idle again with the item's token added (`char_space_pending`,
`endLine_pending`). Both read the same way, so one induction over the items covers spaces inside and
at the end of a line (`endLine_chars_items`).

Names, values and constants carry the conditions under which they can be read back. Of a value it is
only asked that its brackets close; quotes in it are plain characters, in pairs or not.
-/

namespace DisplayFile.Keyword

/-! ### Items -/

/-- A character that can stand in a name. -/
def isNameChar (c : Char) : Bool :=
  c ≠ ' ' && c ≠ '\'' && c ≠ '(' && c ≠ ')' && !isSign c

/-- A name as it is written. -/
structure Word where
  chars : List Char
  ne_nil : chars ≠ []
  isNameChar_of_mem : ∀ c ∈ chars, isNameChar c = true

/-- The brackets of a text close, of which `depth` are open in front of it. -/
def closes : Nat → List Char → Bool
  | depth, [] => depth = 0
  | depth, c :: cs =>
    if c = '(' then closes (depth + 1) cs
    else if c = ')' then
      match depth with
      | 0 => false
      | outer + 1 => closes outer cs
    else closes depth cs

theorem closes_cons (depth : Nat) (c : Char) (cs : List Char) :
    closes depth (c :: cs) =
      if c = '(' then closes (depth + 1) cs
      else if c = ')' then
        match depth with
        | 0 => false
        | outer + 1 => closes outer cs
      else closes depth cs := by
  rw [closes.eq_def]

/-- The value of a keyword as it is written between its brackets. -/
structure Value where
  chars : List Char
  closes : closes 0 chars = true

/-- A value is kept without its brackets. -/
def withoutBrackets (cs : List Char) : List Char :=
  cs.filter fun c ↦ c ≠ '(' && c ≠ ')'

/-- The text of a constant. A sign in quotes is no content, so there is none. -/
structure ConstantText where
  chars : List Char
  isSign_of_mem : ∀ c ∈ chars, isSign c = false

/-- A text with every quote doubled. -/
def doubled (cs : List Char) : List Char :=
  cs.flatMap fun c ↦ if c = '\'' then ['\'', '\''] else [c]

/-- One item of keyword text. -/
inductive Item where
  | constant (text : ConstantText)
  | bare (word : Word)
  | valued (word : Word) (value : Value)

namespace Item

/-- The characters of an item. -/
def print : Item → List Char
  | constant text => '\'' :: (doubled text.chars ++ ['\''])
  | bare word => word.chars
  | valued word value => word.chars ++ '(' :: (value.chars ++ [')'])

/-- The token that an item is read as. -/
def token? {α : Type} (stamp : α) : Item → Option (Token α)
  | constant _ => none
  | bare word => some ⟨String.ofList word.chars, "", stamp⟩
  | valued word value =>
    some ⟨String.ofList word.chars, String.ofList (withoutBrackets value.chars), stamp⟩

/-- The tokens that are added by an item. -/
def tokens {α : Type} (stamp : α) (item : Item) : List (Token α) := (item.token? stamp).toList

/-- The keyword that an item stands for, on a line with this conditioning zone. -/
def keyword? (zone : String) : Item → Option Keyword
  | constant _ => none
  | bare word =>
    some
      { name := Text.upper (String.ofList word.chars)
        value := none
        conditions := Condition.ofZone zone }
  | valued word value =>
    let kept := withoutBrackets value.chars
    some
      { name := Text.upper (String.ofList word.chars)
        value := if kept = [] then none else some (String.ofList kept)
        conditions := Condition.ofZone zone }

/-- The text of a constant. -/
def text? : Item → Option String
  | constant text => some (String.ofList text.chars)
  | bare _ => none
  | valued _ _ => none

/-- The constant closed last when the item is read after `before`. -/
def constantAfter (before : String) (item : Item) : String := item.text?.getD before

end Item

/-- One line of well-formed keyword text. -/
structure ItemLine where
  zone : String
  /-- The number of spaces in front of the first item. -/
  indent : Nat
  /-- The items, each with the number of spaces after it. -/
  items : List (Item × Nat)
  /-- There is a space between any two items. -/
  separated : items.IsChain fun item _ ↦ 0 < item.2

/-- The characters of items with the spaces after them. -/
def printItems (items : List (Item × Nat)) : List Char :=
  items.flatMap fun item ↦ item.1.print ++ List.replicate item.2 ' '

/-- The line as it is written. -/
def ItemLine.line (l : ItemLine) : Line :=
  { text := String.ofList (List.replicate l.indent ' ' ++ printItems l.items), zone := l.zone }

/-- The keywords on the line. -/
def ItemLine.keywords (l : ItemLine) : List Keyword :=
  l.items.filterMap fun item ↦ item.1.keyword? l.zone

/-- The texts of the constants on the line. -/
def ItemLine.texts (l : ItemLine) : List String :=
  l.items.filterMap fun item ↦ item.1.text?

/-! ### Reading the characters of an item -/

namespace Scan

variable {α : Type} (stamp : α)

/-- Outside brackets and quotes the characters of a name lengthen the name. -/
theorem chars_of_isNameChar {cs : List Char} (h : ∀ c ∈ cs, isNameChar c = true) {s : Scan α}
    (hs : s.mode = .plain) : s.chars stamp cs = { s with word := s.word ++ String.ofList cs } := by
  induction cs generalizing s with
  | nil => simp
  | cons c cs ih =>
    obtain ⟨hc, hcs⟩ := List.forall_mem_cons.1 h
    have hchar : s.char stamp c = { s with word := s.word.push c } := by
      simp only [isNameChar, Bool.and_eq_true, decide_eq_true_eq, Bool.not_eq_true'] at hc
      obtain ⟨⟨⟨⟨hspace, hquote⟩, hopen⟩, hclose⟩, hsign⟩ := hc
      simp [char, hs, plain, hspace, hquote, hopen, hclose, hsign]
    rw [chars_cons, hchar, ih hcs (s := { s with word := s.word.push c }) hs,
      Text.push_append_ofList]

/-- In quotes a doubled text is read as the text. -/
theorem chars_doubled {cs : List Char} (h : ∀ c ∈ cs, isSign c = false) {s : Scan α}
    (hs : s.mode = .quoted) :
    s.chars stamp (doubled cs) = { s with inner := s.inner ++ String.ofList cs } := by
  induction cs generalizing s with
  | nil => simp [doubled]
  | cons c cs ih =>
    obtain ⟨hc, hcs⟩ := List.forall_mem_cons.1 h
    have hfirst : s.chars stamp (doubled [c]) = { s with inner := s.inner.push c } := by
      by_cases hquote : c = '\''
      · simp [doubled, hquote, char, hs, quoted, closing, keep]
      · simp [doubled, hquote, char, hs, quoted, hc, keep]
    have hsplit : doubled (c :: cs) = doubled [c] ++ doubled cs := by simp [doubled]
    rw [hsplit, chars_append, hfirst, ih hcs (s := { s with inner := s.inner.push c }) hs,
      Text.push_append_ofList]

/-- In brackets a text whose brackets close is read without them. -/
theorem chars_of_closes {cs : List Char} {depth : Nat} (h : closes depth cs = true) {s : Scan α}
    (hs : s.mode = .bracketed depth) :
    s.chars stamp cs =
      { s with
        mode := .bracketed 0
        inner := s.inner ++ String.ofList (withoutBrackets cs) } := by
  induction cs generalizing depth s with
  | nil =>
    have hdepth : depth = 0 := of_decide_eq_true h
    simp [withoutBrackets, ← hdepth, ← hs]
  | cons c cs ih =>
    -- the depth of the mode is the depth of `closes`, so the two go through the same three cases
    rw [closes_cons] at h
    by_cases hopen : c = '('
    · rw [if_pos hopen] at h
      have hchar : s.char stamp c = { s with mode := .bracketed (depth + 1) } := by
        simp [char, hs, bracketed, hopen]
      rw [chars_cons, hchar, ih h rfl]
      simp [withoutBrackets, hopen]
    · rw [if_neg hopen] at h
      by_cases hclose : c = ')'
      · rw [if_pos hclose] at h
        cases depth with
        | zero => cases h
        | succ outer =>
          have hchar : s.char stamp c = { s with mode := .bracketed outer } := by
            simp [char, hs, bracketed, hclose]
          rw [chars_cons, hchar, ih h rfl]
          simp [withoutBrackets, hclose]
      · rw [if_neg hclose] at h
        have hchar : s.char stamp c = { s with inner := s.inner.push c } := by
          simp [char, hs, bracketed, hopen, hclose, keep]
        have hkept : withoutBrackets (c :: cs) = c :: withoutBrackets cs := by
          simp [withoutBrackets, hopen, hclose]
        rw [chars_cons, hchar, ih h (s := { s with inner := s.inner.push c }) hs, hkept,
          Text.push_append_ofList]

/-! ### Reading items -/

/-- A scan between items. -/
def idle (tokens : List (Token α)) (constant : String) : Scan α :=
  { tokens := tokens.toArray, constant }

/-- A scan behind an item, before it is known that the item has ended. -/
def pending (tokens : List (Token α)) (constant : String) : Item → Scan α
  | .constant text =>
    { mode := .closing, inner := String.ofList text.chars, tokens := tokens.toArray,
      constant }
  | .bare word => { word := String.ofList word.chars, tokens := tokens.toArray, constant }
  | .valued word value =>
    { word := String.ofList word.chars
      inner := String.ofList (withoutBrackets value.chars)
      tokens := tokens.toArray
      constant }

theorem chars_print (tokens : List (Token α)) (constant : String) (item : Item) :
    (idle tokens constant).chars stamp item.print = pending tokens constant item := by
  cases item with
  | constant text =>
    have hopen : (idle tokens constant).char stamp '\'' =
        { mode := .quoted, tokens := tokens.toArray, constant } := rfl
    rw [Item.print, chars_cons, hopen, chars_append, chars_doubled stamp text.isSign_of_mem rfl]
    simp [pending, char, quoted]
  | bare word =>
    rw [Item.print, chars_of_isNameChar stamp word.isNameChar_of_mem rfl]
    simp [pending, idle]
  | valued word value =>
    rw [Item.print, chars_append, chars_of_isNameChar stamp word.isNameChar_of_mem rfl, chars_cons]
    have hopen (w : String) :
        char stamp { idle tokens constant with word := w } '(' =
          { mode := .bracketed 0, word := w, tokens := tokens.toArray, constant } := rfl
    rw [hopen, chars_append, chars_of_closes stamp value.closes rfl]
    simp [pending, idle, char, bracketed]

/-- A space settles what is pending. -/
theorem char_space_pending (tokens : List (Token α)) (constant : String) (item : Item) :
    (pending tokens constant item).char stamp ' ' =
      idle (tokens ++ item.tokens stamp) (item.constantAfter constant) := by
  cases item with
  | constant text => simp [pending, char, closing, endConstant, plain, endWord, idle, Item.tokens,
      Item.token?, Item.constantAfter, Item.text?]
  | bare word =>
    have hword : word.chars.isEmpty = false := by simp [word.ne_nil]
    simp [pending, char, plain, endWord, hword, idle, Item.tokens, Item.token?,
      Item.constantAfter, Item.text?]
  | valued word value =>
    have hword : word.chars.isEmpty = false := by simp [word.ne_nil]
    simp [pending, char, plain, endWord, hword, idle, Item.tokens, Item.token?,
      Item.constantAfter, Item.text?]

/-- At the end of a line what is pending is settled as by a space. -/
theorem endLine_pending (tokens : List (Token α)) (constant : String) (item : Item) :
    (pending tokens constant item).endLine stamp =
      idle (tokens ++ item.tokens stamp) (item.constantAfter constant) := by
  rw [← char_space_pending]
  cases item <;> rfl

theorem endLine_idle (tokens : List (Token α)) (constant : String) :
    (idle tokens constant).endLine stamp = idle tokens constant := rfl

theorem chars_spaces_idle (tokens : List (Token α)) (constant : String) (n : Nat) :
    (idle tokens constant).chars stamp (List.replicate n ' ') = idle tokens constant := by
  induction n with
  | zero => rfl
  | succ n ih => exact ih

/-- Reading items to the end of the line leaves the scan idle, with their tokens added. -/
theorem endLine_chars_items {items : List (Item × Nat)}
    (h : items.IsChain fun item _ ↦ 0 < item.2) (tokens : List (Token α)) (constant : String) :
    ((idle tokens constant).chars stamp (printItems items)).endLine stamp =
      idle (tokens ++ items.flatMap fun item ↦ item.1.tokens stamp)
        (items.foldl (fun before item ↦ item.1.constantAfter before) constant) := by
  induction items generalizing tokens constant with
  | nil => simp [printItems, endLine_idle]
  | cons item items ih =>
    have hsplit : printItems (item :: items) =
        item.1.print ++ (List.replicate item.2 ' ' ++ printItems items) := by
      simp [printItems]
    rw [hsplit, chars_append, chars_print]
    cases hspaces : item.2 with
    | zero =>
      -- only the last item can stand directly before the end of the line
      have hlast : items = [] := by
        cases items with
        | nil => rfl
        | cons next items =>
          rw [List.isChain_cons_cons, hspaces] at h
          exact absurd h.1 (Nat.lt_irrefl 0)
      rw [hlast]
      simpa [printItems] using endLine_pending stamp tokens constant item.1
    | succ n =>
      rw [List.replicate_succ, List.cons_append, chars_cons, char_space_pending, chars_append,
        chars_spaces_idle, ih h.tail]
      simp

end Scan

/-! ### Reading lines -/

/-- A line that does not end in a sign is not continued. -/
theorem withoutContinuation_of_getLast? {cs : List Char}
    (h : ∀ c ∈ cs.getLast?, isSign c = false) : withoutContinuation cs = cs := by
  rw [withoutContinuation, if_neg]
  rintro hany
  obtain ⟨c, hc, hsign⟩ := Option.any_eq_true _ _ |>.1 hany
  rw [h c hc] at hsign
  cases hsign

theorem isSign_getLast?_append {as bs : List Char} (has : ∀ c ∈ as.getLast?, isSign c = false)
    (hbs : ∀ c ∈ bs.getLast?, isSign c = false) :
    ∀ c ∈ (as ++ bs).getLast?, isSign c = false := by
  intro c hc
  rw [List.getLast?_append, Option.mem_def, Option.or_eq_some_iff] at hc
  rcases hc with hc | ⟨-, hc⟩
  · exact hbs c hc
  · exact has c hc

theorem isSign_getLast?_replicate (n : Nat) :
    ∀ c ∈ (List.replicate n ' ').getLast?, isSign c = false := by
  intro c hc
  rw [List.eq_of_mem_replicate (List.mem_of_getLast? hc)]
  rfl

/-- No item ends in a sign. -/
theorem Item.isSign_getLast?_print (item : Item) :
    ∀ c ∈ item.print.getLast?, isSign c = false := by
  intro c hc
  cases item with
  | constant text =>
    have hlast : (Item.constant text).print = '\'' :: doubled text.chars ++ ['\''] := rfl
    rw [hlast, List.getLast?_concat, Option.mem_some] at hc
    rw [← hc]
    rfl
  | bare word =>
    have hname := word.isNameChar_of_mem c (List.mem_of_getLast? hc)
    simp only [isNameChar, Bool.and_eq_true, Bool.not_eq_true'] at hname
    exact hname.2
  | valued word value =>
    have hlast : (Item.valued word value).print =
        (word.chars ++ '(' :: value.chars) ++ [')'] := by simp [Item.print]
    rw [hlast, List.getLast?_concat, Option.mem_some] at hc
    rw [← hc]
    rfl

theorem isSign_getLast?_printItems (items : List (Item × Nat)) :
    ∀ c ∈ (printItems items).getLast?, isSign c = false := by
  induction items with
  | nil => simp [printItems]
  | cons item items ih =>
    exact isSign_getLast?_append
      (isSign_getLast?_append item.1.isSign_getLast?_print (isSign_getLast?_replicate item.2)) ih

namespace Scan

variable {α : Type}

/-- Reading a line of items leaves the scan idle, with their tokens added. -/
theorem line_itemLine (l : ItemLine) (stamp : α) (tokens : List (Token α)) (constant : String) :
    (idle tokens constant).line l.line.text stamp =
      idle (tokens ++ l.items.flatMap fun item ↦ item.1.tokens stamp)
        (l.items.foldl (fun before item ↦ item.1.constantAfter before) constant) := by
  have hsigns := isSign_getLast?_append (isSign_getLast?_replicate l.indent)
    (isSign_getLast?_printItems l.items)
  rw [line, ItemLine.line, String.toList_ofList, withoutContinuation_of_getLast? hsigns,
    chars_append, chars_spaces_idle, endLine_chars_items stamp l.separated]

/-- Lines of items leave the scan idle, each with its own stamp on its tokens. -/
theorem lines_itemLines (ls : List (ItemLine × α)) (tokens : List (Token α)) (constant : String) :
    (idle tokens constant).lines (ls.map fun l ↦ (l.1.line.text, l.2)) =
      idle
        (tokens ++ ls.flatMap fun l ↦ l.1.items.flatMap fun item ↦ item.1.tokens l.2)
        ((ls.flatMap fun l ↦ l.1.items).foldl
          (fun before item ↦ item.1.constantAfter before) constant) := by
  induction ls generalizing tokens constant with
  | nil => simp [lines]
  | cons l ls ih =>
    show ((idle tokens constant).line l.1.line.text l.2).lines _ = _
    rw [line_itemLine, ih, List.flatMap_cons, List.append_assoc, List.flatMap_cons,
      List.foldl_append]

end Scan

/-! ### What the text says -/

/-- The keyword of an item's token is the item's keyword. -/
theorem Item.map_ofToken_tokens (zone : String) (item : Item) :
    (item.tokens zone).map ofToken = (item.keyword? zone).toList := by
  cases item with
  | constant text => rfl
  | bare word => rfl
  | valued word value =>
    simp only [tokens, token?, keyword?, ofToken, Option.toList_some, List.map_cons, List.map_nil,
      Text.isEmpty_ofList, List.isEmpty_iff]

/-- What is closed last among items is the text of the last constant. -/
theorem foldl_constantAfter (items : List (Item × Nat)) (constant : String) :
    items.foldl (fun before item ↦ item.1.constantAfter before) constant =
      (items.filterMap fun item ↦ item.1.text?).getLast?.getD constant := by
  induction items generalizing constant with
  | nil => rfl
  | cons item items ih =>
    rw [List.foldl_cons, ih, List.filterMap_cons, Item.constantAfter]
    cases item.1.text? with
    | none => rfl
    | some text => simp [List.getLast?_cons]

theorem ItemLine.map_ofToken_tokens (l : ItemLine) :
    (l.items.flatMap fun item ↦ item.1.tokens l.zone).map ofToken = l.keywords := by
  rw [List.map_flatMap, keywords, List.filterMap_eq_flatMap_toList]
  exact List.flatMap_congr fun item _ ↦ item.1.map_ofToken_tokens l.zone

/-- Reading lines of items from the start, with their zones for stamps. -/
theorem Scan.lines_map_line (ls : List ItemLine) :
    Scan.lines {} ((ls.map ItemLine.line).map fun l ↦ (l.text, l.zone)) =
      Scan.idle (ls.flatMap fun l ↦ l.items.flatMap fun item ↦ item.1.tokens l.zone)
        ((ls.flatMap ItemLine.texts).getLast?.getD "") := by
  have hlines : (ls.map ItemLine.line).map (fun l ↦ (l.text, l.zone)) =
      (ls.map fun l ↦ (l, l.zone)).map fun l ↦ (l.1.line.text, l.2) := by
    simp only [List.map_map]
    rfl
  -- a scan that has read nothing is idle
  have hscan := Scan.lines_itemLines (ls.map fun l ↦ (l, l.zone)) [] ""
  rw [← hlines, List.nil_append, List.flatMap_map, List.flatMap_map, foldl_constantAfter,
    List.filterMap_flatMap] at hscan
  exact hscan

theorem keywords_resolve_map_line (ls : List ItemLine) :
    (resolve (ls.map ItemLine.line)).keywords = ls.flatMap ItemLine.keywords := by
  simp only [resolve, Scan.lines_map_line, Scan.idle, List.map_flatMap]
  exact List.flatMap_congr fun l _ ↦ by rw [← List.map_flatMap]; exact l.map_ofToken_tokens

theorem constant_resolve_map_line (ls : List ItemLine) :
    (resolve (ls.map ItemLine.line)).constant = (ls.flatMap ItemLine.texts).getLast?.getD "" := by
  simp only [resolve, Scan.lines_map_line, Scan.idle]

/-- **Reading undoes printing.** Well-formed keyword text says exactly its items: one keyword for
each bare name and each name with a value, in order and with the conditions of its own line, and the
text of the last constant. -/
theorem resolve_map_line (ls : List ItemLine) :
    resolve (ls.map ItemLine.line) =
      { keywords := ls.flatMap ItemLine.keywords
        constant := (ls.flatMap ItemLine.texts).getLast?.getD "" } := by
  rw [← keywords_resolve_map_line, ← constant_resolve_map_line]

example :
    resolve [⟨"dspatr(HI) 'ONE O''CLOCK'", "  01      "⟩, ⟨"OVERLAY", ""⟩] =
      { keywords := [⟨"DSPATR", some "HI", [⟨1, false⟩]⟩, .flag "OVERLAY"]
        constant := "ONE O'CLOCK" } := by
  decide

end DisplayFile.Keyword

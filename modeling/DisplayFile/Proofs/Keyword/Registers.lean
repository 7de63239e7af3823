import DisplayFile.Proofs.Keyword.Boundaries
import DisplayFile.Proofs.Keyword.Size
import DisplayFile.Proofs.Keyword.Tokens

/-!
# Keyword text read with registers

A scan is in one mode at a time, and behind a quote in a constant it waits for the next character.
Keyword text can also be read without modes and without waiting. A number of open brackets and a
flag for quotes are then registers of their own, and the reader looks at the symbol ahead. Such a
reader has states that no mode stands for: inside brackets and quotes at once.

**The registers always show a scan.** From registers that show a scan a symbol is read as the scan
reads it (`Scan.step_registers`), only that the registers end a constant at its closing quote and
the scan one symbol later. So the states that no mode stands for are never passed through
(`Scan.endsIn_feed`), and at the end there are the keywords and the constant of the area
(`exists_getLast?_statesOf`).

What is known of scans is thereby known of the registers at every step: what a name and a value are
made of (`Scan.Shaped`), and how much is kept of the text (`Scan.size`).
-/

namespace DisplayFile.Keyword

/-! ### Symbols and registers -/

/-- What keyword text is made of: the characters of its lines and, behind each line, its end. -/
inductive Symbol where
  | char (c : Char)
  | lineEnd
deriving DecidableEq, Repr

/-- The lines of keyword text in one row of symbols, with a blank behind them. -/
def symbols (texts : List String) : List Symbol :=
  texts.flatMap (fun text ↦ text.toList.map .char ++ [.lineEnd]) ++ [.char ' ']

/-- A reader of keyword text. -/
structure Registers (α : Type) where
  /-- The number of brackets that are open. -/
  depth : Nat := 0
  inQuotes : Bool := false
  /-- The name under construction. -/
  word : String := ""
  /-- The value or the constant under construction. -/
  inner : String := ""
  /-- The constant closed last, or nothing. -/
  constant : String := ""
  /-- The number of lines that have ended. -/
  line : Nat := 0
  /-- The keywords that have ended. -/
  tokens : Array (Token α) := #[]

namespace Registers

variable {α : Type} (stamp : Nat → α)

/-- Outside brackets and quotes. -/
def isOutside (r : Registers α) : Bool := r.depth = 0 && !r.inQuotes

/-- Add a character to the value under construction. -/
def keep (r : Registers α) (c : Char) : Registers α :=
  { r with inner := r.inner.push c }

/-- End the name under construction, if there is one. It is stamped with its line. -/
def endWord (r : Registers α) : Registers α :=
  if r.word.isEmpty then r
  else { r with tokens := r.tokens.push ⟨r.word, r.inner, stamp r.line⟩, word := "", inner := "" }

/-- Read a symbol, with a look at the next one. A sign in front of the end of a line is never
content. -/
def step (r : Registers α) (next : Option Symbol) : Symbol → Registers α
  | .lineEnd =>
    let r := if r.isOutside then r.endWord stamp else r
    { r with line := r.line + 1 }
  | .char c =>
    if c = ' ' then if r.isOutside then r.endWord stamp else r.keep c
    else if isSign c then if r.inQuotes || next = some .lineEnd then r else r.keep c
    else if c = '\'' then
      if 0 < r.depth then r.keep c
      else if r.inQuotes then { r with inQuotes := false, constant := r.inner, inner := "" }
      else { r with inQuotes := true }
    else if c = '(' then if r.inQuotes then r.keep c else { r with depth := r.depth + 1 }
    else if c = ')' then if r.inQuotes then r.keep c else { r with depth := r.depth - 1 }
    else if r.isOutside then { r with word := r.word.push c }
    else r.keep c

/-- Whether two symbols are read at once: two quotes in a constant, which stand for an
apostrophe. -/
def readsTwo (r : Registers α) (x y : Symbol) : Bool :=
  r.depth = 0 && r.inQuotes && x = .char '\'' && y = .char '\''

/-- The states that are passed through while symbols are read, with the first and the last. -/
def states : Registers α → List Symbol → List (Registers α)
  | r, [] => [r]
  | r, [x] => [r, r.step stamp none x]
  | r, x :: y :: rest =>
    if r.readsTwo x y then r :: states (r.keep '\'') rest
    else r :: states (r.step stamp (some y) x) (y :: rest)

end Registers

/-! ### What a scan shows -/

namespace Scan

variable {α : Type} (stamp : Nat → α)

/-- The registers of a scan on a line. A constant is shown as ended where its closing quote is. -/
def registers (s : Scan α) (line : Nat) : Registers α :=
  match s.mode with
  | .plain => { word := s.word, inner := s.inner, constant := s.constant, line, tokens := s.tokens }
  | .bracketed depth =>
    { depth := depth + 1, word := s.word, inner := s.inner, constant := s.constant, line,
      tokens := s.tokens }
  | .quoted =>
    { inQuotes := true, word := s.word, inner := s.inner, constant := s.constant, line,
      tokens := s.tokens }
  | .closing => { word := s.word, constant := s.inner, line, tokens := s.tokens }

/-- Read a symbol on a line as a scan does, with a look at the next one for signs only. -/
def symbol (s : Scan α) (line : Nat) (next : Option Symbol) : Symbol → Scan α
  | .lineEnd => s.endLine (stamp line)
  | .char c => if isSign c && next = some .lineEnd then s else s.char (stamp line) c

/-- The line of what comes behind a symbol. -/
def lineBehind (line : Nat) : Symbol → Nat
  | .lineEnd => line + 1
  | .char _ => line

/-- Read symbols as a scan does. -/
def feed : Scan α → Nat → List Symbol → Scan α
  | s, _, [] => s
  | s, line, x :: xs => feed (s.symbol stamp line xs.head? x) (lineBehind line x) xs

theorem registers_endConstant {s : Scan α} (h : s.mode = .closing) (line : Nat) :
    s.endConstant.registers line = s.registers line := by
  simp [registers, endConstant, h]

theorem registers_endWord {s : Scan α} (h : s.mode = .plain) (line : Nat) :
    (s.endWord (stamp line)).registers line = (s.registers line).endWord stamp := by
  rw [endWord, Registers.endWord]
  by_cases hword : s.word.isEmpty <;> simp [registers, h, hword]

/-- A character is read as a blank, a sign, a quote, a bracket or as any other. -/
theorem char_cases (c : Char) :
    c = ' ' ∨ (c = '+' ∨ c = '-') ∨ c = '\'' ∨ c = '(' ∨ c = ')' ∨
      c ≠ ' ' ∧ isSign c = false ∧ c ≠ '\'' ∧ c ≠ '(' ∧ c ≠ ')' := by
  simp only [isSign, Bool.or_eq_false_iff, decide_eq_false_iff_not, ne_eq]
  tauto

variable {s : Scan α} (line : Nat) (next : Option Symbol) (c : Char)

/-- Inside brackets or a constant, a scan keeps a character where the registers do. -/
theorem registers_keep (h : s.mode = .quoted ∨ ∃ depth, s.mode = .bracketed depth) :
    (s.registers line).isOutside = false ∧
      (s.keep c).registers line = (s.registers line).keep c := by
  obtain h | ⟨depth, h⟩ := h <;>
    simp [registers, keep, Registers.keep, Registers.isOutside, h]

/-- Outside brackets and quotes. -/
theorem registers_symbol_of_plain (h : s.mode = .plain) :
    (s.symbol stamp line next (.char c)).registers line =
      (s.registers line).step stamp next (.char c) := by
  have hend := registers_endWord stamp h line
  have houtside : (s.registers line).isOutside = true := by
    rw [registers, h]
    rfl
  -- here and in the other modes both sides look for the same characters, in different orders
  obtain rfl | hsign | rfl | rfl | rfl | hother := char_cases c
  · simp [symbol, char, plain, h, Registers.step, houtside, hend, isSign]
  · obtain rfl | rfl := hsign <;> by_cases hnext : next = some .lineEnd <;>
      simp [symbol, char, plain, h, Registers.step, hnext, isSign, keep, Registers.keep, registers]
  · simp [symbol, char, plain, h, Registers.step, isSign, registers]
  · simp [symbol, char, plain, h, Registers.step, isSign, registers]
  · simp [symbol, char, plain, h, Registers.step, isSign, registers]
  · simp [symbol, char, plain, h, Registers.step, hother, registers, Registers.isOutside]

/-- Inside brackets. -/
theorem registers_symbol_of_bracketed {depth : Nat} (h : s.mode = .bracketed depth) :
    (s.symbol stamp line next (.char c)).registers line =
      (s.registers line).step stamp next (.char c) := by
  obtain ⟨hinside, hkeep⟩ := registers_keep line c (.inr ⟨depth, h⟩)
  obtain rfl | hsign | rfl | rfl | rfl | hother := char_cases c
  · simp [symbol, char, bracketed, h, Registers.step, isSign, hkeep, hinside]
  · obtain rfl | rfl := hsign <;> by_cases hnext : next = some .lineEnd <;>
      simp [symbol, char, bracketed, h, Registers.step, hnext, isSign, keep, Registers.keep,
        registers]
  · simp [symbol, char, bracketed, h, Registers.step, isSign, keep, Registers.keep, registers]
  · simp [symbol, char, bracketed, h, Registers.step, isSign, registers]
  · cases depth <;> simp [symbol, char, bracketed, h, Registers.step, isSign, registers]
  · simp [symbol, char, bracketed, h, Registers.step, hother, hkeep, hinside]

/-- Inside a constant. The registers end it at its quote. -/
theorem registers_symbol_of_quoted (h : s.mode = .quoted) :
    (s.symbol stamp line next (.char c)).registers line =
      (s.registers line).step stamp next (.char c) := by
  obtain ⟨hinside, hkeep⟩ := registers_keep line c (.inl h)
  have hquotes : (s.registers line).inQuotes = true := by rw [registers, h]
  obtain rfl | hsign | rfl | rfl | rfl | hother := char_cases c
  · simp [symbol, char, quoted, h, Registers.step, isSign, hkeep, hinside]
  · obtain rfl | rfl := hsign <;> simp [symbol, char, quoted, h, Registers.step, isSign, hquotes]
  · simp [symbol, char, quoted, h, Registers.step, isSign, registers]
  · simp [symbol, char, quoted, h, Registers.step, isSign, hkeep, hquotes]
  · simp [symbol, char, quoted, h, Registers.step, isSign, hkeep, hquotes]
  · simp [symbol, char, quoted, h, Registers.step, hother, hkeep, hinside]

/-- Behind a quote, which ends the constant when no other quote follows. -/
theorem registers_symbol_of_closing (h : s.mode = .closing) (hc : c ≠ '\'') :
    (s.symbol stamp line next (.char c)).registers line =
      (s.registers line).step stamp next (.char c) := by
  have hended := registers_symbol_of_plain stamp line next c (s := s.endConstant) rfl
  rw [registers_endConstant h] at hended
  rw [← hended, symbol, symbol]
  split
  · exact (registers_endConstant h line).symm
  · simp [char, closing, h, hc, endConstant]

theorem registers_endWord_of_plain (h : s.mode = .plain) :
    (s.endWord (stamp line)).registers (line + 1) =
      (s.registers line).step stamp next .lineEnd := by
  by_cases hword : s.word.isEmpty <;>
    simp [endWord, Registers.endWord, Registers.step, registers, h, hword, Registers.isOutside]

/-- The end of a line is a symbol like others to the registers. -/
theorem registers_endLine (s : Scan α) :
    (s.endLine (stamp line)).registers (line + 1) =
      (s.registers line).step stamp next .lineEnd := by
  rw [endLine]
  cases h : s.mode with
  | plain => exact registers_endWord_of_plain stamp line next h
  | bracketed depth => simp [Registers.step, registers, h, Registers.isOutside]
  | quoted => simp [Registers.step, registers, h, Registers.isOutside]
  | closing =>
    rw [← registers_endConstant h]
    exact registers_endWord_of_plain stamp line next rfl

/-- **Registers that show a scan read a symbol as the scan does.** -/
theorem step_registers (s : Scan α) {x : Symbol} (hx : s.mode = .closing → x ≠ .char '\'') :
    (s.registers line).step stamp next x =
      (s.symbol stamp line next x).registers (lineBehind line x) := by
  cases x with
  | lineEnd => exact (registers_endLine stamp line next s).symm
  | char c =>
    cases hmode : s.mode with
    | plain => exact (registers_symbol_of_plain stamp line next c hmode).symm
    | bracketed depth => exact (registers_symbol_of_bracketed stamp line next c hmode).symm
    | quoted => exact (registers_symbol_of_quoted stamp line next c hmode).symm
    | closing =>
      have hc : c ≠ '\'' := fun h ↦ hx hmode (congrArg Symbol.char h)
      exact (registers_symbol_of_closing stamp line next c hmode hc).symm

/-- Two quotes in a constant are read at once. -/
theorem keep_registers {s : Scan α} (h : s.mode = .quoted) :
    (s.registers line).keep '\'' =
      ((s.char (stamp line) '\'').char (stamp line) '\'').registers line := by
  simp [char, quoted, closing, h, registers, keep, Registers.keep]

/-- Two symbols are read at once exactly when they are two quotes inside a constant. -/
theorem readsTwo_registers_iff {s : Scan α} {x y : Symbol} :
    (s.registers line).readsTwo x y = true ↔
      s.mode = .quoted ∧ x = .char '\'' ∧ y = .char '\'' := by
  cases h : s.mode <;> simp [Registers.readsTwo, registers, h]

theorem mode_plain_ne_closing {s : Scan α} (h : s.mode ≠ .closing) (zone : α) (c : Char) :
    (s.plain zone c).mode ≠ .closing := by
  have hend : (s.endWord zone).mode = s.mode := by
    rw [endWord]
    split <;> rfl
  rw [plain]
  split_ifs <;> simp [keep, h, hend]

theorem mode_bracketed_ne_closing {s : Scan α} (h : s.mode ≠ .closing) (depth : Nat) (c : Char) :
    (s.bracketed depth c).mode ≠ .closing := by
  rw [bracketed.eq_def]
  cases depth <;> simp only <;> split_ifs <;> simp [keep, h]

/-- A scan that waits has read a quote in a constant, or has passed over a sign. -/
theorem of_mode_symbol_eq_closing {s : Scan α} {next : Option Symbol} {x : Symbol}
    (h : (s.symbol stamp line next x).mode = .closing) :
    (s.mode = .quoted ∧ x = .char '\'') ∨ next = some .lineEnd := by
  cases x with
  | lineEnd => exact absurd h (settled_endLine s (stamp line)).1
  | char c =>
    rw [symbol] at h
    split at h
    · next hsign => exact .inr (of_decide_eq_true (Bool.and_eq_true_iff.1 hsign).2)
    · rw [char] at h
      cases hmode : s.mode with
      | plain =>
        rw [hmode] at h
        exact absurd h (mode_plain_ne_closing (by simp [hmode]) _ c)
      | bracketed depth =>
        rw [hmode] at h
        exact absurd h (mode_bracketed_ne_closing (by simp [hmode]) depth c)
      | quoted =>
        by_cases hc : c = '\''
        · exact .inl ⟨rfl, congrArg Symbol.char hc⟩
        · simp only [hmode, quoted, if_neg hc] at h
          split at h <;> simp [keep, hmode] at h
      | closing =>
        simp only [hmode, closing] at h
        split at h
        · cases h
        · exact absurd h (mode_plain_ne_closing (by simp [endConstant]) _ c)

/-- A symbol keeps a scan in shape. -/
theorem Shaped.symbol {s : Scan α} (hs : s.Shaped) (next : Option Symbol) (x : Symbol) :
    (s.symbol stamp line next x).Shaped := by
  cases x with
  | lineEnd => exact hs.endLine (stamp line)
  | char c =>
    rw [Scan.symbol]
    split
    · exact hs
    · exact hs.char (stamp line) c

/-- The registers show a scan that is well formed. -/
def Shows (r : Registers α) : Prop := ∃ (s : Scan α) (line : Nat), s.Shaped ∧ r = s.registers line

/-- All the states show a scan, and the last one shows this scan. -/
def EndsIn (states : List (Registers α)) (s : Scan α) : Prop :=
  (∀ r ∈ states, Shows r) ∧ ∃ line, states.getLast? = some (s.registers line)

theorem EndsIn.cons {states : List (Registers α)} {s s' : Scan α} (h : EndsIn states s')
    (hs : s.Shaped) (line : Nat) : EndsIn (s.registers line :: states) s' := by
  obtain ⟨hshow, line', hlast⟩ := h
  refine ⟨List.forall_mem_cons.2 ⟨⟨s, line, hs, rfl⟩, hshow⟩, line', ?_⟩
  rw [List.getLast?_cons, hlast, Option.getD_some]

theorem endsIn_singleton {s : Scan α} (hs : s.Shaped) (line : Nat) :
    EndsIn [s.registers line] s :=
  ⟨List.forall_mem_singleton.2 ⟨s, line, hs, rfl⟩, line, rfl⟩

/-- **Reading symbols only passes through states that show a scan**, up to the scan that has read
them all. The induction is on how many symbols the registers read at once. -/
theorem endsIn_feed {s : Scan α} (hs : s.Shaped) {xs : List Symbol}
    (hx : s.mode = .closing → xs.head? ≠ some (.char '\'')) :
    EndsIn (Registers.states stamp (s.registers line) xs) (s.feed stamp line xs) := by
  generalize hr : s.registers line = r
  fun_induction Registers.states stamp r xs generalizing s line with
  | case1 r =>
    rw [← hr]
    exact endsIn_singleton hs line
  | case2 r x =>
    have hfirst : s.mode = .closing → x ≠ .char '\'' := fun h heq ↦ hx h (congrArg some heq)
    rw [← hr, step_registers stamp line none s hfirst]
    exact (endsIn_singleton (hs.symbol stamp line none x) _).cons hs line
  | case3 r x y rest htwo ih =>
    subst hr
    obtain ⟨hmode, rfl, rfl⟩ := (readsTwo_registers_iff line).1 htwo
    have hkept := (hs.char (stamp line) '\'').char (stamp line) '\''
    refine EndsIn.cons (ih line hkept ?_ (keep_registers stamp line hmode).symm) hs line
    simp [char, quoted, closing, hmode]
  | case4 r x y rest hone ih =>
    subst hr
    have hfirst : s.mode = .closing → x ≠ .char '\'' := fun h heq ↦ hx h (congrArg some heq)
    refine EndsIn.cons (ih (lineBehind line x) (hs.symbol stamp line (some y) x) ?_
      (step_registers stamp line (some y) s hfirst).symm) hs line
    -- a scan that waits in front of a quote has read the first of two that are read at once
    intro hclosing hy
    obtain rfl : y = .char '\'' := Option.some.inj hy
    obtain ⟨hmode, rfl⟩ | hnext := of_mode_symbol_eq_closing stamp line hclosing
    · exact hone ((readsTwo_registers_iff line).2 ⟨hmode, rfl, rfl⟩)
    · cases hnext

/-! ### Lines -/

/-- A line is read without the sign that continues it, and then its end. -/
theorem feed_line (s : Scan α) (text : List Char) (rest : List Symbol) :
    s.feed stamp line (text.map .char ++ .lineEnd :: rest) =
      ((s.chars (stamp line) (withoutContinuation text)).endLine (stamp line)).feed stamp (line + 1)
        rest := by
  induction text generalizing s with
  | nil => rfl
  | cons c cs ih =>
    cases cs with
    | nil =>
      by_cases hsign : isSign c = true <;>
        simp [feed, symbol, lineBehind, withoutContinuation, hsign]
    | cons d ds =>
      have hnext : s.symbol stamp line (some (.char d)) (.char c) = s.char (stamp line) c := by
        simp [symbol]
      have hcons : withoutContinuation (c :: d :: ds) = c :: withoutContinuation (d :: ds) := by
        simp only [withoutContinuation, List.getLast?_cons_cons, List.dropLast_cons_cons]
        split <;> rfl
      show (s.symbol stamp line (some (.char d)) (.char c)).feed stamp line
        ((d :: ds).map .char ++ .lineEnd :: rest) = _
      rw [hnext, hcons, chars_cons, ih]

/-- **The symbols of lines are read as the lines**, and the blank behind them. -/
theorem feed_symbols (s : Scan α) (ls : List (String × α))
    (hstamp : ∀ i l, ls[i]? = some l → stamp (line + i) = l.2) :
    s.feed stamp line (symbols (ls.map (·.1))) =
      (s.lines ls).char (stamp (line + ls.length)) ' ' := by
  induction ls generalizing s line with
  | nil => rfl
  | cons l ls ih =>
    have hfirst : stamp line = l.2 := hstamp 0 l rfl
    have hrest : ∀ i l', ls[i]? = some l' → stamp (line + 1 + i) = l'.2 := by
      intro i l' hi
      rw [Nat.add_assoc, Nat.add_comm 1 i]
      exact hstamp (i + 1) l' hi
    have hsymbols : symbols ((l :: ls).map (·.1)) =
        l.1.toList.map .char ++ .lineEnd :: symbols (ls.map (·.1)) := by
      simp [symbols]
    rw [hsymbols, feed_line, hfirst, ih _ _ hrest, List.length_cons, Nat.add_assoc,
      Nat.add_comm 1]
    rfl

/-- The blank behind the last line ends nothing. -/
theorem Settled.registers_blank {s : Scan α} (hs : s.Settled) (zone : α) :
    ((s.char zone ' ').registers line).tokens = s.tokens ∧
      ((s.char zone ' ').registers line).constant = s.constant := by
  cases hmode : s.mode with
  | plain => simp [char, plain, endWord, registers, hmode, hs.2 hmode]
  | bracketed depth => simp [char, bracketed, keep, registers, hmode]
  | quoted => simp [char, quoted, isSign, keep, registers, hmode]
  | closing => exact absurd hmode hs.1

end Scan

/-! ### Keyword areas -/

/-- The conditioning zone of a line of a keyword area, and none behind the last. -/
def zoneOf (area : List Line) (line : Nat) : String := (area[line]?.map (·.zone)).getD ""

/-- The states that are passed through while a keyword area is read with registers. -/
def statesOf (area : List Line) : List (Registers String) :=
  Registers.states (zoneOf area) {} (symbols (area.map (·.text)))

/-- The states of an area end in its scan, with the blank that flushes it behind. -/
theorem endsIn_statesOf (area : List Line) :
    ∃ zone, Scan.EndsIn (statesOf area) ((scanArea area).char zone ' ') := by
  have hzones : ∀ i l, (area.map fun l ↦ (l.text, l.zone))[i]? = some l →
      zoneOf area (0 + i) = l.2 := by
    intro i l hi
    rw [List.getElem?_map, Option.map_eq_some_iff] at hi
    obtain ⟨line, hline, rfl⟩ := hi
    rw [zoneOf, Nat.zero_add, hline]
    rfl
  have hfeed := Scan.feed_symbols (zoneOf area) 0 {} _ hzones
  rw [List.map_map] at hfeed
  refine ⟨_, hfeed ▸ Scan.endsIn_feed (zoneOf area) 0 Scan.shaped_start ?_⟩
  simp

/-- **Reading with registers gives what the area says.** -/
theorem exists_getLast?_statesOf (area : List Line) :
    ∃ last, (statesOf area).getLast? = some last ∧
      last.tokens = (scanArea area).tokens ∧ last.constant = (scanArea area).constant := by
  obtain ⟨zone, -, line, hlast⟩ := endsIn_statesOf area
  exact ⟨_, hlast, (settled_scanArea area).registers_blank line zone⟩

/-! ### What the registers hold -/

/-- A state is not inside brackets and quotes at once, and outside quotes the value under
construction has no brackets. -/
structure Registers.Sound {α : Type} (r : Registers α) : Prop where
  apart : r.depth = 0 ∨ r.inQuotes = false
  inner : r.inQuotes = false → ∀ c ∈ r.inner.toList, c ≠ '(' ∧ c ≠ ')'

theorem ne_of_isBracket {c : Char} (h : isBracket c = false) : c ≠ '(' ∧ c ≠ ')' := by
  simpa [isBracket] using h

/-- The registers that show a well-formed scan are sound. -/
theorem Scan.Shows.sound {α : Type} {r : Registers α} (h : Scan.Shows r) : r.Sound := by
  obtain ⟨s, line, hs, rfl⟩ := h
  have hinner (hmode : ¬s.InConstant) : ∀ c ∈ s.inner.toList, c ≠ '(' ∧ c ≠ ')' :=
    fun c hc ↦ ne_of_isBracket (hs.inner hmode c hc)
  rw [Scan.registers]
  cases hmode : s.mode with
  | plain => exact ⟨.inl rfl, fun _ ↦ hinner (by simp [Scan.InConstant, hmode])⟩
  | bracketed depth => exact ⟨.inr rfl, fun _ ↦ hinner (by simp [Scan.InConstant, hmode])⟩
  | quoted => exact ⟨.inl rfl, fun h ↦ Bool.noConfusion h⟩
  | closing => exact ⟨.inl rfl, fun _ ↦ by simp⟩

/-- The characters that no name has. -/
def notInNames : List Char := [' ', '\'', '(', ')', '+', '-']

theorem not_mem_notInNames {c : Char} (h : isNameChar c = true) : c ∉ notInNames := by
  simpa [isNameChar, isSign, notInNames, and_assoc] using h

/-- The value of a keyword is not empty, and has no brackets when its token has none. -/
theorem Token.Shaped.value_ofToken {t : Token String} (ht : t.Shaped) {v : String}
    (hv : v ∈ (ofToken t).value) : v ≠ "" ∧ ∀ c ∈ v.toList, c ≠ '(' ∧ c ≠ ')' := by
  obtain ⟨hempty, rfl⟩ : ¬t.value.isEmpty ∧ t.value = v := by
    simpa [ofToken] using hv
  exact ⟨fun h ↦ hempty (String.isEmpty_iff.2 h), fun c hc ↦ ne_of_isBracket (ht.value c hc)⟩

/-- **The tokens of keyword text are well formed, however it is written.** On the way to them the
registers are never inside brackets and quotes at once, and outside quotes they hold no bracket. So
every keyword has a name that is not empty and free of blanks, quotes, brackets and signs, and its
value is absent or else not empty and free of brackets. Names, values and the constant have together
no more characters than the text. -/
theorem keyword_text_is_sound (area : List Line) :
    (∀ r ∈ statesOf area, r.Sound) ∧
      ∃ last, (statesOf area).getLast? = some last ∧
        resolve area = ⟨last.tokens.toList.map ofToken, last.constant⟩ ∧
        (∀ t ∈ last.tokens, (t.word ≠ "" ∧ ∀ c ∈ t.word.toList, c ∉ notInNames) ∧
          ∀ v ∈ (ofToken t).value, v ≠ "" ∧ ∀ c ∈ v.toList, c ≠ '(' ∧ c ≠ ')') ∧
        (last.tokens.toList.map Token.size).sum + last.constant.length ≤ areaSize area := by
  obtain ⟨zone, hshow, -⟩ := endsIn_statesOf area
  obtain ⟨last, hlast, htokens, hconstant⟩ := exists_getLast?_statesOf area
  refine ⟨fun r hr ↦ (hshow r hr).sound, last, hlast, ?_, fun t ht ↦ ?_, ?_⟩
  · rw [htokens, hconstant]
    rfl
  · have hshaped : t.Shaped := Scan.shaped_of_mem_tokens (htokens ▸ ht)
    exact ⟨⟨hshaped.word_ne_empty, fun c hc ↦ not_mem_notInNames (hshaped.word c hc)⟩,
      fun v hv ↦ hshaped.value_ofToken hv⟩
  · have hsize := size_scanArea_le area
    rw [Scan.size] at hsize
    rw [htokens, hconstant]
    omega

example :
    (statesOf [⟨"A) B((x 'y')) 'It''s (", ""⟩, ⟨"c)'", ""⟩]).getLast?.map
        (fun r ↦ (r.tokens.toList.map fun t ↦ (t.word, t.value), r.constant)) =
      some ([("A", ""), ("B", "x 'y'")], "It's (c)") := by
  decide

end DisplayFile.Keyword

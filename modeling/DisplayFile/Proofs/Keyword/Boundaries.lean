import DisplayFile.Proofs.Keyword.Endings

/-!
# On which line a keyword ends

A keyword has the conditions of the line on which it ends. It ends at a boundary, which is a blank
or the end of a line, outside brackets and quotes. So a keyword whose value runs over several lines
has the conditions of the last of them.

This module reads lines one event at a time, a character or the end of the line. An event ends the
name under construction (`Scan.EndsWord`) and makes one token, or it leaves the tokens as they are.
So every token that is made has an event of its own (`Scan.exists_event_of_lt`), and since the lines
are read in order, the lines on which the keywords end are in order too (`keywords_end_on_lines`).
Behind the last line no name is under construction that a blank could end, so no keyword is without
a line.
-/

namespace DisplayFile.Keyword

/-- What is read of a line at one time. -/
inductive Event where
  | char (c : Char)
  | lineEnd
deriving DecidableEq, Repr

/-- What is read of a line: its characters without the sign that continues it, then its end. -/
def Line.events (l : Line) : List Event :=
  (withoutContinuation l.text.toList).map .char ++ [.lineEnd]

namespace Scan

variable {α : Type} {s : Scan α} {e : Event} (stamp : α)

/-- Read an event. -/
def read (s : Scan α) : Event → Scan α
  | .char c => s.char stamp c
  | .lineEnd => s.endLine stamp

/-- Read events, one after the other. -/
def reads (s : Scan α) (es : List Event) : Scan α := es.foldl (read stamp) s

@[simp] theorem reads_nil (s : Scan α) : s.reads stamp [] = s := rfl

@[simp] theorem reads_cons (s : Scan α) (e : Event) (es : List Event) :
    s.reads stamp (e :: es) = (s.read stamp e).reads stamp es := rfl

/-- A line is its events. -/
theorem reads_events (s : Scan α) (l : Line) :
    s.reads stamp l.events = s.line l.text stamp := by
  rw [reads, Line.events, List.foldl_append, List.foldl_map]
  rfl

/-! ### One event -/

/-- The event ends the name under construction: it is a boundary, and the scan is outside brackets
and quotes. -/
structure EndsWord (s : Scan α) (e : Event) : Prop where
  outside : ¬s.InLiteral
  word : s.word ≠ ""
  boundary : e = .char ' ' ∨ e = .lineEnd

/-- What ends with an event. -/
def readEndings (s : Scan α) : Event → List (Ending α)
  | .char c => s.charEndings stamp c
  | .lineEnd => s.endLineEndings stamp

theorem records_read (s : Scan α) (e : Event) :
    Records s (s.readEndings stamp e) (s.read stamp e) := by
  cases e with
  | char c => exact records_char stamp s c
  | lineEnd => exact records_endLine stamp s

/-- The event ends the name under construction and makes a token of it, or it leaves the tokens as
they are. -/
inductive Step (s : Scan α) (e : Event) (tokens : List (Token α)) : Prop where
  | ends (h : s.EndsWord e) (value : String) (tokens_eq : tokens = [⟨s.word, value, stamp⟩])
  | keeps (h : ¬s.EndsWord e) (tokens_eq : tokens = [])

theorem not_inLiteral (h : s.mode = .plain ∨ s.mode = .closing) : ¬s.InLiteral := by
  rintro (⟨depth, hmode⟩ | hmode) <;> rw [hmode] at h <;> rcases h with h | h <;> cases h

/-- At a boundary outside brackets and quotes everything depends on whether there is a name. -/
theorem step_wordEndings (houtside : ¬s.InLiteral) (hboundary : e = .char ' ' ∨ e = .lineEnd)
    {t : Scan α} (hword : t.word = s.word) :
    Step stamp s e ((t.wordEndings stamp).filterMap Ending.token?) := by
  rw [wordEndings, hword]
  cases hempty : s.word.isEmpty with
  | true =>
    have hnone : s.word = "" := String.isEmpty_iff.1 hempty
    exact .keeps (fun h ↦ h.word hnone) rfl
  | false =>
    have hsome : s.word ≠ "" := by
      intro hnone
      rw [hnone] at hempty
      cases hempty
    exact .ends ⟨houtside, hsome, hboundary⟩ t.inner rfl

/-- Inside brackets and quotes nothing ends. -/
theorem step_of_inLiteral (h : s.InLiteral) :
    Step stamp s e ((s.readEndings stamp e).filterMap Ending.token?) := by
  have hnone : s.readEndings stamp e = [] := by
    rcases h with ⟨depth, hmode⟩ | hmode <;> cases e <;>
      simp only [readEndings, charEndings, endLineEndings, hmode]
  rw [hnone]
  exact .keeps (fun hends ↦ hends.outside h) rfl

/-- **What an event does to the tokens**, in every mode. -/
theorem step_readEndings (s : Scan α) (e : Event) :
    Step stamp s e ((s.readEndings stamp e).filterMap Ending.token?) := by
  cases hmode : s.mode with
  | bracketed depth => exact step_of_inLiteral stamp (.bracketed depth hmode)
  | quoted => exact step_of_inLiteral stamp (.quoted hmode)
  | plain =>
    have houtside := not_inLiteral (.inl hmode)
    cases e with
    | lineEnd =>
      simp only [readEndings, endLineEndings, hmode]
      exact step_wordEndings stamp houtside (.inr rfl) rfl
    | char c =>
      simp only [readEndings, charEndings, hmode, plainEndings]
      split
      · next hc => exact step_wordEndings stamp houtside (.inl (congrArg Event.char hc)) rfl
      · next hc => exact .keeps (fun h ↦ by simpa [hc] using h.boundary) rfl
  | closing =>
    have houtside := not_inLiteral (.inr hmode)
    cases e with
    | lineEnd =>
      simp only [readEndings, endLineEndings, hmode, constantEndings]
      exact step_wordEndings stamp houtside (.inr rfl) rfl
    | char c =>
      simp only [readEndings, charEndings, hmode, closingEndings]
      split
      · next hc => exact .keeps (fun h ↦ by simpa [hc] using h.boundary) rfl
      · rw [plainEndings]
        split
        · next hc => exact step_wordEndings stamp houtside (.inl (congrArg Event.char hc)) rfl
        · next hc => exact .keeps (fun h ↦ by simpa [hc] using h.boundary) rfl

/-- The tokens after an event. -/
theorem tokens_read (s : Scan α) (e : Event) :
    ∃ made, Step stamp s e made ∧ (s.read stamp e).tokens.toList = s.tokens.toList ++ made :=
  ⟨_, step_readEndings stamp s e, (records_read stamp s e).tokens⟩

/-! ### Many events -/

theorem prefix_tokens_reads (s : Scan α) (es : List Event) :
    s.tokens.toList <+: (s.reads stamp es).tokens.toList := by
  induction es generalizing s with
  | nil => exact List.prefix_refl _
  | cons e es ih =>
    obtain ⟨made, -, htokens⟩ := tokens_read stamp s e
    exact (htokens ▸ List.prefix_append _ made).trans (ih _)

/-- **Every token has an event that ends its name.** Of the events that are read, one comes when as
many tokens are made as stand before it, and ends the name of the token. -/
theorem exists_event_of_lt {s : Scan α} {es : List Event} {k : Nat} (hk : s.tokens.size ≤ k)
    (hlt : k < (s.reads stamp es).tokens.size) :
    ∃ front e back value, es = front ++ e :: back ∧ (s.reads stamp front).EndsWord e ∧
      (s.reads stamp front).tokens.size = k ∧
        (s.reads stamp es).tokens[k]? = some ⟨(s.reads stamp front).word, value, stamp⟩ := by
  induction es generalizing s with
  | nil => exact absurd hlt (Nat.not_lt.2 hk)
  | cons e es ih =>
    obtain ⟨made, hstep, htokens⟩ := tokens_read stamp s e
    have hsize : (s.read stamp e).tokens.size = s.tokens.size + made.length := by
      rw [← Array.length_toList, htokens, List.length_append, Array.length_toList]
    rcases Nat.lt_or_ge k (s.read stamp e).tokens.size with hnow | hlater
    · -- the token is the one that this event makes
      cases hstep with
      | keeps h hmade =>
        rw [hsize, hmade, List.length_nil] at hnow
        omega
      | ends h value hmade =>
        rw [hsize, hmade, List.length_singleton] at hnow
        obtain rfl : k = s.tokens.size := by omega
        have hmade' : (s.read stamp e).tokens.toList[s.tokens.size]? =
            some ⟨s.word, value, stamp⟩ := by
          rw [htokens, hmade, ← Array.length_toList, List.getElem?_concat_length]
        obtain ⟨later, hlater⟩ := prefix_tokens_reads stamp (s.read stamp e) es
        refine ⟨[], e, es, value, rfl, h, rfl, ?_⟩
        rw [reads_cons, ← Array.getElem?_toList, ← hlater,
          List.getElem?_append_left (List.getElem?_eq_some_iff.1 hmade').1, hmade']
        rfl
    · obtain ⟨front, e', back, value, rfl, h, hfront, htoken⟩ := ih hlater hlt
      exact ⟨e :: front, e', back, value, rfl, h, hfront, htoken⟩

end Scan

/-! ### Lines -/

/-- The keyword of the token ends on the line, which stands behind others: a boundary outside
brackets and quotes ends its name there, when as many keywords have ended as its number says. -/
def EndsOn (before : List Line) (line : Line) (number : Nat) (token : Token String) : Prop :=
  ∃ front e back, line.events = front ++ e :: back ∧
    ((scanArea before).reads line.zone front).EndsWord e ∧
      ((scanArea before).reads line.zone front).word = token.word ∧
        ((scanArea before).reads line.zone front).tokens.size = number

theorem scanArea_concat (area : List Line) (line : Line) :
    scanArea (area ++ [line]) = (scanArea area).reads line.zone line.events := by
  rw [scanArea_append, Scan.reads_events]
  rfl

/-- A line leaves the tokens of the lines before it as they are. -/
theorem getElem?_tokens_concat {area : List Line} {k : Nat} (hk : k < (scanArea area).tokens.size)
    (line : Line) :
    (scanArea (area ++ [line])).tokens[k]? = (scanArea area).tokens[k]? := by
  obtain ⟨later, hlater⟩ := Scan.prefix_tokens_reads line.zone (scanArea area) line.events
  rw [scanArea_concat, ← Array.getElem?_toList, ← hlater,
    List.getElem?_append_left (by rwa [Array.length_toList]), Array.getElem?_toList]

/-- A further token ends on the line and is stamped with its zone. -/
theorem exists_endsOn_concat {area : List Line} {line : Line} {k : Nat}
    (hk : (scanArea area).tokens.size ≤ k) (hlt : k < (scanArea (area ++ [line])).tokens.size) :
    ∃ token, (scanArea (area ++ [line])).tokens[k]? = some token ∧ token.stamp = line.zone ∧
      EndsOn area line k token := by
  rw [scanArea_concat] at hlt ⊢
  obtain ⟨front, e, back, value, hevents, hword, hnumber, htoken⟩ :=
    Scan.exists_event_of_lt line.zone hk hlt
  exact ⟨_, htoken, rfl, front, e, back, hevents, hword, rfl, hnumber⟩

/-- **The lines on which the keywords of an area end**, by their numbers, and in the order of the
keywords. The induction takes the last line off: it adds its own number, once for each token that
it adds. -/
theorem exists_lines_of_tokens (area : List Line) :
    ∃ numbers : List Nat, numbers.length = (scanArea area).tokens.size ∧
      numbers.Pairwise (· ≤ ·) ∧
        ∀ k j, numbers[k]? = some j → ∃ line token, area[j]? = some line ∧
          (scanArea area).tokens[k]? = some token ∧ token.stamp = line.zone ∧
            EndsOn (area.take j) line k token := by
  induction area using List.reverseRecOn with
  | nil => exact ⟨[], rfl, List.Pairwise.nil, fun k j h ↦ by cases h⟩
  | append_singleton area line ih =>
    obtain ⟨numbers, hlength, hsorted, hends⟩ := ih
    obtain ⟨added, hadded⟩ :
        ∃ added, (scanArea (area ++ [line])).tokens.size = (scanArea area).tokens.size + added := by
      obtain ⟨later, hlater⟩ := Scan.prefix_tokens_reads line.zone (scanArea area) line.events
      refine ⟨later.length, ?_⟩
      rw [scanArea_concat, ← Array.length_toList, ← hlater, List.length_append,
        Array.length_toList]
    have hmem : ∀ j ∈ numbers, j < area.length := by
      intro j hj
      obtain ⟨k, hk⟩ := List.mem_iff_getElem?.1 hj
      obtain ⟨line, -, hline, -⟩ := hends k j hk
      exact (List.getElem?_eq_some_iff.1 hline).1
    refine ⟨numbers ++ List.replicate added area.length, ?_, ?_, fun k j hkj ↦ ?_⟩
    · rw [hadded, List.length_append, List.length_replicate, hlength]
    · refine List.pairwise_append.2 ⟨hsorted, List.pairwise_replicate.2 (.inr (Nat.le_refl _)), ?_⟩
      intro i hi j hj
      rw [List.eq_of_mem_replicate hj]
      exact Nat.le_of_lt (hmem i hi)
    · rcases Nat.lt_or_ge k numbers.length with hk | hk
      · -- the token was there before the line
        rw [List.getElem?_append_left hk] at hkj
        obtain ⟨line', token, hline, htoken, hstamp, hend⟩ := hends k j hkj
        have hj : j < area.length := hmem j (List.mem_of_getElem? hkj)
        refine ⟨line', token, ?_, ?_, hstamp, ?_⟩
        · rw [List.getElem?_append_left hj, hline]
        · rw [getElem?_tokens_concat (hlength ▸ hk), htoken]
        · rwa [List.take_append_of_le_length (Nat.le_of_lt hj)]
      · -- the token is one of those that the line adds
        rw [List.getElem?_append_right hk, List.getElem?_replicate,
          Option.ite_none_right_eq_some] at hkj
        obtain ⟨hlt, hj⟩ := hkj
        obtain rfl : area.length = j := Option.some.inj hj
        have hbelow : k < (scanArea (area ++ [line])).tokens.size := by omega
        obtain ⟨token, htoken, hstamp, hend⟩ := exists_endsOn_concat (hlength ▸ hk) hbelow
        refine ⟨line, token, List.getElem?_concat_length, htoken, hstamp, ?_⟩
        rwa [List.take_left]

/-- Right behind the end of a line there is nothing that could end. -/
theorem Scan.Settled.not_endsWord {α : Type} {s : Scan α} (hs : s.Settled) (e : Event) :
    ¬s.EndsWord e := by
  intro h
  cases hmode : s.mode with
  | plain => exact h.word (hs.2 hmode)
  | bracketed depth => exact h.outside (.bracketed depth hmode)
  | quoted => exact h.outside (.quoted hmode)
  | closing => exact hs.1 hmode

/-- A blank behind the last line ends no keyword. -/
theorem tokens_blank_scanArea (area : List Line) (zone : String) :
    ((scanArea area).char zone ' ').tokens = (scanArea area).tokens := by
  obtain ⟨made, hstep, htokens⟩ := Scan.tokens_read zone (scanArea area) (.char ' ')
  cases hstep with
  | ends h => exact absurd h ((settled_scanArea area).not_endsWord _)
  | keeps h hmade =>
    rw [hmade, List.append_nil] at htokens
    exact Array.toList_inj.1 htokens

/-- **A keyword has the conditions of the line on which it ends.** There is one line for each
keyword, the lines are in the order of the area, and each has the boundary that ended the name of
its keyword outside brackets and quotes. A blank behind the last line ends no further keyword. -/
theorem keywords_end_on_lines (area : List Line) :
    (∃ numbers : List Nat, numbers.length = (resolve area).keywords.length ∧
      numbers.Pairwise (· ≤ ·) ∧
        ∀ k j, numbers[k]? = some j → ∃ line token, area[j]? = some line ∧
          (resolve area).keywords[k]? = some (ofToken token) ∧
            (ofToken token).conditions = Condition.ofZone line.zone ∧
              EndsOn (area.take j) line k token) ∧
      ∀ zone, ((scanArea area).char zone ' ').tokens = (scanArea area).tokens := by
  refine ⟨?_, tokens_blank_scanArea area⟩
  have hkeywords : (resolve area).keywords = (scanArea area).tokens.toList.map ofToken := rfl
  obtain ⟨numbers, hlength, hsorted, hends⟩ := exists_lines_of_tokens area
  refine ⟨numbers, ?_, hsorted, fun k j hkj ↦ ?_⟩
  · rw [hlength, hkeywords, List.length_map, Array.length_toList]
  · obtain ⟨line, token, hline, htoken, hstamp, hend⟩ := hends k j hkj
    refine ⟨line, token, hline, ?_, congrArg Condition.ofZone hstamp, hend⟩
    rw [hkeywords, List.getElem?_map, Array.getElem?_toList, htoken, Option.map_some]

example :
    (resolve [⟨"TITLE('A", "  07      "⟩, ⟨"B') HELP", "  08      "⟩,
        ⟨"CLEAR", "  09      "⟩]).keywords.map (·.conditions) =
      [[⟨8, false⟩], [⟨8, false⟩], [⟨9, false⟩]] := by
  decide

end DisplayFile.Keyword

import DisplayFile.Proofs.Keyword.Items

/-!
# What a token is made of

Keyword text need not be well formed, but the tokens that a scan makes of it always are: a name is
never empty and has only characters that can stand in a name, and a value has no brackets
(`shaped_of_mem_tokens`). So a keyword always has a name, whatever it was read from.

The invariant is about the name and the value under construction as much as about the tokens
(`Scan.Shaped`). The value is shared with constants, and a constant may have brackets in it; but it
is emptied when the constant ends, and no keyword ends before that. So the condition on the value
holds outside quotes only.
-/

namespace DisplayFile.Keyword

/-- One of the characters that open and close a value. -/
def isBracket (c : Char) : Bool := c = '(' || c = ')'

/-- The name of the token is one that can be written, and its value has no brackets. -/
structure Token.Shaped {α : Type} (t : Token α) : Prop where
  word_ne_empty : t.word ≠ ""
  word : ∀ c ∈ t.word.toList, isNameChar c = true
  value : ∀ c ∈ t.value.toList, isBracket c = false

namespace Scan

variable {α : Type}

/-- The scan is inside a constant, or behind a quote that may end it. -/
def InConstant (s : Scan α) : Prop := s.mode = .quoted ∨ s.mode = .closing

/-- What the scan has made tokens of, and what it may still make one of, is well formed. -/
structure Shaped (s : Scan α) : Prop where
  word : ∀ c ∈ s.word.toList, isNameChar c = true
  inner : ¬s.InConstant → ∀ c ∈ s.inner.toList, isBracket c = false
  tokens : ∀ t ∈ s.tokens, t.Shaped

theorem shaped_start : Shaped ({} : Scan α) := ⟨by simp, by simp, by simp⟩

/-- What holds of all characters of a text holds with one more that has it. -/
theorem forall_mem_push {p : Char → Bool} {b : Bool} {text : String} {c : Char}
    (h : ∀ x ∈ text.toList, p x = b) (hc : p c = b) : ∀ x ∈ (text.push c).toList, p x = b := by
  intro x hx
  rw [String.toList_push] at hx
  obtain hx | hx := List.mem_append.1 hx
  · exact h x hx
  · rw [List.mem_singleton.1 hx]
    exact hc

/-! ### Steps -/

/-- Ending a name makes a token of it, outside constants. -/
theorem Shaped.endWord {s : Scan α} (hs : s.Shaped) (hmode : ¬s.InConstant) (stamp : α) :
    (s.endWord stamp).Shaped := by
  rw [Scan.endWord]
  split
  · exact hs
  · next hword =>
    refine ⟨by simp, by simp, fun t ht ↦ ?_⟩
    obtain ht | rfl := Array.mem_push.1 ht
    · exact hs.tokens t ht
    · exact ⟨fun h ↦ hword (String.isEmpty_iff.2 h), hs.word, hs.inner hmode⟩

theorem Shaped.endConstant {s : Scan α} (hs : s.Shaped) : s.endConstant.Shaped :=
  ⟨hs.word, by simp [Scan.endConstant], hs.tokens⟩

/-- Outside brackets and quotes a name gets only characters that can stand in a name. -/
theorem Shaped.plain {s : Scan α} (hs : s.Shaped) (hmode : s.mode = .plain) (stamp : α) (c : Char) :
    (s.plain stamp c).Shaped := by
  have hout : ¬s.InConstant := by simp [InConstant, hmode]
  rw [Scan.plain]
  split
  · exact hs.endWord hout stamp
  · next hspace =>
    split
    · exact ⟨hs.word, by simp [InConstant], hs.tokens⟩
    · next hquote =>
      split
      · exact ⟨hs.word, fun _ ↦ hs.inner hout, hs.tokens⟩
      · next hopen =>
        split
        · exact hs
        · next hclose =>
          split
          · exact ⟨hs.word, fun _ ↦ forall_mem_push (hs.inner hout) (by simp [isBracket, *]),
              hs.tokens⟩
          · next hsign =>
            exact ⟨forall_mem_push hs.word (by simp [isNameChar, *]), hs.inner, hs.tokens⟩

/-- Inside brackets the value gets every character but the brackets. -/
theorem Shaped.bracketed {s : Scan α} (hs : s.Shaped) {depth : Nat}
    (hmode : s.mode = .bracketed depth) (c : Char) : (s.bracketed depth c).Shaped := by
  have hout : ¬s.InConstant := by simp [InConstant, hmode]
  rw [Scan.bracketed.eq_def]
  split
  · exact ⟨hs.word, fun _ ↦ hs.inner hout, hs.tokens⟩
  · next hopen =>
    split
    · cases depth with
      | zero => exact ⟨hs.word, fun _ ↦ hs.inner hout, hs.tokens⟩
      | succ outer => exact ⟨hs.word, fun _ ↦ hs.inner hout, hs.tokens⟩
    · next hclose =>
      exact ⟨hs.word, fun _ ↦ forall_mem_push (hs.inner hout) (by simp [isBracket, *]), hs.tokens⟩

/-- In a constant anything can be kept, as no token is made of it. -/
theorem Shaped.of_inConstant {s s' : Scan α} (hs : s.Shaped) (hword : s'.word = s.word)
    (htokens : s'.tokens = s.tokens) (hmode : s'.InConstant) : s'.Shaped :=
  ⟨hword ▸ hs.word, fun h ↦ absurd hmode h, htokens ▸ hs.tokens⟩

/-- Inside a constant neither names nor tokens change, and the text may be anything. -/
theorem Shaped.quoted {s : Scan α} (hs : s.Shaped) (hmode : s.mode = .quoted) (c : Char) :
    (s.quoted c).Shaped := by
  rw [Scan.quoted]
  split
  · exact hs.of_inConstant rfl rfl (.inr rfl)
  · split
    · exact hs
    · exact hs.of_inConstant rfl rfl (.inl hmode)

theorem Shaped.closing {s : Scan α} (hs : s.Shaped) (stamp : α) (c : Char) :
    (s.closing stamp c).Shaped := by
  rw [Scan.closing]
  split
  · exact hs.of_inConstant rfl rfl (.inl rfl)
  · exact hs.endConstant.plain rfl stamp c

/-- **Every character leaves a well-formed scan**, in whatever mode it is read. -/
theorem Shaped.char {s : Scan α} (hs : s.Shaped) (stamp : α) (c : Char) :
    (s.char stamp c).Shaped := by
  rw [Scan.char]
  cases hmode : s.mode with
  | plain => exact hs.plain hmode stamp c
  | bracketed depth => exact hs.bracketed hmode c
  | quoted => exact hs.quoted hmode c
  | closing => exact hs.closing stamp c

/-- The end of a line may end a name or a constant, and leaves the rest as it is. -/
theorem Shaped.endLine {s : Scan α} (hs : s.Shaped) (stamp : α) : (s.endLine stamp).Shaped := by
  rw [Scan.endLine]
  cases hmode : s.mode with
  | plain => exact hs.endWord (by simp [InConstant, hmode]) stamp
  | bracketed depth => exact hs
  | quoted => exact hs
  | closing => exact hs.endConstant.endWord (by simp [InConstant, Scan.endConstant]) stamp

/-! ### Runs -/

theorem Shaped.chars {s : Scan α} (hs : s.Shaped) (stamp : α) (cs : List Char) :
    (s.chars stamp cs).Shaped := by
  induction cs generalizing s with
  | nil => exact hs
  | cons c cs ih => exact ih (hs.char stamp c)

/-- A scan of lines stays in shape. -/
theorem Shaped.lines {s : Scan α} (hs : s.Shaped) (ls : List (String × α)) :
    (s.lines ls).Shaped := by
  induction ls generalizing s with
  | nil => exact hs
  | cons l ls ih => exact ih ((hs.chars l.2 _).endLine l.2)

/-- **The tokens of any text are well formed.** -/
theorem shaped_of_mem_tokens {ls : List (String × α)} {t : Token α}
    (ht : t ∈ (Scan.lines {} ls).tokens) : t.Shaped :=
  (shaped_start.lines ls).tokens t ht

end Scan

/-- Every keyword of a keyword area stands for a well-formed token. -/
theorem exists_shaped_of_mem_resolve {area : List Line} {k : Keyword}
    (hk : k ∈ (resolve area).keywords) : ∃ t : Token String, t.Shaped ∧ k = ofToken t := by
  obtain ⟨t, ht, rfl⟩ := List.mem_map.1 hk
  exact ⟨t, Scan.shaped_of_mem_tokens (Array.mem_toList_iff.1 ht), rfl⟩

end DisplayFile.Keyword

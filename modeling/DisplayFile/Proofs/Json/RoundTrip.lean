import DisplayFile.Proofs.Json.Plain
import DisplayFile.Proofs.Json.Scalars
import Mathlib.Data.List.DropRight

/-!
# Plain values read back

A plain value is read back from its text, whatever the layout of the text is (`read_text`). A layout
adds blanks in places where the reader passes over them, so the proof asks nothing else of it
(`Layout.Lawful`).

**Each part is read back in front of anything.** A value stands in its text with more text behind
it, of which it is only asked that it does not continue a number (`ReadsBack`); the blanks before it
make no difference to the reader (`readValue_blanks`). Items and members are read back one after the
other, given that each of them reads back (`readItems_intercalate`, `readMembers_intercalate`), and
the proof for values follows the constructors of `Plain`, whose depth is the one that the reader
counts down.

The reader has fuel for twice the length of a text. Of that every value spends one unit, and every
item one unit more; each has at least one character, and the mark behind an item is another one.
-/

namespace DisplayFile.Json

open Text.Numeral (digits isDigit_of_mem_digits)

/-! ### Blanks -/

/-- Characters that may stand between the parts of a value. -/
def Blanks (cs : List Char) : Prop := ∀ c ∈ cs, isBlank c = true

theorem blanks_nil : Blanks [] := by simp [Blanks]

theorem eq_of_isBlank {c : Char} (h : isBlank c = true) :
    c = ' ' ∨ c = '\t' ∨ c = '\n' ∨ c = '\r' := by
  simpa [isBlank, or_assoc] using h

/-- Blanks in front of a text are skipped. -/
theorem skipBlanks_append {blanks : List Char} (h : Blanks blanks) (cs : List Char) :
    skipBlanks (blanks ++ cs) = skipBlanks cs :=
  List.dropWhile_append_of_pos h

theorem skipBlanks_cons {c : Char} (h : isBlank c = false) (cs : List Char) :
    skipBlanks (c :: cs) = c :: cs :=
  List.dropWhile_cons_of_neg (by simp [h])

theorem delimited_nil : Delimited [] := by simp [Delimited]

/-- Blanks in front of what ends a number do not go on with it. -/
theorem delimited_append {blanks : List Char} (h : Blanks blanks) {rest : List Char}
    (hrest : Delimited rest) : Delimited (blanks ++ rest) := by
  cases blanks with
  | nil => exact hrest
  | cons c blanks =>
    rintro d ⟨⟩
    obtain rfl | rfl | rfl | rfl := eq_of_isBlank (h c List.mem_cons_self)
    all_goals decide

/-- A character that cannot go on with a number ends it. -/
theorem delimited_cons {c : Char} (h : c.isDigit = false ∧ c ≠ '.' ∧ c ≠ 'e' ∧ c ≠ 'E')
    (rest : List Char) : Delimited (c :: rest) := by
  rintro d ⟨⟩
  exact h

/-! ### Layouts -/

/-- A layout adds blanks and nothing else. -/
structure Layout.Lawful (layout : Layout) : Prop where
  lineBreak : ∀ level, Blanks (layout.lineBreak level).toList
  colon : ∃ blanks, Blanks blanks ∧ layout.colon.toList = ':' :: blanks

/-- The layout without blanks is lawful. -/
theorem Layout.lawful_compact : Layout.Lawful .compact where
  lineBreak _ := blanks_nil
  colon := ⟨[], blanks_nil, rfl⟩

/-- The layout with a line for each item is lawful. -/
theorem Layout.lawful_pretty : Layout.Lawful .pretty where
  lineBreak level := by
    have hbreak : (Layout.lineBreak .pretty level).toList =
        '\n' :: List.replicate (2 * level) ' ' := by simp [Layout.pretty]
    intro c hc
    rw [hbreak] at hc
    obtain rfl | hc := List.mem_cons.1 hc
    · rfl
    · rw [List.eq_of_mem_replicate hc]
      rfl
  colon := ⟨[' '], by simp [Blanks, isBlank], rfl⟩

variable {layout : Layout} {level : Nat}

theorem itemTexts_eq_map (items : List Json) :
    itemTexts layout level items = items.map fun item ↦ item.text layout level := by
  induction items with
  | nil => rfl
  | cons item items ih => rw [itemTexts, List.map_cons, ih]

theorem memberTexts_eq_map (members : Members) :
    memberTexts layout level members =
      members.map fun m ↦ quote m.1 ++ layout.colon ++ m.2.text layout level := by
  induction members with
  | nil => rfl
  | cons m members ih => rw [memberTexts, List.map_cons, ih]

section Enclose

variable {opening closing : String} {o c : Char}

theorem toList_enclose_nil (ho : opening.toList = [o]) (hc : closing.toList = [c]) :
    (enclose layout level opening closing []).toList = [o, c] := by
  rw [enclose, String.toList_append, ho, hc, List.singleton_append]

/-- Parts stand between brackets, on lines of their own where the layout has line breaks. -/
theorem toList_enclose (ho : opening.toList = [o]) (hc : closing.toList = [c])
    {parts : List String} (h : parts ≠ []) :
    (enclose layout level opening closing parts).toList =
      o :: ((layout.lineBreak (level + 1)).toList ++
        ((',' :: (layout.lineBreak (level + 1)).toList).intercalate (parts.map String.toList) ++
          ((layout.lineBreak level).toList ++ [c]))) := by
  rcases parts with - | ⟨part, parts⟩
  · exact absurd rfl h
  · rw [enclose]
    · simp [ho, hc]
    · simp

end Enclose

/-! ### One step of the reader -/

theorem skipBlanks_skipBlanks (cs : List Char) : skipBlanks (skipBlanks cs) = skipBlanks cs :=
  List.dropWhile_idempotent isBlank cs

section Steps

variable {fuel depth : Nat} {blanks cs rest : List Char}

/-- A value is read behind blanks as if they were not there. -/
theorem readValue_skipBlanks (fuel depth : Nat) (cs : List Char) :
    readValue fuel depth (skipBlanks cs) = readValue fuel depth cs := by
  cases fuel with
  | zero => rfl
  | succ fuel => simp only [readValue, skipBlanks_skipBlanks]

/-- A value may have blanks before it. -/
theorem readValue_blanks (h : Blanks blanks) (fuel depth : Nat) (cs : List Char) :
    readValue fuel depth (blanks ++ cs) = readValue fuel depth cs := by
  rw [← readValue_skipBlanks, skipBlanks_append h, readValue_skipBlanks]

theorem readValue_null : readValue (fuel + 1) depth ("null".toList ++ rest) = .ok (.null, rest) :=
  rfl

theorem readValue_bool (b : Bool) :
    readValue (fuel + 1) depth ((if b then "true" else "false").toList ++ rest) =
      .ok (.bool b, rest) := by
  cases b <;> rfl

theorem readValue_string (s : String) :
    readValue (fuel + 1) depth ((quote s).toList ++ rest) = .ok (.string s, rest) := by
  rw [toList_quote, List.cons_append]
  simp only [readValue, skipBlanks_cons (show isBlank '"' = false from rfl), readString_toList]
  rfl

/-- A number is read as far as its digits go. -/
theorem readValue_digits {n : Nat} (hn : n < UInt64.size) (hrest : Delimited rest) :
    readValue (fuel + 1) depth (digits n ++ rest) = .ok (.number (.integer n), rest) := by
  have hnumber := readNumber_digits hn hrest
  rcases hdigits : digits n with - | ⟨c, cs⟩
  · exact absurd hdigits Nat.toDigits_ne_nil
  · have hc : c.isDigit = true := isDigit_of_mem_digits (by rw [hdigits]; exact List.mem_cons_self)
    have hblank : isBlank c = false := by
      rw [← Bool.not_eq_true]
      intro hblank
      obtain rfl | rfl | rfl | rfl := eq_of_isBlank hblank
      all_goals cases hc
    rw [hdigits, List.cons_append] at hnumber
    rw [List.cons_append, readValue, skipBlanks_cons hblank]
    -- no other value starts with a digit
    split
    case h_8 c' rest' _ _ _ _ _ _ heq =>
      obtain ⟨rfl, rfl⟩ := List.cons.inj heq
      rw [if_pos (Or.inr hc), hnumber]
      rfl
    case h_1 heq => cases heq
    all_goals
      next heq =>
        obtain ⟨rfl, -⟩ := List.cons.inj heq
        cases hc

theorem readItems_skipBlanks (fuel depth : Nat) (acc : Array Json) (cs : List Char) :
    readItems fuel depth acc (skipBlanks cs) = readItems fuel depth acc cs := by
  cases fuel with
  | zero => rfl
  | succ fuel => simp only [readItems, readValue_skipBlanks]

/-- No item starts with the bracket that closes them. -/
theorem readItems_bracket_ne_ok (acc : Array Json) (r : List Json × List Char) :
    readItems fuel depth acc (']' :: rest) ≠ .ok r := by
  intro h
  rcases fuel with - | - | fuel
  all_goals cases h

theorem readMembers_skipBlanks (fuel depth : Nat) (acc : Members) (cs : List Char) :
    readMembers fuel depth acc (skipBlanks cs) = readMembers fuel depth acc cs := by
  cases fuel with
  | zero => rfl
  | succ fuel => simp only [readMembers, expect, skipBlanks_skipBlanks]

/-- A brace in place of a member is not read, so a row of members ends behind one of them. -/
theorem readMembers_brace_ne_ok (acc : Members) (r : Members × List Char) :
    readMembers fuel depth acc ('}' :: rest) ≠ .ok r := by
  intro h
  rcases fuel with - | fuel
  all_goals cases h

/-- An array has its items between brackets. -/
theorem readValue_array {items : List Json} (h : readItems fuel depth #[] cs = .ok (items, rest)) :
    readValue (fuel + 1) (depth + 1) ('[' :: cs) = .ok (.array items, rest) := by
  rw [← readItems_skipBlanks] at h
  simp only [readValue, skipBlanks_cons (show isBlank '[' = false from rfl)]
  split
  · next heq =>
    rw [heq] at h
    exact absurd h (readItems_bracket_ne_ok _ _)
  · rw [h]
    rfl

/-- An object has its members between braces. -/
theorem readValue_object {members : Members}
    (h : readMembers fuel depth [] cs = .ok (members, rest)) :
    readValue (fuel + 1) (depth + 1) ('{' :: cs) = .ok (.object members, rest) := by
  rw [← readMembers_skipBlanks] at h
  simp only [readValue, skipBlanks_cons (show isBlank '{' = false from rfl)]
  split
  · next heq =>
    rw [heq] at h
    exact absurd h (readMembers_brace_ne_ok _ _)
  · rw [h]
    rfl

theorem readItems_blanks (h : Blanks blanks) (acc : Array Json) (cs : List Char) :
    readItems fuel depth acc (blanks ++ cs) = readItems fuel depth acc cs := by
  rw [← readItems_skipBlanks, skipBlanks_append h, readItems_skipBlanks]

theorem readMembers_blanks (h : Blanks blanks) (acc : Members) (cs : List Char) :
    readMembers fuel depth acc (blanks ++ cs) = readMembers fuel depth acc cs := by
  rw [← readMembers_skipBlanks, skipBlanks_append h, readMembers_skipBlanks]

end Steps

/-! ### Items and members -/

/-- The characters are read back as a value, whatever follows them that does not belong to it. -/
def ReadsBack (depth : Nat) (cs : List Char) (j : Json) : Prop :=
  ∀ (fuel : Nat) (rest : List Char), 2 * cs.length ≤ fuel → Delimited rest →
    readValue fuel depth (cs ++ rest) = .ok (j, rest)

/-- A text that reads back is not empty. -/
theorem ReadsBack.length_pos {depth : Nat} {cs : List Char} {j : Json}
    (h : ReadsBack depth cs j) : 0 < cs.length := by
  rw [List.length_pos_iff]
  rintro rfl
  have hread : readValue 0 depth [] = .ok (j, []) := h _ _ (Nat.le_refl _) delimited_nil
  cases hread

/-- There is fuel for a value if there is fuel for its characters. -/
theorem ReadsBack.of_succ {depth : Nat} {cs : List Char} {j : Json} (hne : cs ≠ [])
    (h : ∀ (fuel : Nat) (rest : List Char), 2 * cs.length ≤ fuel + 1 → Delimited rest →
      readValue (fuel + 1) depth (cs ++ rest) = .ok (j, rest)) : ReadsBack depth cs j := by
  intro fuel rest hfuel hrest
  have hpos : 0 < cs.length := List.length_pos_iff.2 hne
  obtain ⟨fuel, rfl⟩ : ∃ n, fuel = n + 1 := ⟨fuel - 1, by omega⟩
  exact h fuel rest hfuel hrest

section Sequences

variable {fuel depth : Nat} {blanks cs rest : List Char} {value : Json}

/-- The last item of an array. -/
theorem readItems_last (h : ReadsBack depth cs value) (hblanks : Blanks blanks)
    (hfuel : 2 * cs.length + 1 ≤ fuel) (acc : Array Json) :
    readItems fuel depth acc (cs ++ (blanks ++ ']' :: rest)) =
      .ok (acc.toList ++ [value], rest) := by
  obtain ⟨fuel, rfl⟩ := Nat.exists_eq_add_of_le' hfuel
  have hclosed : Delimited (blanks ++ ']' :: rest) :=
    delimited_append hblanks (delimited_cons (by decide) rest)
  rw [← Nat.add_assoc, readItems, h _ _ (by omega) hclosed]
  simp only [bind, Except.bind, skipBlanks_append hblanks,
    skipBlanks_cons (show isBlank ']' = false from rfl), Array.toList_push]
  rfl

/-- An item of an array with another one behind it. -/
theorem readItems_next (h : ReadsBack depth cs value) (hfuel : 2 * cs.length ≤ fuel)
    (acc : Array Json) :
    readItems (fuel + 1) depth acc (cs ++ ',' :: rest) =
      readItems fuel depth (acc.push value) rest := by
  rw [readItems, h _ _ hfuel (delimited_cons (by decide) rest)]
  simp only [bind, Except.bind, skipBlanks_cons (show isBlank ',' = false from rfl)]

/-- **The items of an array are read back** from their texts with commas in between. -/
theorem readItems_intercalate {write : Json → List Char} {separating closing : List Char}
    (hsep : Blanks separating) (hclosing : Blanks closing) {items : List Json} (hne : items ≠ [])
    (h : ∀ item ∈ items, ReadsBack depth (write item) item)
    (hfuel : 2 * ((',' :: separating).intercalate (items.map write)).length + 1 ≤ fuel)
    (acc : Array Json) :
    readItems fuel depth acc
        ((',' :: separating).intercalate (items.map write) ++ (closing ++ ']' :: rest)) =
      .ok (acc.toList ++ items, rest) := by
  induction items generalizing fuel acc with
  | nil => exact absurd rfl hne
  | cons item items ih =>
    obtain ⟨hitem, hitems⟩ := List.forall_mem_cons.1 h
    rcases items with - | ⟨item', items⟩
    · rw [List.map_singleton, List.intercalate_singleton] at hfuel ⊢
      exact readItems_last hitem hclosing hfuel acc
    · rw [List.map_cons, List.map_cons, List.intercalate_cons_cons, ← List.map_cons] at hfuel ⊢
      rw [List.length_append, List.length_append, List.length_cons] at hfuel
      have hpos := hitem.length_pos
      obtain ⟨fuel, rfl⟩ : ∃ n, fuel = n + 1 := ⟨fuel - 1, by omega⟩
      rw [List.append_assoc, List.append_assoc, List.cons_append,
        readItems_next hitem (by omega) acc, readItems_blanks hsep,
        ih (List.cons_ne_nil _ _) hitems (by omega)]
      simp

/-- A key beyond all others goes behind them. -/
theorem insert_of_forall_lt {key : String} {members : Members} (h : ∀ m ∈ members, m.1 < key) :
    insert key value members = members ++ [(key, value)] := by
  induction members with
  | nil => rfl
  | cons m members ih =>
    obtain ⟨hm, hmembers⟩ := List.forall_mem_cons.1 h
    rw [insert, if_neg (String.lt_asymm hm), if_neg (String.ne_of_lt hm).symm, ih hmembers,
      List.cons_append]

theorem expect_cons {c : Char} (h : isBlank c = false) (cs : List Char) :
    expect c (c :: cs) = .ok cs := by
  rw [expect, skipBlanks_cons h]
  exact if_pos rfl

/-- A member as it is written: its key, a colon with blanks behind it, and its value. -/
def memberText (blanks : List Char) (write : Json → List Char) (m : String × Json) : List Char :=
  (quote m.1).toList ++ (':' :: (blanks ++ write m.2))

variable {write : Json → List Char} {m : String × Json}

/-- The key and the value of a member are read back; what follows decides how to go on. -/
theorem readMembers_memberText (h : ReadsBack depth (write m.2) m.2) (hcolon : Blanks blanks)
    (hrest : Delimited rest)
    (hfuel : 2 * (memberText blanks write m).length ≤ fuel) (acc : Members) :
    readMembers (fuel + 1) depth acc (memberText blanks write m ++ rest) =
      match skipBlanks rest with
      | ',' :: rest => readMembers fuel depth (insert m.1 m.2 acc) rest
      | '}' :: rest => .ok (insert m.1 m.2 acc, rest)
      | c :: _ => .error (.unexpected c)
      | [] => .error .endOfText := by
  simp only [memberText, List.length_append, List.length_cons] at hfuel
  rw [readMembers, memberText, toList_quote]
  simp only [List.cons_append, List.append_assoc, expect_cons (show isBlank '"' = false from rfl),
    bind, Except.bind]
  rw [List.nil_append, readString_flatMap_escape]
  simp only [expect_cons (show isBlank ':' = false from rfl), String.empty_append,
    String.ofList_toList]
  rw [readValue_blanks hcolon, h _ _ (by omega) hrest]
  rfl

/-- The last member of an object. -/
theorem readMembers_last (h : ReadsBack depth (write m.2) m.2) (hcolon : Blanks blanks)
    {closing : List Char} (hclosing : Blanks closing)
    (hfuel : 2 * (memberText blanks write m).length + 1 ≤ fuel) (acc : Members) :
    readMembers fuel depth acc (memberText blanks write m ++ (closing ++ '}' :: rest)) =
      .ok (insert m.1 m.2 acc, rest) := by
  obtain ⟨fuel, rfl⟩ : ∃ n, fuel = n + 1 := ⟨fuel - 1, by omega⟩
  have hclosed : Delimited (closing ++ '}' :: rest) :=
    delimited_append hclosing (delimited_cons (by decide) rest)
  rw [readMembers_memberText h hcolon hclosed (by omega)]
  simp only [skipBlanks_append hclosing, skipBlanks_cons (show isBlank '}' = false from rfl)]

/-- A member of an object with another one behind it. -/
theorem readMembers_next (h : ReadsBack depth (write m.2) m.2) (hcolon : Blanks blanks)
    (hfuel : 2 * (memberText blanks write m).length ≤ fuel) (acc : Members) :
    readMembers (fuel + 1) depth acc (memberText blanks write m ++ ',' :: rest) =
      readMembers fuel depth (insert m.1 m.2 acc) rest := by
  rw [readMembers_memberText h hcolon (delimited_cons (by decide) rest) hfuel]
  simp only [skipBlanks_cons (show isBlank ',' = false from rfl)]

/-- **The members of an object are read back**, in the order in which they are kept. -/
theorem readMembers_intercalate {separating closing : List Char} (hcolon : Blanks blanks)
    (hsep : Blanks separating) (hclosing : Blanks closing) {members : Members} (hne : members ≠ [])
    (h : ∀ m ∈ members, ReadsBack depth (write m.2) m.2)
    (hfuel : 2 * ((',' :: separating).intercalate (members.map (memberText blanks write))).length
      + 1 ≤ fuel)
    {acc : Members} (hascending : (acc ++ members).Pairwise (·.1 < ·.1)) :
    readMembers fuel depth acc
        ((',' :: separating).intercalate (members.map (memberText blanks write)) ++
          (closing ++ '}' :: rest)) =
      .ok (acc ++ members, rest) := by
  induction members generalizing fuel acc with
  | nil => exact absurd rfl hne
  | cons m members ih =>
    obtain ⟨hm, hmembers⟩ := List.forall_mem_cons.1 h
    have hinsert : insert m.1 m.2 acc = acc ++ [m] :=
      insert_of_forall_lt fun a ha ↦
        (List.pairwise_append.1 hascending).2.2 a ha m List.mem_cons_self
    rcases members with - | ⟨m', members⟩
    · rw [List.map_singleton, List.intercalate_singleton] at hfuel ⊢
      rw [readMembers_last hm hcolon hclosing hfuel acc, hinsert]
    · rw [List.map_cons, List.map_cons, List.intercalate_cons_cons, ← List.map_cons] at hfuel ⊢
      rw [List.length_append, List.length_append, List.length_cons] at hfuel
      obtain ⟨fuel, rfl⟩ : ∃ n, fuel = n + 1 := ⟨fuel - 1, by omega⟩
      rw [List.append_cons] at hascending
      rw [List.append_assoc, List.append_assoc, List.cons_append,
        readMembers_next hm hcolon (by omega) acc, readMembers_blanks hsep, hinsert,
        ih (List.cons_ne_nil _ _) hmembers (by omega) hascending, ← List.append_cons]

end Sequences

/-! ### Values -/

theorem toList_numberText (n : Nat) : (numberText (.integer n)).toList = digits n :=
  Nat.toList_repr

/-- **A plain value is read back** wherever its text stands. -/
theorem readsBack_text (hlayout : layout.Lawful) {depth : Nat} {j : Json}
    (h : Plain UInt64.size depth j) : ReadsBack depth (j.text layout level).toList j := by
  obtain ⟨blanks, hcolon, hcolonText⟩ := hlayout.colon
  induction h generalizing level with
  | null => exact .of_succ (by simp [text]) fun _ _ _ _ ↦ readValue_null
  | bool b => exact .of_succ (by cases b <;> simp [text]) fun _ _ _ _ ↦ readValue_bool b
  | number lt =>
    rw [text, toList_numberText]
    exact .of_succ Nat.toDigits_ne_nil fun _ _ _ hrest ↦ readValue_digits lt hrest
  | string s => exact .of_succ (by simp [text, toList_quote]) fun _ _ _ _ ↦ readValue_string s
  | @array depth items _ ih =>
    rw [text, itemTexts_eq_map]
    rcases eq_or_ne items [] with rfl | hne
    · rw [List.map_nil, toList_enclose_nil (o := '[') (c := ']') rfl rfl]
      exact .of_succ (by simp) fun _ _ _ _ ↦ rfl
    · rw [toList_enclose (o := '[') (c := ']') rfl rfl (by simpa using hne),
        List.map_map, Function.comp_def]
      refine .of_succ (by simp) fun fuel rest hfuel _ ↦ ?_
      simp only [List.length_cons, List.length_append, List.length_nil] at hfuel
      simp only [List.cons_append, List.append_assoc]
      refine readValue_array ?_
      rw [readItems_blanks (hlayout.lineBreak _)]
      exact readItems_intercalate (hlayout.lineBreak _) (hlayout.lineBreak _) hne
        (fun item hitem ↦ ih item hitem) (by omega) #[]
  | @object depth members ascending _ ih =>
    rw [text, memberTexts_eq_map]
    rcases eq_or_ne members [] with rfl | hne
    · rw [List.map_nil, toList_enclose_nil (o := '{') (c := '}') rfl rfl]
      exact .of_succ (by simp) fun _ _ _ _ ↦ rfl
    · rw [toList_enclose (o := '{') (c := '}') rfl rfl (by simpa using hne), List.map_map]
      have hmember : (String.toList ∘ fun m : String × Json ↦
          quote m.1 ++ layout.colon ++ m.2.text layout (level + 1)) =
          memberText blanks fun j ↦ (j.text layout (level + 1)).toList := by
        funext m
        simp [memberText, hcolonText]
      rw [hmember]
      refine .of_succ (by simp) fun fuel rest hfuel _ ↦ ?_
      simp only [List.length_cons, List.length_append, List.length_nil] at hfuel
      simp only [List.cons_append, List.append_assoc]
      refine readValue_object ?_
      rw [readMembers_blanks (hlayout.lineBreak _)]
      exact readMembers_intercalate hcolon (hlayout.lineBreak _) (hlayout.lineBreak _) hne
        (fun m hm ↦ ih m hm) (by omega) ascending

/-- **The text of a plain value reads as that value**, in every layout, also with blanks behind
it. -/
theorem read_text (hlayout : layout.Lawful) {j : Json} (h : Plain UInt64.size nestingLimit j)
    {trailing : List Char} (htrailing : Blanks trailing) :
    read (j.text layout 0 ++ String.ofList trailing) = .ok j := by
  have hclosed : Delimited trailing := by
    simpa using delimited_append htrailing delimited_nil
  rw [read, String.toList_append, String.toList_ofList]
  rw [readsBack_text hlayout h _ _ (by rw [List.length_append]; omega) hclosed]
  have hskip : skipBlanks trailing = [] := by
    simpa [skipBlanks] using skipBlanks_append htrailing []
  simp only [bind, Except.bind, hskip]
  rfl

/-- A line with the text of a plain value reads as that value. -/
theorem read_line (hlayout : layout.Lawful) {j : Json} (h : Plain UInt64.size nestingLimit j) :
    read (j.text layout 0 ++ "\n") = .ok j := by
  have hblanks : Blanks ['\n'] := by simp [Blanks, isBlank]
  exact read_text hlayout h hblanks

end DisplayFile.Json

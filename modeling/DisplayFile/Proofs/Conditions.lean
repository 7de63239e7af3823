import DisplayFile.Proofs.Command.Switches
import DisplayFile.Proofs.Member.WellFormed
import DisplayFile.Proofs.Text.Columns

/-!
# Indicators in conditioning zones

An indicator is a number from 1 to 99, written in the two columns behind the flag of a slot. This
module compares the conditions that are read from a zone with those that are written there
(`Condition.written`), and the conditions of a member with the indicators that a command line can
switch on.

Reading takes any numeral, and two kinds of numerals fit in two columns and are no indicator: zero,
and a digit behind a plus sign (`Condition.IsLoose`). So all that is written is read, and nothing
else is read exactly when none of them stands in a slot. A member can then ask for indicator 0,
which is the only one that cannot be switched on (`Condition.ofZone_eq_written_iff`).
-/

namespace DisplayFile

/-! ### Reading with one function or with another -/

section

variable {α β : Type} {f g : α → Option β} {xs : List α}

/-- What a function finds is also found by one that finds the same and more. -/
theorem sublist_filterMap (h : ∀ x ∈ xs, f x = none ∨ f x = g x) :
    (xs.filterMap f).Sublist (xs.filterMap g) := by
  induction xs with
  | nil => exact List.Sublist.refl []
  | cons x xs ih =>
    have hrest := ih fun y hy ↦ h y (List.mem_cons_of_mem x hy)
    rcases h x List.mem_cons_self with hnone | heq
    · rw [List.filterMap_cons_none hnone]
      exact hrest.trans ((List.sublist_cons_self x xs).filterMap g)
    · rcases hg : g x with - | y
      · rwa [List.filterMap_cons_none (heq.trans hg), List.filterMap_cons_none hg]
      · rw [List.filterMap_cons_some (heq.trans hg), List.filterMap_cons_some hg]
        exact hrest.cons_cons y

/-- The two find the same only if they agree everywhere: what one finds in addition makes its list
longer. -/
theorem filterMap_eq_filterMap_iff (h : ∀ x ∈ xs, f x = none ∨ f x = g x) :
    xs.filterMap f = xs.filterMap g ↔ ∀ x ∈ xs, f x = g x := by
  refine ⟨fun heq ↦ ?_, List.filterMap_congr⟩
  induction xs with
  | nil => exact fun x hx ↦ absurd hx List.not_mem_nil
  | cons x xs ih =>
    have hxs : ∀ y ∈ xs, f y = none ∨ f y = g y := fun y hy ↦ h y (List.mem_cons_of_mem x hy)
    have hlength := (sublist_filterMap hxs).length_le
    rcases hf : f x with - | y <;> rcases hg : g x with - | z
    · rw [List.filterMap_cons_none hf, List.filterMap_cons_none hg] at heq
      exact List.forall_mem_cons.2 ⟨hf.trans hg.symm, ih hxs heq⟩
    · rw [List.filterMap_cons_none hf, List.filterMap_cons_some hg] at heq
      rw [heq, List.length_cons] at hlength
      omega
    · rcases h x List.mem_cons_self with hnone | hsome
      · cases hnone.symm.trans hf
      · cases hf.symm.trans (hsome.trans hg)
    · rw [List.filterMap_cons_some hf, List.filterMap_cons_some hg] at heq
      obtain ⟨rfl, htail⟩ := List.cons.inj heq
      exact List.forall_mem_cons.2 ⟨hf.trans hg.symm, ih hxs htail⟩

end

namespace Condition

open Text.Numeral (byte? below? value unsigned digit)

/-! ### What is written in a zone -/

/-- The three columns of each slot, once blanks fill the zone up to ten columns. -/
def slotTexts (zone : String) : List (List Char) :=
  slots.map fun i ↦ ((zone.toList.rightpad 10 ' ').drop i).take 3

/-- What stands in a slot behind its flag, without the blanks around it. -/
def numeral (slot : List Char) : List Char := Text.trim (slot.drop 1)

/-- The numeral is an indicator: one or two digits, and a number from 1 to 99. -/
structure IsIndicator (numeral : List Char) : Prop where
  isDigit : ∀ c ∈ numeral, c.isDigit = true
  length_eq : numeral.length = 1 ∨ numeral.length = 2
  bounds : 1 ≤ value numeral ∧ value numeral ≤ 99

instance (numeral : List Char) : Decidable (IsIndicator numeral) :=
  decidable_of_iff
    (numeral.all Char.isDigit = true ∧ (numeral.length = 1 ∨ numeral.length = 2) ∧
      1 ≤ value numeral ∧ value numeral ≤ 99)
    ⟨fun ⟨isDigit, length_eq, bounds⟩ ↦ ⟨List.all_eq_true.1 isDigit, length_eq, bounds⟩,
      fun ⟨isDigit, length_eq, bounds⟩ ↦ ⟨List.all_eq_true.2 isDigit, length_eq, bounds⟩⟩

/-- The condition that is written in a slot. -/
def written? (slot : List Char) : Option Condition :=
  if IsIndicator (numeral slot) then
    some { indicator := UInt8.ofNat (value (numeral slot)), negated := slot.head? = some 'N' }
  else none

/-- The conditions that are written in a zone, in the order of its slots. -/
def written (zone : String) : List Condition := (slotTexts zone).filterMap written?

/-- The numeral is read though it is no indicator: it is zero, or a digit behind a plus sign. -/
def IsLoose (numeral : List Char) : Prop :=
  numeral = ['0'] ∨ numeral = ['0', '0'] ∨ ∃ d, d.isDigit = true ∧ numeral = ['+', d]

/-! ### Numerals in two columns -/

/-- An indicator is read as its number. -/
theorem IsIndicator.byte?_eq {numeral : List Char} (h : IsIndicator numeral) :
    byte? numeral = some (UInt8.ofNat (value numeral)) := by
  have hunsigned : unsigned numeral = numeral := Text.Numeral.unsigned_of_isDigit h.isDigit
  have hne : numeral ≠ [] := by
    rintro rfl
    exact absurd h.length_eq (by decide)
  have hbelow : below? UInt8.size numeral = some (value numeral) := by
    rw [Text.Numeral.below?_eq_some_iff, hunsigned]
    exact ⟨hne, h.isDigit, rfl, Nat.lt_of_le_of_lt h.bounds.2 (by decide)⟩
  rw [byte?, hbelow, Option.map_some]

theorem IsLoose.not_isIndicator {numeral : List Char} (h : IsLoose numeral) :
    ¬IsIndicator numeral := by
  intro hindicator
  rcases h with rfl | rfl | ⟨d, -, rfl⟩
  · exact absurd hindicator.bounds.1 (by decide)
  · exact absurd hindicator.bounds.1 (by decide)
  · exact absurd (hindicator.isDigit '+' List.mem_cons_self) (by decide)

/-- Numerals that are no indicators are read all the same. -/
theorem IsLoose.byte?_ne_none {numeral : List Char} (h : IsLoose numeral) :
    byte? numeral ≠ none := by
  rcases h with rfl | rfl | ⟨d, hd, rfl⟩
  · decide
  · decide
  · have hdigits : ∀ c ∈ [d], c.isDigit = true := by simpa using hd
    have hlt : value [d] < UInt8.size :=
      Nat.lt_trans (Text.Numeral.value_lt_pow_length hdigits) (show 10 ^ 1 < UInt8.size by decide)
    have hbelow : below? UInt8.size ['+', d] = some (value [d]) :=
      Text.Numeral.below?_eq_some_iff.2 ⟨List.cons_ne_nil d [], hdigits, rfl, hlt⟩
    rw [byte?, hbelow]
    exact Option.some_ne_none _

/-- One or two digits are an indicator or zero. -/
theorem isIndicator_or_isLoose_of_isDigit {numeral : List Char}
    (hdigits : ∀ c ∈ numeral, c.isDigit = true)
    (hlength : numeral.length = 1 ∨ numeral.length = 2) :
    IsIndicator numeral ∨ IsLoose numeral := by
  have hle : value numeral ≤ 99 := by
    have hlt := Text.Numeral.value_lt_pow_length hdigits
    have hpow : 10 ^ numeral.length ≤ 10 ^ 2 := Nat.pow_le_pow_right (by decide) (by omega)
    omega
  rcases Nat.eq_zero_or_pos (value numeral) with hzero | hpos
  · right
    match numeral, hlength with
    | [a], _ =>
      have ha := Text.Numeral.eq_zero_of_digit_eq_zero (hdigits a List.mem_cons_self) (by
        rw [value] at hzero
        simpa using hzero)
      exact .inl (by rw [ha])
    | [a, b], _ =>
      have hsum : (0 * 10 + digit a) * 10 + digit b = 0 := hzero
      have ha := Text.Numeral.eq_zero_of_digit_eq_zero (hdigits a (by simp)) (by omega)
      have hb := Text.Numeral.eq_zero_of_digit_eq_zero (hdigits b (by simp)) (by omega)
      exact .inr (.inl (by rw [ha, hb]))
  · exact .inl ⟨hdigits, hlength, hpos, hle⟩

/-- Of the numerals in two columns no others are read. -/
theorem isIndicator_or_isLoose_of_byte?_ne_none {numeral : List Char} (hlength : numeral.length ≤ 2)
    (h : byte? numeral ≠ none) : IsIndicator numeral ∨ IsLoose numeral := by
  obtain ⟨n, hn⟩ := Option.ne_none_iff_exists'.1 h
  obtain ⟨k, hk, -⟩ := Option.map_eq_some_iff.1 hn
  obtain ⟨hne, hdigits, -, -⟩ := Text.Numeral.below?_eq_some_iff.1 hk
  by_cases hsign : numeral.head? = some '+'
  · -- the sign leaves one column for a digit
    obtain ⟨rest, rfl⟩ := List.head?_eq_some_iff.1 hsign
    obtain ⟨d, ds, rfl⟩ := List.exists_cons_of_ne_nil hne
    obtain rfl : ds = [] := by
      refine List.length_eq_zero_iff.1 ?_
      simp only [List.length_cons] at hlength
      omega
    exact .inr (.inr (.inr ⟨d, hdigits d List.mem_cons_self, rfl⟩))
  · have hunsigned : unsigned numeral = numeral := by
      rw [Text.Numeral.unsigned.eq_def]
      split
      · exact absurd rfl hsign
      · rfl
    rw [hunsigned] at hne hdigits
    have hpos := List.length_pos_iff.2 hne
    exact isIndicator_or_isLoose_of_isDigit hdigits (by omega)

/-! ### Slots -/

/-- What is read from a slot. -/
def read? (slot : List Char) : Option Condition :=
  (byte? (numeral slot)).map fun n ↦ ⟨n, slot.head? = some 'N'⟩

theorem ofZone_eq_filterMap (zone : String) : ofZone zone = (slotTexts zone).filterMap read? := by
  rw [ofZone, slotTexts, List.filterMap_map]
  refine List.filterMap_congr fun i hi ↦ ?_
  have hwidth : i + 3 ≤ 10 := by
    have hslots : ∀ i ∈ slots, i + 3 ≤ 10 := by decide
    exact hslots i hi
  have hslot : ((zone.toList.rightpad 10 ' ').drop i).take (i + 3 - i) =
      (List.range' i (i + 3 - i)).map (Text.column zone.toList) := by
    rw [Text.take_drop_rightpad zone.toList hwidth, Text.span_eq_map]
  rw [Nat.add_sub_cancel_left] at hslot
  have hflag : decide (some (Text.column zone.toList i) = some 'N') =
      decide (Text.column zone.toList i = 'N') := by
    simp only [Option.some.injEq]
  rw [Function.comp_apply, hslot]
  show ofSlot? _ _ _ =
    (byte? _).map fun n ↦ ⟨n, decide (some (Text.column zone.toList i) = some 'N')⟩
  rw [hflag]
  rfl

theorem length_numeral_le {zone : String} {slot : List Char} (h : slot ∈ slotTexts zone) :
    (numeral slot).length ≤ 2 := by
  obtain ⟨i, -, rfl⟩ := List.mem_map.1 h
  refine Nat.le_trans (Text.length_trim_le _) ?_
  rw [List.length_drop, List.length_take]
  omega

/-- What is written in a slot is read. -/
theorem written?_eq_none_or (slot : List Char) :
    written? slot = none ∨ written? slot = read? slot := by
  rw [written?]
  split
  · rename_i h
    rw [read?, h.byte?_eq, Option.map_some]
    exact .inr rfl
  · exact .inl rfl

/-- Nothing else is read, unless the numeral of the slot is loose. -/
theorem written?_eq_read?_iff {slot : List Char} (hlength : (numeral slot).length ≤ 2) :
    written? slot = read? slot ↔ ¬IsLoose (numeral slot) := by
  constructor
  · intro heq hloose
    rw [written?, if_neg hloose.not_isIndicator] at heq
    exact hloose.byte?_ne_none (Option.map_eq_none_iff.1 heq.symm)
  · intro hloose
    rcases written?_eq_none_or slot with hnone | heq
    · have hindicator : ¬IsIndicator (numeral slot) := by
        intro h
        rw [written?, if_pos h] at hnone
        cases hnone
      have hbyte : byte? (numeral slot) = none := by
        by_contra hne
        exact (isIndicator_or_isLoose_of_byte?_ne_none hlength hne).elim hindicator hloose
      rw [hnone, read?, hbyte, Option.map_none]
    · exact heq

end Condition

/-! ### Conditions of a member -/

/-- The conditions of the keywords and fields of a format. -/
def RecordFormat.conditions (f : RecordFormat) : List Condition :=
  f.keywords.flatMap Keyword.conditions ++
    f.fields.flatMap fun g ↦ g.conditions ++ g.keywords.flatMap Keyword.conditions

/-- The conditions of a member. -/
def Member.conditions (m : Member) : List Condition := m.formats.flatMap RecordFormat.conditions

namespace Member

/-- A well-formed member has conditions on indicators up to 99 only. -/
theorem WellFormed.indicator_le {m : Member} (hm : m.WellFormed) {c : Condition}
    (hc : c ∈ m.conditions) : c.indicator ≤ 99 := by
  have hkeywords : ∀ {ks : List Keyword}, (∀ k ∈ ks, k.WellFormed) →
      c ∈ ks.flatMap Keyword.conditions → c.indicator ≤ 99 := by
    intro ks hks hmem
    obtain ⟨k, hk, hck⟩ := List.mem_flatMap.1 hmem
    exact (hks k hk).conditions.indicator_le c hck
  obtain ⟨f, hf, hcf⟩ := List.mem_flatMap.1 hc
  have hformat := hm.formats f hf
  rcases List.mem_append.1 hcf with hcf | hcf
  · exact hkeywords hformat.keywords hcf
  · obtain ⟨g, hg, hcg⟩ := List.mem_flatMap.1 hcf
    rcases List.mem_append.1 hcg with hcg | hcg
    · exact (hformat.fields g hg).conditions.indicator_le c hcg
    · exact hkeywords (hformat.fields g hg).keywords hcg

/-- The only condition of a member that no command line can meet is one on indicator 0. -/
theorem canSwitchOn_iff_of_mem_conditions {texts : List String} {c : Condition}
    (hc : c ∈ (Member.ofLines texts).conditions) :
    Request.CanSwitchOn c.indicator ↔ c.indicator ≠ 0 := by
  have hle := (Member.wellFormed_ofLines texts).indicator_le hc
  rw [Request.canSwitchOn_iff, isSwitch, Bool.and_eq_true, decide_eq_true_eq, decide_eq_true_eq,
    and_iff_left hle]
  exact UInt8.pos_iff_ne_zero

end Member

/-- **All conditions that are written in a zone are read from it, and nothing else is, exactly when
no slot holds zero or a signed digit.** Of the conditions of a member those on indicator 0 are the
ones that cannot be switched on. -/
theorem Condition.ofZone_eq_written_iff (zone : String) (texts : List String) :
    (written zone).Sublist (ofZone zone) ∧
      (ofZone zone = written zone ↔ ∀ slot ∈ slotTexts zone, ¬IsLoose (numeral slot)) ∧
      ∀ c ∈ (Member.ofLines texts).conditions,
        (Request.CanSwitchOn c.indicator ↔ c.indicator ≠ 0) := by
  have hread : ∀ slot ∈ slotTexts zone, written? slot = none ∨ written? slot = read? slot :=
    fun slot _ ↦ written?_eq_none_or slot
  rw [ofZone_eq_filterMap]
  refine ⟨sublist_filterMap hread, ?_, fun c hc ↦ Member.canSwitchOn_iff_of_mem_conditions hc⟩
  rw [eq_comm, written, filterMap_eq_filterMap_iff hread]
  exact forall₂_congr fun slot hslot ↦ written?_eq_read?_iff (length_numeral_le hslot)

/-- What is read is not what is written: zero is read and a digit behind a plus sign is, and a field
on a line with a zero asks for an indicator that cannot be switched on. -/
theorem Condition.ofZone_ne_written_zero :
    ofZone "  00      " = [⟨0, false⟩] ∧ written "  00      " = [] ∧
      ofZone "  +5      " = [⟨5, false⟩] ∧ written "  +5      " = [] ∧
      ∃ c ∈ (Member.ofLines ["     A  00        FIELD1    10A  B  5 10"]).conditions,
        ¬Request.CanSwitchOn c.indicator := by
  refine ⟨by decide, by decide, by decide, by decide, ⟨0, false⟩, by decide +kernel, ?_⟩
  rw [Request.canSwitchOn_iff]
  decide

end DisplayFile

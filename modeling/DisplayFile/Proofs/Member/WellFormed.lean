import DisplayFile.Member.Query
import DisplayFile.Proofs.Keyword.Tokens
import DisplayFile.Proofs.Member.Routing
import DisplayFile.Proofs.Text.Decimal

/-!
# Members are well formed

Whatever stands on its lines, a member has a format, its fields and keywords have names, and every
number in it fits in the columns that it was read from (`Member.wellFormed_ofLines`). Nothing is
checked to that end while a member is assembled. Each bound is one of the layout: a column of so
many characters gives a number of at most so many digits (`Entry.amount_le`), a slot of the
conditioning zone gives an indicator of two, and the zone has three slots. Names come from lines
that have one, from the numbering of constants and from tokens, which are never empty.

A position is bounded by its columns in the row only. The column of a field can be relative, and
then adds up over the fields before it.
-/

namespace DisplayFile

/-! ### What is asked of a member -/

/-- The conditions have room in one conditioning zone. -/
structure Condition.FitZone (cs : List Condition) : Prop where
  length_le : cs.length ≤ 3
  indicator_le : ∀ c ∈ cs, c.indicator ≤ 99

/-- The keyword has a name, and conditions that a line has room for. -/
structure Keyword.WellFormed (k : Keyword) : Prop where
  name : k.name ≠ ""
  conditions : Condition.FitZone k.conditions

/-- The field has a name, numbers that fit in their columns, and the kind that its numbers ask
for. -/
structure Field.WellFormed (f : Field) : Prop where
  name : f.name ≠ ""
  conditions : Condition.FitZone f.conditions
  keywords : ∀ k ∈ f.keywords, k.WellFormed
  row : f.position.row ≤ 999
  length : f.length ≤ 99999
  decimals : f.decimals ≤ 99
  constant : f.usage = .constant → f.kind = .char ∧ f.length = 0 ∧ f.decimals = 0
  decimal : f.decimals ≠ 0 → f.kind = .decimal
  /-- Without a length the field is as wide as its text. -/
  width : f.length = 0 → f.effectiveLength = UInt32.ofNat f.value.length

/-- The keywords and the fields of the format are well formed. -/
structure RecordFormat.WellFormed (f : RecordFormat) : Prop where
  keywords : ∀ k ∈ f.keywords, k.WellFormed
  fields : ∀ g ∈ f.fields, g.WellFormed

/-- The member has a format, and all its formats are well formed. -/
structure Member.WellFormed (m : Member) : Prop where
  formats_ne_nil : m.formats ≠ []
  formats : ∀ f ∈ m.formats, f.WellFormed

/-! ### Numbers in columns -/

/-- The numeric attributes of the entry are no longer than their columns. -/
structure Entry.Narrow (e : Entry) : Prop where
  length : e.length.length ≤ 5
  decimals : e.decimals.length ≤ 2
  row : e.row.length ≤ 3

/-- A column is never wider than its places. -/
theorem Text.length_trimmedSpan_le (line : List Char) (start stop : Nat) :
    (trimmedSpan line start stop).length ≤ stop - start := by
  rw [trimmedSpan, String.length_ofList, ← length_span line start stop]
  exact length_trim_le _

/-- The entry of a line is narrow, since its columns are. -/
theorem Entry.narrow_of_ofLine? {line : String} {e : Entry} (h : ofLine? line = some e) :
    e.Narrow := by
  obtain ⟨-, rfl⟩ := ofLine?_eq_some_iff.1 h
  exact ⟨Text.length_trimmedSpan_le _ 29 34, Text.length_trimmedSpan_le _ 35 37,
    Text.length_trimmedSpan_le _ 38 41⟩

/-- A number in a column has at most as many digits as the column has characters. -/
theorem Entry.amount_le {text : String} {width : Nat} (h : text.length ≤ width) {bound : UInt32}
    (hbound : 10 ^ width ≤ bound.toNat + 1) : amount text ≤ bound := by
  rw [UInt32.le_iff_toNat_le, amount]
  cases hn : Text.number? text with
  | none => exact Nat.zero_le _
  | some n =>
    have hdigits := Text.number?_lt_pow_length hn
    have hwidth : 10 ^ text.length ≤ 10 ^ width := Nat.pow_le_pow_right (by decide) h
    show n.toNat ≤ bound.toNat
    omega

/-! ### Conditions and keywords -/

/-- A slot has two characters for the number of its indicator. -/
theorem Condition.indicator_le_of_ofSlot? {flag tens units : Char} {c : Condition}
    (h : ofSlot? flag tens units = some c) : c.indicator ≤ 99 := by
  obtain ⟨n, hn, rfl⟩ := Option.map_eq_some_iff.1 h
  obtain ⟨k, hk, rfl⟩ := Option.map_eq_some_iff.1 hn
  have hlt : k < 100 :=
    calc k < 10 ^ (Text.trim [tens, units]).length := Text.Numeral.below?_lt_pow_length hk
      _ ≤ 10 ^ 2 := Nat.pow_le_pow_right (by decide) (Text.length_trim_le _)
  have hword : (UInt8.ofNat k).toNat ≤ k := Nat.mod_le k _
  rw [UInt8.le_iff_toNat_le]
  show (UInt8.ofNat k).toNat ≤ 99
  omega

/-- The conditions of any zone are those that a zone has room for. -/
theorem Condition.fitZone_ofZone (zone : String) : FitZone (ofZone zone) where
  length_le := length_ofZone_le zone
  indicator_le c hc := by
    obtain ⟨i, -, hslot⟩ := List.mem_filterMap.1 hc
    exact indicator_le_of_ofSlot? hslot

theorem Text.upper_ne_empty {text : String} (h : text ≠ "") : upper text ≠ "" := by
  rw [upper, Ne, String.ofList_eq_empty_iff, List.flatMap_eq_nil_iff]
  intro hnone
  obtain ⟨c, cs, hcs⟩ := List.exists_cons_of_ne_nil fun hnil ↦ h (String.toList_eq_nil_iff.1 hnil)
  exact uppercase_ne_nil c (hnone c (by simp [hcs]))

/-- A keyword that is read has a name, since its token has. -/
theorem Keyword.wellFormed_of_mem_resolve {area : List Line} {k : Keyword}
    (hk : k ∈ (resolve area).keywords) : k.WellFormed := by
  obtain ⟨t, ht, rfl⟩ := exists_shaped_of_mem_resolve hk
  exact ⟨Text.upper_ne_empty ht.word_ne_empty, Condition.fitZone_ofZone t.stamp⟩

theorem Keyword.wellFormed_flag {name : String} (h : name ≠ "") : (flag name).WellFormed :=
  ⟨h, Nat.zero_le 3, by simp [flag]⟩

/-! ### Fields -/

namespace Field

theorem effectiveLength_of_length_eq_zero {f : Field} (h : f.length = 0) :
    f.effectiveLength = UInt32.ofNat f.value.length := by
  rw [effectiveLength, if_neg (by simp [h])]
  rfl

/-- Reading the keyword area of a field leaves it well formed. -/
theorem WellFormed.resolved {f : Field} (hf : f.WellFormed) {ks : List Keyword}
    (hks : ∀ k ∈ ks, k.WellFormed) (value : String) :
    ({ f with keywords := f.keywords ++ ks, value } : Field).WellFormed :=
  { hf with
    keywords := List.forall_mem_append.2 ⟨hf.keywords, hks⟩
    width := effectiveLength_of_length_eq_zero }

end Field

namespace Entry

/-- A field may be placed relative to the one before it, but its row is that of its columns. -/
theorem row_positionAfter_le {e : Entry} (he : e.Narrow) (before : Option Field) :
    (e.positionAfter before).row ≤ 999 := by
  have hrow : amount e.row ≤ 999 := amount_le he.row (by decide)
  rw [positionAfter.eq_def]
  split
  · exact hrow
  · split
    · exact UInt32.zero_le
    · exact hrow

/-- A constant is well-formed wherever its row is. -/
theorem wellFormed_constantField {e : Entry} (ordinal : UInt32) {position : Position}
    (hrow : position.row ≤ 999) : (e.constantField ordinal position).WellFormed where
  name := by simp [constantField]
  conditions := Condition.fitZone_ofZone e.zone
  keywords := by simp [constantField]
  row := hrow
  length := UInt32.zero_le
  decimals := UInt32.zero_le
  constant _ := ⟨rfl, rfl, rfl⟩
  decimal h := absurd rfl h
  width := Field.effectiveLength_of_length_eq_zero

/-- A named field is well formed, whatever its data type makes of the numbers. -/
theorem wellFormed_named {e : Entry} (hname : e.name ≠ "") {position : Position}
    (hrow : position.row ≤ 999) {kind : DataKind} {length decimals : UInt32}
    {keywords : List Keyword} (hlength : length ≤ 99999) (hdecimals : decimals ≤ 99)
    (hkind : decimals ≠ 0 → kind = .decimal) (hkeywords : ∀ k ∈ keywords, k.WellFormed) :
    Field.WellFormed
      { name := e.name
        kind
        usage := e.fieldUsage
        length
        decimals
        position
        conditions := Condition.ofZone e.zone
        keywords
        value := "" } where
  name := hname
  conditions := Condition.fitZone_ofZone e.zone
  keywords := hkeywords
  row := hrow
  length := hlength
  decimals := hdecimals
  constant h := absurd h e.fieldUsage_ne_constant
  decimal := hkind
  width := Field.effectiveLength_of_length_eq_zero

theorem wellFormed_namedField {e : Entry} (he : e.Narrow) (hname : e.name ≠ "")
    {position : Position} (hrow : position.row ≤ 999) : (e.namedField position).WellFormed := by
  have hlength : amount e.length ≤ 99999 := amount_le he.length (by decide)
  have hdecimals : amount e.decimals ≤ 99 := amount_le he.decimals (by decide)
  have hflag : ∀ {name : String}, name ≠ "" → ∀ k ∈ [Keyword.flag name], k.WellFormed := by
    intro name hne k hk
    rw [List.mem_singleton.1 hk]
    exact Keyword.wellFormed_flag hne
  have hnone : ∀ k ∈ ([] : List Keyword), k.WellFormed := by simp
  rw [namedField]
  dsimp only
  split
  · exact wellFormed_named hname hrow hlength hdecimals (fun _ ↦ rfl) hnone
  · exact wellFormed_named hname hrow hlength hdecimals (fun _ ↦ rfl) hnone
  · exact wellFormed_named hname hrow hlength hdecimals (fun _ ↦ rfl) hnone
  · exact wellFormed_named hname hrow (by decide) UInt32.zero_le (absurd rfl) (hflag (by decide))
  · exact wellFormed_named hname hrow (by decide) UInt32.zero_le (absurd rfl) (hflag (by decide))
  · exact wellFormed_named hname hrow hlength UInt32.zero_le (absurd rfl) hnone

/-- Every field that a narrow entry opens is well-formed. -/
theorem wellFormed_openedField {e : Entry} (he : e.Narrow) (constants : Nat)
    (before : Option Field) : (e.openedField constants before).WellFormed := by
  have hrow := row_positionAfter_le he before
  rw [openedField]
  cases hname : e.name.isEmpty with
  | true => exact wellFormed_constantField _ hrow
  | false =>
    refine wellFormed_namedField he (fun hempty ↦ ?_) hrow
    rw [hempty] at hname
    cases hname

end Entry

theorem Field.wellFormed_ofRun {run : Entry × List Entry} (h : run.1.Narrow) (constants : Nat)
    (before : Option Field) : (Field.ofRun constants before run).WellFormed :=
  (Entry.wellFormed_openedField h constants before).resolved
    (fun _ ↦ Keyword.wellFormed_of_mem_resolve) _

/-! ### Formats and members -/

/-- The format of a segment of narrow entries is well-formed. -/
theorem Segment.wellFormed_format {s : Segment} (hs : ∀ e ∈ s.entries, e.Narrow)
    (constants : Nat) : (s.format constants).WellFormed where
  keywords k hk := by
    rw [format, RecordFormat.keywords_resolveWindow] at hk
    exact Keyword.wellFormed_of_mem_resolve hk
  fields f hf := by
    rw [format, RecordFormat.fields_resolveWindow] at hf
    obtain ⟨run, hrun, n, before, rfl⟩ := exists_run_of_mem_fieldsOfRuns hf
    exact Field.wellFormed_ofRun (hs run.1 (Entry.mem_of_mem_parts_runs hrun)) n before

/-- **Any lines make a well-formed member.** -/
theorem Member.wellFormed_ofLines (texts : List String) : (Member.ofLines texts).WellFormed where
  formats_ne_nil := by
    rw [Member.ofLines_eq_ofSegments]
    exact List.cons_ne_nil _ _
  formats f hf := by
    obtain ⟨s, hs, n, rfl⟩ := exists_segment_of_mem_formats hf
    refine Segment.wellFormed_format (fun e he ↦ ?_) n
    obtain ⟨text, -, hline⟩ := exists_line_of_mem_segments hs he
    exact Entry.narrow_of_ofLine? hline

end DisplayFile

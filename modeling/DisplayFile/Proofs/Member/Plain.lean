import DisplayFile.Member.Json
import DisplayFile.Proofs.Json.Plain
import DisplayFile.Proofs.Member.Ranges
import DisplayFile.Proofs.Text.Lines
import DisplayFile.Proofs.Text.Utf8

/-!
# The JSON form of a member is plain

The JSON form of a member has ascending keys and natural numbers only, and it is nine levels deep at
most, far from the limit of the reader. Its numbers are words of 8 and 32 bits, except for the line
numbers of the record formats, which have no bound of their own (`Member.LinesBelow`).
-/

namespace DisplayFile

open Json (Plain)

variable {bound depth : Nat}

/-- A number of one byte is below every bound that numbers of 32 bits are below. -/
theorem Json.Plain.ofByte (hbound : UInt32.size ≤ bound) (n : UInt8) :
    Plain bound depth (Json.ofNat n.toNat) :=
  .ofNat (Nat.lt_of_lt_of_le n.toNat_lt (Nat.le_trans (by decide) hbound))

theorem Json.Plain.ofWord (hbound : UInt32.size ≤ bound) (n : UInt32) :
    Plain bound depth (Json.ofNat n.toNat) :=
  .ofNat (Nat.lt_of_lt_of_le n.toNat_lt hbound)

/-- A string that may be absent is plain. -/
theorem Json.Plain.ofOptionalString (s : Option String) :
    Plain bound depth (Json.ofOption Json.ofString s) :=
  .ofOption fun s _ ↦ .string s

/-- A condition is one level deep. -/
theorem Condition.plain_toJson (hbound : UInt32.size ≤ bound) (c : Condition) :
    Plain bound (depth + 1) c.toJson := by
  refine .ofMembers ["indicator", "negate"] (by decide) rfl ?_
  simp only [List.forall_mem_cons]
  exact ⟨.ofByte hbound _, .bool _, List.forall_mem_nil _⟩

/-- A keyword is three levels deep, with its conditions in a list inside it. -/
theorem Keyword.plain_toJson (hbound : UInt32.size ≤ bound) (k : Keyword) :
    Plain bound (depth + 3) k.toJson := by
  refine .ofMembers ["conditions", "name", "value"] (by decide) rfl ?_
  simp only [List.forall_mem_cons]
  exact ⟨.ofList fun c _ ↦ c.plain_toJson hbound, .string _, .ofOptionalString _,
    List.forall_mem_nil _⟩

theorem Position.plain_toJson (hbound : UInt32.size ≤ bound) (p : Position) :
    Plain bound (depth + 1) p.toJson := by
  refine .ofMembers ["col", "row"] (by decide) rfl ?_
  simp only [List.forall_mem_cons]
  exact ⟨.ofWord hbound _, .ofWord hbound _, List.forall_mem_nil _⟩

theorem DataKind.plain_toJson (k : DataKind) : Plain bound depth k.toJson := by
  cases k <;> exact .string _

/-- A field is five levels deep, with the keywords in a list inside it. -/
theorem Field.plain_toJson (hbound : UInt32.size ≤ bound) (f : Field) :
    Plain bound (depth + 5) f.toJson := by
  refine .ofMembers
    ["conditions", "decimals", "displayMode", "keywords", "kind", "length", "name", "position",
      "value"] (by decide) rfl ?_
  simp only [List.forall_mem_cons]
  exact ⟨.ofList fun c _ ↦ c.plain_toJson hbound, .ofWord hbound _, .string _,
    .ofList fun k _ ↦ k.plain_toJson hbound, f.kind.plain_toJson, .ofWord hbound _, .string _,
    f.position.plain_toJson hbound, .string _, List.forall_mem_nil _⟩

theorem Window.plain_toJson (hbound : UInt32.size ≤ bound) (w : Window) :
    Plain bound (depth + 1) w.toJson := by
  refine .ofMembers ["height", "originCol", "originRow", "width"] (by decide) rfl ?_
  simp only [List.forall_mem_cons]
  exact ⟨.ofWord hbound _, .ofWord hbound _, .ofWord hbound _, .ofWord hbound _,
    List.forall_mem_nil _⟩

/-- The lines of a range, also the one behind it, have numbers below a bound. -/
def LineRange.Below (bound : Nat) (r : LineRange) : Prop :=
  r.start < bound ∧ r.stop < bound

/-- A range is plain when its line numbers are below the bound. No other numbers of a member need to
be bounded. -/
theorem LineRange.plain_toJson {r : LineRange} (h : r.Below bound) :
    Plain bound (depth + 1) r.toJson := by
  refine .ofMembers ["end", "start"] (by decide) rfl ?_
  simp only [List.forall_mem_cons]
  exact ⟨.ofNat h.2, .ofNat h.1, List.forall_mem_nil _⟩

/-- A format is seven levels deep, with the fields in a list inside it. -/
theorem RecordFormat.plain_toJson (hbound : UInt32.size ≤ bound) {f : RecordFormat}
    (h : f.lines.Below bound) : Plain bound (depth + 7) f.toJson := by
  refine .ofMembers
    ["fields", "isWindow", "keywords", "name", "sourceRange", "windowReference", "windowSize"]
    (by decide) rfl ?_
  simp only [List.forall_mem_cons]
  exact ⟨.ofList fun g _ ↦ g.plain_toJson hbound, .bool _,
    .ofList fun k _ ↦ k.plain_toJson hbound, .string _, LineRange.plain_toJson h,
    .ofOptionalString _, f.window.plain_toJson hbound, List.forall_mem_nil _⟩

/-- The line numbers of a member are below a bound. All its other numbers are words, of 32 bits at
most. -/
def Member.LinesBelow (bound : Nat) (m : Member) : Prop :=
  ∀ f ∈ m.formats, f.lines.Below bound

/-- **The JSON form of a member is plain**, with numbers below any bound that is beyond the words
and the lines of the member. -/
theorem Member.plain_toJson (hbound : UInt32.size ≤ bound) {m : Member} (h : m.LinesBelow bound) :
    Plain bound (depth + 9) m.toJson := by
  refine .ofMembers ["formats"] (by decide) rfl ?_
  simp only [List.forall_mem_cons]
  exact ⟨.ofList fun f hf ↦ RecordFormat.plain_toJson hbound (h f hf), List.forall_mem_nil _⟩

/-! ### Line numbers -/

/-- Ranges between cuts stay below a bound when their ends and all cuts do. -/
theorem LineRange.below_of_mem_between {start stop : Nat} {cuts : List Nat}
    (hstart : start < bound) (hstop : stop < bound) (hcuts : ∀ i ∈ cuts, i < bound) {r : LineRange}
    (hr : r ∈ LineRange.between start cuts stop) : r.Below bound := by
  have hstarts : r.start ∈ start :: cuts := by
    rw [← map_start_between start cuts stop]
    exact List.mem_map_of_mem hr
  have hstops : r.stop ∈ cuts ++ [stop] := by
    rw [← map_stop_between start cuts stop]
    exact List.mem_map_of_mem hr
  constructor
  · obtain heq | hmem := List.mem_cons.1 hstarts
    · rwa [heq]
    · exact hcuts _ hmem
  · obtain hmem | hmem := List.mem_append.1 hstops
    · exact hcuts _ hmem
    · rwa [List.mem_singleton.1 hmem]

/-- No line number of a member is beyond the number of its lines. -/
theorem Member.linesBelow_ofLines {texts : List String} (h : texts.length < bound) :
    (Member.ofLines texts).LinesBelow bound := by
  intro f hf
  refine LineRange.below_of_mem_between (Nat.zero_lt_of_lt h) h
    (fun i hi ↦ Nat.lt_trans (lt_length_of_mem_recordLines hi) h) ?_
  rw [← lines_ofLines]
  exact List.mem_map_of_mem hf

/-- Nor is it beyond the number of its bytes. -/
theorem Member.linesBelow_ofBytes {bytes : ByteArray} (h : bytes.size < bound) :
    (Member.ofBytes bytes).LinesBelow bound :=
  linesBelow_ofLines (Nat.lt_of_le_of_lt (Nat.le_trans (Text.length_lines_le _)
    (Text.Utf8.length_decodeLossy_le bytes)) h)

end DisplayFile

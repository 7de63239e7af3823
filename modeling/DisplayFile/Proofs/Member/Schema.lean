import DisplayFile.Member.Json
import DisplayFile.Proofs.Member.WellFormed

/-!
# The schema of members in JSON

Programs that take members in JSON rely on a schema: it says which attributes an object has and what
each of them can be. `Json.Schema` has the kinds of demand that it is made of, and `Member.schema`
is the schema. It is stricter than the types of the project, in which a name can be empty, an
indicator can be any byte and a line can have any number of conditions.

A member meets the schema when it is well formed, and a keyword only then
(`Keyword.accepts_toJson`). As any lines make a well-formed member, whatever is assembled meets the
schema (`ofLines_valid`).
-/

namespace DisplayFile

namespace Json

/-- What is asked of a JSON value. -/
inductive Schema where
  | boolean
  /-- A number written as an integer, within bounds. -/
  | integer (minimum : Nat) (maximum : Option Nat)
  | string (minLength : Nat)
  /-- A string or null. -/
  | optionalString
  /-- One of these strings. -/
  | choice (names : List String)
  | array (minItems : Nat) (maxItems : Option Nat) (items : Schema)
  /-- An object with these members and no others. -/
  | object (properties : List (String × Schema))

namespace Schema

/-- Whether a number is within bounds. -/
def within (minimum : Nat) (maximum : Option Nat) (n : Nat) : Bool :=
  minimum ≤ n && maximum.all (n ≤ ·)

mutual

/-- Whether a value meets a schema. -/
@[simp] def accepts : Schema → Json → Bool
  | .boolean, .bool _ => true
  | .integer minimum maximum, .number (.integer (.ofNat n)) => within minimum maximum n
  | .string minLength, .string s => minLength ≤ s.length
  | .optionalString, .string _ => true
  | .optionalString, .null => true
  | .choice names, .string s => names.contains s
  | .array minItems maxItems items, .array values =>
    within minItems maxItems values.length && values.all (accepts items)
  | .object properties, .object members =>
    acceptsMembers properties members &&
      members.all fun member ↦ (properties.map Prod.fst).contains member.1
  | _, _ => false

/-- Whether an object has all members of a list, each with a value that meets its schema. -/
@[simp] def acceptsMembers : List (String × Schema) → Members → Bool
  | [], _ => true
  | (name, schema) :: properties, members =>
    (find? name members).any (accepts schema) && acceptsMembers properties members

end

end Schema

end Json

open Json (Schema)

/-! ### The schema -/

/-- A number that counts something. -/
def Json.Schema.count : Schema := .integer 0 none

def LineRange.schema : Schema := .object [("start", .count), ("end", .count)]

def Window.schema : Schema :=
  .object [("originRow", .count), ("originCol", .count), ("width", .count), ("height", .count)]

def Condition.schema : Schema :=
  .object [("indicator", .integer 0 (some 99)), ("negate", .boolean)]

/-- The conditions of one line. -/
def Condition.listSchema : Schema := .array 0 (some 3) Condition.schema

def Keyword.schema : Schema :=
  .object [("name", .string 1), ("value", .optionalString), ("conditions", Condition.listSchema)]

def Position.schema : Schema := .object [("row", .count), ("col", .count)]

def DataKind.schema : Schema := .choice ["char", "decimal"]

def Usage.schema : Schema := .choice ["input", "output", "both", "hidden", "const"]

def Field.schema : Schema :=
  .object
    [("name", .string 1), ("kind", DataKind.schema), ("displayMode", Usage.schema),
     ("length", .count), ("decimals", .count), ("position", Position.schema),
     ("conditions", Condition.listSchema), ("keywords", .array 0 none Keyword.schema),
     ("value", .string 0)]

def RecordFormat.schema : Schema :=
  .object
    [("name", .string 0), ("sourceRange", LineRange.schema), ("isWindow", .boolean),
     ("windowReference", .optionalString), ("windowSize", Window.schema),
     ("keywords", .array 0 none Keyword.schema), ("fields", .array 0 none Field.schema)]

/-- The schema of members. -/
def Member.schema : Schema := .object [("formats", .array 1 none RecordFormat.schema)]

/-- No field takes part in the dialogue as a program. -/
example : Usage.schema.accepts (.string "program") = false := by decide

/-! ### What meets it -/

namespace Json.Schema

/-- An integer is accepted exactly within its bounds. -/
theorem accepts_ofNat (minimum : Nat) (maximum : Option Nat) (n : Nat) :
    (integer minimum maximum).accepts (Json.ofNat n) = within minimum maximum n := rfl

@[simp] theorem accepts_count (n : Nat) : count.accepts (Json.ofNat n) = true := by
  simp [count, accepts_ofNat, within]

@[simp] theorem accepts_optionalString (s : Option String) :
    optionalString.accepts (Json.ofOption Json.ofString s) = true := by
  cases s <;> simp [Json.ofOption]

/-- A string that has to have a character is one that is not empty. -/
theorem accepts_string_one {s : String} :
    (string 1).accepts (.string s) = true ↔ s ≠ "" := by
  rw [accepts, decide_eq_true_iff, Nat.one_le_iff_ne_zero, Ne, String.length_eq_zero_iff]

/-- A list meets the schema of an array when it has the length and its items meet theirs. -/
theorem accepts_ofList_iff {α : Type} {write : α → Json} {minItems : Nat} {maxItems : Option Nat}
    {items : Schema} {as : List α} :
    (array minItems maxItems items).accepts (Json.ofList write as) = true ↔
      within minItems maxItems as.length = true ∧ ∀ a ∈ as, items.accepts (write a) = true := by
  simp [Json.ofList]

end Json.Schema

/-! An object meets its schema when each of its members, found under its key, meets its own. -/

/-- A range is always accepted, since the schema bounds line numbers from below only. -/
theorem LineRange.accepts_toJson (r : LineRange) : LineRange.schema.accepts r.toJson = true := by
  simp [LineRange.schema, LineRange.toJson]

/-- A window is always accepted, whatever its numbers are. -/
theorem Window.accepts_toJson (w : Window) : Window.schema.accepts w.toJson = true := by
  simp [Window.schema, Window.toJson]

theorem Position.accepts_toJson (p : Position) : Position.schema.accepts p.toJson = true := by
  simp [Position.schema, Position.toJson]

theorem DataKind.accepts_toJson (k : DataKind) : DataKind.schema.accepts k.toJson = true := by
  cases k <;> decide

theorem Usage.accepts_toJson (u : Usage) : Usage.schema.accepts u.toJson = true := by
  cases u <;> decide

/-- A condition is accepted exactly when its indicator has two digits at most. -/
theorem Condition.accepts_toJson {c : Condition} :
    Condition.schema.accepts c.toJson = true ↔ c.indicator ≤ 99 := by
  simp [Condition.schema, Condition.toJson, Schema.accepts_ofNat, Schema.within,
    UInt8.le_iff_toNat_le]

/-- Conditions are accepted exactly when they could stand in a condition zone. -/
theorem Condition.accepts_ofList {cs : List Condition} :
    Condition.listSchema.accepts (Json.ofList Condition.toJson cs) = true ↔
      Condition.FitZone cs := by
  simp only [Condition.listSchema, Schema.accepts_ofList_iff, Condition.accepts_toJson]
  constructor
  · rintro ⟨hlength, hindicators⟩
    exact ⟨by simpa [Schema.within] using hlength, hindicators⟩
  · intro h
    exact ⟨by simpa [Schema.within] using h.length_le, h.indicator_le⟩

/-- **A keyword meets the schema exactly when it is well formed.** -/
theorem Keyword.accepts_toJson {k : Keyword} :
    Keyword.schema.accepts k.toJson = true ↔ k.WellFormed := by
  have hmembers : Keyword.schema.accepts k.toJson = true ↔
      (Schema.string 1).accepts (.string k.name) = true ∧
        Condition.listSchema.accepts (Json.ofList Condition.toJson k.conditions) = true := by
    simp [Keyword.schema, Keyword.toJson]
  rw [hmembers, Schema.accepts_string_one, Condition.accepts_ofList]
  exact ⟨fun h ↦ ⟨h.1, h.2⟩, fun h ↦ ⟨h.name, h.conditions⟩⟩

/-- A list of keywords is accepted exactly when each of them is well-formed. -/
theorem Keyword.accepts_ofList {ks : List Keyword} :
    (Schema.array 0 none Keyword.schema).accepts (Json.ofList Keyword.toJson ks) = true ↔
      ∀ k ∈ ks, k.WellFormed := by
  simp only [Schema.accepts_ofList_iff, Keyword.accepts_toJson]
  simp [Schema.within]

/-- What the schema asks of a field concerns its name, its conditions and its keywords. -/
theorem Field.accepts_toJson {f : Field} :
    Field.schema.accepts f.toJson = true ↔
      f.name ≠ "" ∧ Condition.FitZone f.conditions ∧ ∀ k ∈ f.keywords, k.WellFormed := by
  rw [← Schema.accepts_string_one, ← Condition.accepts_ofList, ← Keyword.accepts_ofList]
  simp [Field.schema, Field.toJson, DataKind.accepts_toJson, Usage.accepts_toJson,
    Position.accepts_toJson]

/-- A format is accepted exactly when its keywords and its fields are. -/
theorem RecordFormat.accepts_toJson {f : RecordFormat} :
    RecordFormat.schema.accepts f.toJson = true ↔
      (∀ k ∈ f.keywords, k.WellFormed) ∧ ∀ g ∈ f.fields, Field.schema.accepts g.toJson = true := by
  have hfields : (Schema.array 0 none Field.schema).accepts (Json.ofList Field.toJson f.fields) =
      true ↔ ∀ g ∈ f.fields, Field.schema.accepts g.toJson = true := by
    simp [Schema.accepts_ofList_iff, Schema.within]
  rw [← Keyword.accepts_ofList, ← hfields]
  simp [RecordFormat.schema, RecordFormat.toJson, LineRange.accepts_toJson, Window.accepts_toJson]

/-- A member is accepted exactly when it has formats and each of them is accepted. -/
theorem Member.accepts_toJson {m : Member} :
    Member.schema.accepts m.toJson = true ↔
      m.formats ≠ [] ∧ ∀ f ∈ m.formats, RecordFormat.schema.accepts f.toJson = true := by
  have hformats : Member.schema.accepts m.toJson = true ↔
      (Schema.array 1 none RecordFormat.schema).accepts
        (Json.ofList RecordFormat.toJson m.formats) = true := by
    simp [Member.schema, Member.toJson]
  rw [hformats, Schema.accepts_ofList_iff]
  simp [Schema.within, Nat.one_le_iff_ne_zero]

/-- A well-formed member meets the schema. -/
theorem Member.WellFormed.accepts_toJson {m : Member} (h : m.WellFormed) :
    Member.schema.accepts m.toJson = true := by
  refine Member.accepts_toJson.2 ⟨h.formats_ne_nil, fun f hf ↦ ?_⟩
  have hf := h.formats f hf
  refine RecordFormat.accepts_toJson.2 ⟨hf.keywords, fun g hg ↦ ?_⟩
  have hg := hf.fields g hg
  exact Field.accepts_toJson.2 ⟨hg.name, hg.conditions, hg.keywords⟩

/-- **Any lines make a member that is well formed and that meets the schema.** -/
theorem ofLines_valid (texts : List String) :
    (Member.ofLines texts).WellFormed ∧
      Member.schema.accepts (Member.ofLines texts).toJson = true := by
  have hmember := Member.wellFormed_ofLines texts
  exact ⟨hmember, hmember.accepts_toJson⟩

end DisplayFile

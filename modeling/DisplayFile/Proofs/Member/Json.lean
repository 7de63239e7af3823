import DisplayFile.Member.Json

/-!
# Members read back from JSON

The JSON form of a member loses nothing: each type reads back what it writes. An object is read by
looking each attribute up under its key, so that it does not matter that the keys are written in
ascending order and asked for in the order of the attributes. Below the objects stand numbers,
which fit the word they came from, and strings that may be absent. An absent string is null, and
null is no string, so that it is not taken for an empty one.

Members with the same JSON form are therefore equal (`Member.toJson_lossless`).
-/

namespace DisplayFile

/-- A string that may be absent reads back, since no string is null. -/
theorem Json.optional_ofOption_ofString (s : Option String) :
    optional string? (some (ofOption ofString s)) = some s :=
  optional_ofOption string?_string (fun _ ↦ nofun) s

/-- A condition reads back, since its indicator is a number of one byte. -/
theorem Condition.ofJson?_toJson (c : Condition) : Condition.ofJson? c.toJson = some c := by
  simp [ofJson?, toJson]

/-- The conditions of a line read back. -/
theorem Condition.list?_ofList (cs : List Condition) :
    (Json.ofList Condition.toJson cs).list? Condition.ofJson? = some cs :=
  Json.list?_ofList Condition.ofJson?_toJson cs

/-- A keyword reads back, and one without a value is not one with an empty value. -/
theorem Keyword.ofJson?_toJson (k : Keyword) : Keyword.ofJson? k.toJson = some k := by
  simp [ofJson?, toJson, Json.optional_ofOption_ofString, Condition.list?_ofList]

/-- The keywords of a field or a record format read back. -/
theorem Keyword.list?_ofList (ks : List Keyword) :
    (Json.ofList Keyword.toJson ks).list? Keyword.ofJson? = some ks :=
  Json.list?_ofList Keyword.ofJson?_toJson ks

/-- A kind of data reads back from its name, which no other kind has. -/
theorem DataKind.ofJson?_toJson (k : DataKind) : DataKind.ofJson? k.toJson = some k := by
  cases k <;> rfl

/-- A usage reads back from its name, which no other usage has. -/
theorem Usage.ofJson?_toJson (u : Usage) : Usage.ofJson? u.toJson = some u := by
  cases u <;> rfl

theorem Position.ofJson?_toJson (p : Position) : Position.ofJson? p.toJson = some p := by
  simp [ofJson?, toJson]

/-- A field reads back with its conditions and keywords in their order. -/
theorem Field.ofJson?_toJson (f : Field) : Field.ofJson? f.toJson = some f := by
  simp [ofJson?, toJson, DataKind.ofJson?_toJson, Usage.ofJson?_toJson, Position.ofJson?_toJson,
    Condition.list?_ofList, Keyword.list?_ofList]

theorem LineRange.ofJson?_toJson (r : LineRange) : LineRange.ofJson? r.toJson = some r := by
  simp [ofJson?, toJson]

theorem Window.ofJson?_toJson (w : Window) : Window.ofJson? w.toJson = some w := by
  simp [ofJson?, toJson]

/-- A format reads back, with the name of the one that its window is borrowed from, if any. -/
theorem RecordFormat.ofJson?_toJson (f : RecordFormat) :
    RecordFormat.ofJson? f.toJson = some f := by
  have hfields : (Json.ofList Field.toJson f.fields).list? Field.ofJson? = some f.fields :=
    Json.list?_ofList Field.ofJson?_toJson f.fields
  simp [ofJson?, toJson, Json.optional_ofOption_ofString, LineRange.ofJson?_toJson,
    Window.ofJson?_toJson, Keyword.list?_ofList, hfields]

/-- A member reads back format by format. -/
theorem Member.ofJson?_toJson (m : Member) : Member.ofJson? m.toJson = some m := by
  have hformats : (Json.ofList RecordFormat.toJson m.formats).list? RecordFormat.ofJson? =
      some m.formats := Json.list?_ofList RecordFormat.ofJson?_toJson m.formats
  simp [ofJson?, toJson, hformats]

/-- **Every member reads back from its JSON form, and no two have the same form.** -/
theorem Member.toJson_lossless :
    (∀ m : Member, Member.ofJson? m.toJson = some m) ∧ Function.Injective Member.toJson := by
  refine ⟨Member.ofJson?_toJson, fun m m' h ↦ ?_⟩
  have hread : some m = some m' := by
    rw [← Member.ofJson?_toJson m, ← Member.ofJson?_toJson m', h]
  exact Option.some.inj hread

end DisplayFile

import DisplayFile.Json.Basic

/-!
# Records in JSON

A record is written as an object with one member for each attribute. It is read from an object,
where the order of the members does not matter and others are passed over, or from an array that has
exactly the values of the attributes in their order. An attribute that may be absent is null or, in
an object, missing.

The readers refuse a value of the wrong kind: an integer is written without point and exponent and
has to fit the word that it is read into.
-/

namespace DisplayFile.Json

/-- The values of the attributes of a record, in the order of their names. -/
def attributes? (names : List String) : Json → Option (List (Option Json))
  | .object members => some (names.map fun name ↦ find? name members)
  | .array items => if items.length = names.length then some (items.map some) else none
  | _ => none

/-- The value of an attribute that has to be there. -/
def required {α : Type} (read? : Json → Option α) (value : Option Json) : Option α :=
  value.bind read?

/-- The value of an attribute that may be absent. -/
def optional {α : Type} (read? : Json → Option α) : Option Json → Option (Option α)
  | none | some .null => some none
  | some j => (read? j).map some

/-- A natural number. -/
def nat? : Json → Option Nat
  | .number (.integer (.ofNat n)) => some n
  | _ => none

/-- A number of one byte. -/
def byte? (j : Json) : Option UInt8 :=
  j.nat?.bind fun n ↦ if n < UInt8.size then some (UInt8.ofNat n) else none

/-- A number of 32 bits. -/
def word? (j : Json) : Option UInt32 :=
  j.nat?.bind fun n ↦ if n < UInt32.size then some (UInt32.ofNat n) else none

/-- A truth value. -/
def bool? : Json → Option Bool
  | .bool b => some b
  | _ => none

/-- A string. -/
def string? : Json → Option String
  | .string s => some s
  | _ => none

/-- The name of one of several choices, alone or as the key of an object with nothing else. -/
def choice? : Json → Option String
  | .string name => some name
  | .object [(name, .null)] => some name
  | _ => none

/-- A list. -/
def list? {α : Type} (read? : Json → Option α) : Json → Option (List α)
  | .array items => items.mapM read?
  | _ => none

/-- An absent value is written as null. -/
def ofOption {α : Type} (write : α → Json) : Option α → Json
  | none => .null
  | some a => write a

/-- A list is written as an array. -/
def ofList {α : Type} (write : α → Json) (as : List α) : Json :=
  .array (as.map write)

/-- An object is asked for each attribute by its name. -/
@[simp] theorem attributes?_object (names : List String) (members : Members) :
    (object members).attributes? names = some (names.map fun name ↦ find? name members) := rfl

@[simp] theorem required_some {α : Type} (read? : Json → Option α) (j : Json) :
    required read? (some j) = read? j := rfl

@[simp] theorem bool?_bool (b : Bool) : (bool b).bool? = some b := rfl

@[simp] theorem string?_string (s : String) : (string s).string? = some s := rfl

/-- A natural number reads back, however large it is. -/
@[simp] theorem nat?_ofNat (n : Nat) : (ofNat n).nat? = some n := rfl

/-- A number of one byte reads back, since it fits. -/
@[simp] theorem byte?_ofNat (n : UInt8) : (ofNat n.toNat).byte? = some n := by
  simp [byte?, n.toNat_lt]

/-- A number of 32 bits reads back, since it fits. -/
@[simp] theorem word?_ofNat (n : UInt32) : (ofNat n.toNat).word? = some n := by
  simp [word?, n.toNat_lt]

/-- A list reads back when each of its items does. -/
theorem list?_ofList {α : Type} {write : α → Json} {read? : Json → Option α}
    (h : ∀ a, read? (write a) = some a) (as : List α) :
    (ofList write as).list? read? = some as := by
  induction as with
  | nil => rfl
  | cons a as ih =>
    simp only [list?, ofList, List.map_cons, List.mapM_cons] at ih ⊢
    rw [h, ih]
    rfl

/-- A value that may be absent reads back when it is never written as null. -/
theorem optional_ofOption {α : Type} {write : α → Json} {read? : Json → Option α}
    (h : ∀ a, read? (write a) = some a) (hnull : ∀ a, write a ≠ .null) (a : Option α) :
    optional read? (some (ofOption write a)) = some a := by
  cases a with
  | none => rfl
  | some a =>
    have := hnull a
    simp only [ofOption]
    cases hw : write a <;> simp_all [optional]
    all_goals rw [← hw, h]

end DisplayFile.Json

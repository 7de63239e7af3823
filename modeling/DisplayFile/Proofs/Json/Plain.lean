import DisplayFile.Json.Record

/-!
# Plain values

The values that are written here all have a simple form: their numbers are natural numbers below a
bound, their objects have each key once and in ascending order, and only so many arrays and objects
stand inside each other. Such a value reads back from its text, and it agrees with no other one when
its numbers are small enough.

The bound and the depth are indexes of the predicate. A value that is plain for some of them is
plain for greater ones (`Plain.mono`).
-/

namespace DisplayFile.Json

/-- The value has natural numbers below `bound` only, ascending keys, and no more than `depth`
arrays and objects inside each other. -/
inductive Plain (bound : Nat) : Nat → Json → Prop where
  | null {depth : Nat} : Plain bound depth .null
  | bool {depth : Nat} (b : Bool) : Plain bound depth (.bool b)
  | number {depth n : Nat} (lt : n < bound) : Plain bound depth (.number (.integer n))
  | string {depth : Nat} (s : String) : Plain bound depth (.string s)
  | array {depth : Nat} {items : List Json} (items_plain : ∀ item ∈ items, Plain bound depth item) :
      Plain bound (depth + 1) (.array items)
  | object {depth : Nat} {members : Members} (ascending : members.Pairwise (·.1 < ·.1))
      (members_plain : ∀ m ∈ members, Plain bound depth m.2) :
      Plain bound (depth + 1) (.object members)

namespace Plain

variable {bound depth : Nat}

theorem mono {bound' depth' : Nat} (hbound : bound ≤ bound') (hdepth : depth ≤ depth') {j : Json}
    (h : Plain bound depth j) : Plain bound' depth' j := by
  induction h generalizing depth' with
  | null => exact .null
  | bool b => exact .bool b
  | number lt => exact .number (Nat.lt_of_lt_of_le lt hbound)
  | string s => exact .string s
  | array _ ih =>
    obtain ⟨d, rfl⟩ := Nat.exists_eq_add_of_le' (Nat.le_trans (Nat.le_add_left 1 _) hdepth)
    exact .array fun item hitem ↦ ih item hitem (Nat.le_of_succ_le_succ hdepth)
  | object ascending _ ih =>
    obtain ⟨d, rfl⟩ := Nat.exists_eq_add_of_le' (Nat.le_trans (Nat.le_add_left 1 _) hdepth)
    exact .object ascending fun m hm ↦ ih m hm (Nat.le_of_succ_le_succ hdepth)

theorem ofNat {n : Nat} (h : n < bound) : Plain bound depth (Json.ofNat n) := .number h

/-- An object is plain when its keys ascend and each of its values is plain. -/
theorem ofMembers (keys : List String) (hkeys : keys.Pairwise (· < ·)) {members : Members}
    (hmembers : members.map Prod.fst = keys) (h : ∀ m ∈ members, Plain bound depth m.2) :
    Plain bound (depth + 1) (.object members) := by
  subst hmembers
  exact .object (List.pairwise_map.1 hkeys) h

/-- A list is plain when each of its items is. -/
theorem ofList {α : Type} {write : α → Json} {as : List α}
    (h : ∀ a ∈ as, Plain bound depth (write a)) :
    Plain bound (depth + 1) (Json.ofList write as) := by
  refine .array fun item hitem ↦ ?_
  obtain ⟨a, ha, rfl⟩ := List.mem_map.1 hitem
  exact h a ha

/-- What may be absent is plain when it is plain where it is not. -/
theorem ofOption {α : Type} {write : α → Json} {a : Option α}
    (h : ∀ b, a = some b → Plain bound depth (write b)) :
    Plain bound depth (Json.ofOption write a) := by
  cases a with
  | none => exact .null
  | some b => exact h b rfl

end Plain

end DisplayFile.Json

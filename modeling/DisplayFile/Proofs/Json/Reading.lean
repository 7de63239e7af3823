import DisplayFile.Json.Reader
import DisplayFile.Proofs.Json.Equivalence

/-!
# Keys of a value that is read

A text may give an object a key more than once, but the value that is read from it does not: a key
that comes again takes the place of its first value (`distinctKeys_of_read`).
-/

namespace DisplayFile.Json

/-! ### Members that are inserted -/

/-- An insertion brings in nothing but the new member. -/
theorem mem_insert {key : String} {value : Json} {members : Members} {m : String × Json}
    (h : m ∈ insert key value members) : m = (key, value) ∨ m ∈ members := by
  induction members with
  | nil => exact .inl (List.mem_singleton.1 h)
  | cons m' members ih =>
    rw [insert] at h
    split at h
    · exact List.mem_cons.1 h
    · split at h
      · exact (List.mem_cons.1 h).imp_right (List.mem_cons_of_mem m')
      · rcases List.mem_cons.1 h with rfl | h
        · exact .inr List.mem_cons_self
        · exact (ih h).imp_right (List.mem_cons_of_mem m')

/-- Inserting keeps the keys in ascending order. -/
theorem pairwise_insert (key : String) (value : Json) {members : Members}
    (h : members.Pairwise (·.1 < ·.1)) : (insert key value members).Pairwise (·.1 < ·.1) := by
  induction members with
  | nil => simp [insert]
  | cons m members ih =>
    obtain ⟨hm, hmembers⟩ := List.pairwise_cons.1 h
    rw [insert]
    split
    · next hlt =>
      refine List.pairwise_cons.2 ⟨fun m' hm' ↦ ?_, h⟩
      rcases List.mem_cons.1 hm' with rfl | hm'
      · exact hlt
      · exact String.lt_trans hlt (hm m' hm')
    · next hge =>
      split
      · next heq =>
        subst heq
        exact List.pairwise_cons.2 ⟨hm, hmembers⟩
      · next hne =>
        refine List.pairwise_cons.2 ⟨fun m' hm' ↦ ?_, ih hmembers⟩
        rcases mem_insert hm' with rfl | hm'
        · exact Std.lt_of_le_of_ne (String.not_lt.1 hge) (Ne.symm hne)
        · exact hm m' hm'

/-! ### Values that are read -/

/-- Members that can be those of an object. -/
structure Keyed (members : Members) : Prop where
  ascending : members.Pairwise (·.1 < ·.1)
  distinct : ∀ m ∈ members, m.2.DistinctKeys

theorem Keyed.nil : Keyed [] := ⟨.nil, by simp⟩

/-- A member with a key that is there already takes the place of the old one, so keys stay
distinct. -/
theorem Keyed.insert {key : String} {value : Json} {members : Members} (h : Keyed members)
    (hvalue : value.DistinctKeys) : Keyed (insert key value members) := by
  refine ⟨pairwise_insert key value h.ascending, fun m hm ↦ ?_⟩
  rcases mem_insert hm with rfl | hm
  · exact hvalue
  · exact h.distinct m hm

theorem Keyed.distinctKeys {members : Members} (h : Keyed members) :
    (Json.object members).DistinctKeys :=
  .object (List.pairwise_map.2 (h.ascending.imp String.ne_of_lt)) h.distinct

/-- A reading that goes on has read its first part. -/
theorem ok_of_bind_eq_ok {α β : Type} {x : Result α} {f : α → Result β} {b : β}
    (h : x >>= f = .ok b) : ∃ a, x = .ok a ∧ f a = .ok b := by
  cases x with
  | error e => cases h
  | ok a => exact ⟨a, rfl, h⟩

/-- With so much fuel the three readers give values in which no object has a key twice. -/
structure ReadDistinct (fuel : Nat) : Prop where
  value : ∀ depth cs j rest, readValue fuel depth cs = .ok (j, rest) → j.DistinctKeys
  items : ∀ depth acc cs items rest, readItems fuel depth acc cs = .ok (items, rest) →
    (∀ item ∈ acc, item.DistinctKeys) → ∀ item ∈ items, item.DistinctKeys
  members : ∀ depth acc cs members rest, readMembers fuel depth acc cs = .ok (members, rest) →
    Keyed acc → Keyed members

namespace ReadDistinct

variable {fuel depth : Nat} {cs rest : List Char}

/-- A value that is read has distinct keys when what is read with less fuel has them. -/
theorem value_succ (h : ReadDistinct fuel) {j : Json}
    (hread : readValue (fuel + 1) depth cs = .ok (j, rest)) : j.DistinctKeys := by
  rw [readValue] at hread
  split at hread
  · cases hread
  · cases hread
    exact .null
  · cases hread
    exact .bool true
  · cases hread
    exact .bool false
  · obtain ⟨⟨s, rest'⟩, -, hread⟩ := ok_of_bind_eq_ok hread
    cases hread
    exact .string s
  · split at hread
    · cases hread
    · split at hread
      · cases hread
        exact .array (by simp)
      · obtain ⟨⟨items, rest'⟩, hitems, hread⟩ := ok_of_bind_eq_ok hread
        cases hread
        exact .array (h.items _ _ _ _ _ hitems (by simp))
  · split at hread
    · cases hread
    · split at hread
      · cases hread
        exact Keyed.nil.distinctKeys
      · obtain ⟨⟨members, rest'⟩, hmembers, hread⟩ := ok_of_bind_eq_ok hread
        cases hread
        exact (h.members _ _ _ _ _ hmembers Keyed.nil).distinctKeys
  · split at hread
    · obtain ⟨⟨n, rest'⟩, -, hread⟩ := ok_of_bind_eq_ok hread
      cases hread
      exact .number n
    · cases hread

theorem items_succ (h : ReadDistinct fuel) {acc : Array Json} {items : List Json}
    (hread : readItems (fuel + 1) depth acc cs = .ok (items, rest))
    (hacc : ∀ item ∈ acc, item.DistinctKeys) : ∀ item ∈ items, item.DistinctKeys := by
  rw [readItems] at hread
  obtain ⟨⟨item, rest'⟩, hitem, hread⟩ := ok_of_bind_eq_ok hread
  have hpush : ∀ x ∈ acc.push item, x.DistinctKeys := by
    intro x hx
    rcases Array.mem_push.1 hx with hx | rfl
    · exact hacc x hx
    · exact h.value _ _ _ _ hitem
  dsimp only at hread
  split at hread
  · exact h.items _ _ _ _ _ hread hpush
  · cases hread
    exact fun x hx ↦ hpush x (Array.mem_toList_iff.1 hx)
  · cases hread
  · cases hread

theorem members_succ (h : ReadDistinct fuel) {acc members : Members}
    (hread : readMembers (fuel + 1) depth acc cs = .ok (members, rest)) (hacc : Keyed acc) :
    Keyed members := by
  rw [readMembers] at hread
  obtain ⟨rest₁, -, hread⟩ := ok_of_bind_eq_ok hread
  obtain ⟨⟨key, rest₂⟩, -, hread⟩ := ok_of_bind_eq_ok hread
  obtain ⟨rest₃, -, hread⟩ := ok_of_bind_eq_ok hread
  obtain ⟨⟨value, rest₄⟩, hvalue, hread⟩ := ok_of_bind_eq_ok hread
  have hinsert : Keyed (Json.insert key value acc) := hacc.insert (h.value _ _ _ _ hvalue)
  dsimp only at hread
  split at hread
  · exact h.members _ _ _ _ _ hread hinsert
  · cases hread
    exact hinsert
  · cases hread
  · cases hread

end ReadDistinct

/-- Reading gives values in which no object has a key twice. The three readers call each other with
less fuel, so the induction is on the fuel. -/
theorem readDistinct (fuel : Nat) : ReadDistinct fuel := by
  induction fuel with
  | zero =>
    refine ⟨fun _ _ _ _ h ↦ ?_, fun _ _ _ _ _ h ↦ ?_, fun _ _ _ _ _ h ↦ ?_⟩
    · rw [readValue] at h
      cases h
    · rw [readItems] at h
      cases h
    · rw [readMembers] at h
      cases h
  | succ fuel ih =>
    exact ⟨fun _ _ _ _ h ↦ ih.value_succ h, fun _ _ _ _ _ h ↦ ih.items_succ h,
      fun _ _ _ _ _ h ↦ ih.members_succ h⟩

/-- **A value that is read has no object with a key twice.** -/
theorem distinctKeys_of_read {source : String} {j : Json} (h : read source = .ok j) :
    j.DistinctKeys := by
  obtain ⟨⟨value, rest⟩, hvalue, h⟩ := ok_of_bind_eq_ok h
  dsimp only at h
  split at h
  · cases h
    exact (readDistinct _).value _ _ _ _ hvalue
  · cases h

end DisplayFile.Json

import DisplayFile.Proofs.Json.Binary64
import DisplayFile.Proofs.Json.Equivalence

/-!
# When plain values agree

Values are compared up to the order of the members of their objects and the way numbers are written.
Plain values leave no room for either: their members are in the order of their keys, and all their
numbers are written alike. So two plain values that agree are equal as soon as the numbers of one of
them are compared exactly (`Plain.eq_of_agrees`).

Objects are compared through their keys. Every member of the first one is found in the second, so
its members are among those of the second one; as there are equally many, and all keys differ, they
are the same members in the same order (`eq_of_forall_mem`).
-/

namespace DisplayFile.Json

/-! ### Members -/

/-- Members with ascending keys that are all among equally many others are the same. -/
theorem eq_of_forall_mem {as bs : Members} (ha : as.Pairwise (·.1 < ·.1))
    (hb : bs.Pairwise (·.1 < ·.1)) (hlength : as.length = bs.length) (h : ∀ m ∈ as, m ∈ bs) :
    as = bs := by
  have hnodup : as.Pairwise (· ≠ ·) :=
    ha.imp fun hlt heq ↦ String.ne_of_lt hlt (congrArg Prod.fst heq)
  have hperm : as.Perm bs :=
    (List.subperm_of_subset hnodup h).perm_of_length_le (Nat.le_of_eq hlength.symm)
  exact hperm.eq_of_pairwise (fun _ _ _ _ hlt hgt ↦ absurd hgt (String.lt_asymm hlt)) ha hb

/-! ### Values -/

/-- Two lists of items agree when they are the same, if two items do. -/
theorem eq_of_itemsAgree {as bs : List Json} (hagree : itemsAgree as bs = true)
    (h : ∀ a ∈ as, ∀ b ∈ bs, agrees a b = true → a = b) : as = bs := by
  induction as generalizing bs with
  | nil =>
    cases bs with
    | nil => rfl
    | cons b bs => cases hagree
  | cons a as ih =>
    cases bs with
    | nil => cases hagree
    | cons b bs =>
      rw [itemsAgree, Bool.and_eq_true] at hagree
      have hhead : a = b := h a List.mem_cons_self b List.mem_cons_self hagree.1
      have htail : as = bs := ih hagree.2 fun x hx y hy ↦
        h x (List.mem_cons_of_mem a hx) y (List.mem_cons_of_mem b hy)
      rw [hhead, htail]

variable {bound depth depth' : Nat} {a b : Json}

/-- **Plain values that agree are equal**, if the numbers of one of them are below 2⁵³. -/
theorem Plain.eq_of_agrees (ha : Plain bound depth a) (hb : Plain (2 ^ 53) depth' b)
    (h : agrees a b = true) : a = b := by
  induction ha generalizing b depth' with
  | null | bool | string =>
    cases alike_of_agrees h
    rfl
  | number lt =>
    rcases alike_of_agrees h with - | - | same | - | - | -
    rcases hb with - | - | lt' | - | - | -
    rw [(Number.same_integer_iff _ lt').1 same]
  | array _ ih =>
    rcases alike_of_agrees h with - | - | - | - | items | -
    rcases hb with - | - | - | - | items_plain | -
    rw [eq_of_itemsAgree items fun a ha b hb ↦ ih a ha (items_plain b hb)]
  | object ascending _ ih =>
    rcases alike_of_agrees h with - | - | - | - | - | ⟨length_eq, members⟩
    rcases hb with - | - | - | - | - | ⟨ascending', members_plain⟩
    refine congrArg Json.object (eq_of_forall_mem ascending ascending' length_eq fun m hm ↦ ?_)
    obtain ⟨value, hfound, hagree⟩ := membersAgree_iff.1 members m hm
    have hmem := mem_of_find? hfound
    rw [show m = (m.1, value) from Prod.ext rfl (ih m hm (members_plain _ hmem) hagree)]
    exact hmem

end DisplayFile.Json

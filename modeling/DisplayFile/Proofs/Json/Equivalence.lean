import DisplayFile.Json.Difference
import DisplayFile.Proofs.Json.Plain
import Mathlib.Data.List.Perm.Subperm

/-!
# Agreement is an equivalence

Two objects are compared in one direction only: they have equally many members, and every key of the
first one is looked up in the second. On values in which no object has a key twice the comparison is
an equivalence all the same (`equivalence_agrees`).

**Symmetry is a matter of counting.** When the keys of one object are all different and all among
the keys of the other, and there are equally many, then the keys of the two are the same
(`mem_keys_of_agree`), so that every key of the second object can be looked up in the first.
-/

namespace DisplayFile

namespace Number

variable {a b c : Number}

/-- Numbers are compared by the floating-point numbers nearest to them. -/
theorem same_iff : same a b = true ↔ a.nearest? = b.nearest? := decide_eq_true_iff

theorem same_refl (a : Number) : same a a = true := same_iff.2 rfl

theorem same_symm (h : same a b = true) : same b a = true := same_iff.2 (same_iff.1 h).symm

theorem same_trans (hab : same a b = true) (hbc : same b c = true) : same a c = true :=
  same_iff.2 ((same_iff.1 hab).trans (same_iff.1 hbc))

end Number

namespace Json

/-- No object in the value has a key twice. -/
inductive DistinctKeys : Json → Prop where
  | null : DistinctKeys .null
  | bool (b : Bool) : DistinctKeys (.bool b)
  | number (n : Number) : DistinctKeys (.number n)
  | string (s : String) : DistinctKeys (.string s)
  | array {items : List Json} (items_distinct : ∀ item ∈ items, DistinctKeys item) :
      DistinctKeys (.array items)
  | object {members : Members} (nodup : (members.map Prod.fst).Nodup)
      (members_distinct : ∀ m ∈ members, DistinctKeys m.2) : DistinctKeys (.object members)

/-- Keys in ascending order are different. -/
theorem Plain.distinctKeys {bound depth : Nat} {j : Json} (h : Plain bound depth j) :
    j.DistinctKeys := by
  induction h with
  | null => exact .null
  | bool b => exact .bool b
  | number lt => exact .number _
  | string s => exact .string s
  | array _ ih => exact .array ih
  | object ascending _ ih =>
    exact .object (List.pairwise_map.2 (ascending.imp String.ne_of_lt)) ih

/-! ### Members by their keys -/

theorem mem_of_find? {key : String} {value : Json} {members : Members}
    (h : find? key members = some value) : (key, value) ∈ members := by
  obtain ⟨front, back, rfl, -⟩ := List.lookup_eq_some_iff.1 h
  simp

/-- A key is not found exactly when no member has it. -/
theorem find?_eq_none_iff {key : String} {members : Members} :
    find? key members = none ↔ key ∉ members.map Prod.fst := by
  rw [find?, List.lookup_eq_none_iff, List.mem_map]
  constructor
  · rintro h ⟨m, hm, rfl⟩
    exact absurd rfl (bne_iff_ne.1 (h m hm))
  · intro h m hm
    exact bne_iff_ne.2 fun heq ↦ h ⟨m, hm, heq.symm⟩

/-- When no key occurs twice, every member is the one that is found under its key. -/
theorem find?_of_mem_of_nodup {members : Members} (h : (members.map Prod.fst).Nodup)
    {m : String × Json} (hm : m ∈ members) : find? m.1 members = some m.2 := by
  obtain ⟨front, back, rfl⟩ := List.append_of_mem hm
  rw [List.map_append, List.nodup_append] at h
  refine List.lookup_eq_some_iff.2 ⟨front, back, rfl, fun x hx ↦ bne_iff_ne.2 fun heq ↦ ?_⟩
  exact h.2.2 x.1 (List.mem_map_of_mem hx) m.1 (by simp) heq.symm

/-- Under the key of a member something is found. -/
theorem exists_find?_of_mem {members : Members} {m : String × Json} (hm : m ∈ members) :
    ∃ value, find? m.1 members = some value :=
  Option.ne_none_iff_exists'.1 fun hnone ↦ find?_eq_none_iff.1 hnone (List.mem_map_of_mem hm)

theorem mem_keys_of_find? {key : String} {value : Json} {members : Members}
    (h : find? key members = some value) : key ∈ members.map Prod.fst :=
  List.mem_map_of_mem (mem_of_find? h)

/-- Members agree with others when each of them finds an agreeing one under its key. -/
theorem membersAgree_iff {as bs : Members} :
    membersAgree as bs = true ↔ ∀ m ∈ as, ∃ b, find? m.1 bs = some b ∧ agrees m.2 b = true := by
  induction as with
  | nil => simp [membersAgree]
  | cons a as ih =>
    rw [membersAgree, Bool.and_eq_true, ih, List.forall_mem_cons]
    refine and_congr ?_ Iff.rfl
    cases find? a.1 bs <;> simp

/-- **Objects that are compared have the same keys**, if the first has none of them twice. -/
theorem mem_keys_of_agree {as bs : Members} (hnodup : (as.map Prod.fst).Nodup)
    (hlength : as.length = bs.length) (hagree : membersAgree as bs = true) {key : String}
    (hkey : key ∈ bs.map Prod.fst) : key ∈ as.map Prod.fst := by
  have hsubset : as.map Prod.fst ⊆ bs.map Prod.fst := by
    intro k hk
    obtain ⟨m, hm, rfl⟩ := List.mem_map.1 hk
    obtain ⟨b, hfound, -⟩ := membersAgree_iff.1 hagree m hm
    exact mem_keys_of_find? hfound
  have hperm : (as.map Prod.fst).Perm (bs.map Prod.fst) := by
    refine (List.subperm_of_subset hnodup hsubset).perm_of_length_le (Nat.le_of_eq ?_)
    rw [List.length_map, List.length_map, hlength]
  exact hperm.mem_iff.2 hkey

/-! ### The laws of an equivalence -/

/-- What it takes for two values to agree, by their shapes. -/
inductive Alike : Json → Json → Prop where
  | null : Alike .null .null
  | bool (b : Bool) : Alike (.bool b) (.bool b)
  | number {x y : Number} (same : x.same y = true) : Alike (.number x) (.number y)
  | string (s : String) : Alike (.string s) (.string s)
  | array {as bs : List Json} (items : itemsAgree as bs = true) : Alike (.array as) (.array bs)
  | object {as bs : Members} (length_eq : as.length = bs.length)
      (members : membersAgree as bs = true) : Alike (.object as) (.object bs)

variable {a b c : Json}

/-- Values that are alike agree. -/
theorem Alike.agrees (h : Alike a b) : agrees a b = true := by
  cases h with
  | null => rfl
  | bool b => simp [Json.agrees]
  | number same => rwa [Json.agrees]
  | string s => simp [Json.agrees]
  | array items => rwa [Json.agrees]
  | object length_eq members => simp [Json.agrees, length_eq, members]

/-- Values of different shapes never agree. -/
theorem alike_of_agrees (h : agrees a b = true) : Alike a b := by
  cases a with
  | null => cases b <;> simp only [agrees, reduceCtorEq] at h; exact .null
  | bool x =>
    cases b <;> simp only [agrees, decide_eq_true_eq, reduceCtorEq] at h
    exact h ▸ .bool x
  | number x =>
    cases b <;> simp only [agrees, reduceCtorEq] at h
    exact .number h
  | string s =>
    cases b <;> simp only [agrees, decide_eq_true_eq, reduceCtorEq] at h
    exact h ▸ .string s
  | array as =>
    cases b <;> simp only [agrees, reduceCtorEq] at h
    exact .array h
  | object as =>
    cases b <;> simp only [agrees, Bool.and_eq_true, decide_eq_true_eq, reduceCtorEq] at h
    exact .object h.1 h.2

theorem itemsAgree_self {items : List Json} (h : ∀ item ∈ items, agrees item item = true) :
    itemsAgree items items = true := by
  induction items with
  | nil => rfl
  | cons item items ih =>
    obtain ⟨hitem, hitems⟩ := List.forall_mem_cons.1 h
    rw [itemsAgree, hitem, ih hitems, Bool.and_self]

/-- **A value agrees with itself** when its keys are distinct. -/
theorem DistinctKeys.agrees_refl (ha : a.DistinctKeys) : agrees a a = true := by
  induction ha with
  | null => exact Alike.null.agrees
  | bool b => exact (Alike.bool b).agrees
  | number n => exact (Alike.number n.same_refl).agrees
  | string s => exact (Alike.string s).agrees
  | array _ ih => exact (Alike.array (itemsAgree_self ih)).agrees
  | object nodup _ ih =>
    exact (Alike.object rfl (membersAgree_iff.2 fun m hm ↦
      ⟨m.2, find?_of_mem_of_nodup nodup hm, ih m hm⟩)).agrees

theorem itemsAgree_symm {as bs : List Json} (hagree : itemsAgree as bs = true)
    (h : ∀ a ∈ as, ∀ b ∈ bs, agrees a b = true → agrees b a = true) :
    itemsAgree bs as = true := by
  induction as generalizing bs with
  | nil =>
    cases bs with
    | nil => rfl
    | cons b bs => cases hagree
  | cons a as ih =>
    cases bs with
    | nil => cases hagree
    | cons b bs =>
      rw [itemsAgree, Bool.and_eq_true] at hagree ⊢
      exact ⟨h a List.mem_cons_self b List.mem_cons_self hagree.1, ih hagree.2 fun x hx y hy ↦
        h x (List.mem_cons_of_mem a hx) y (List.mem_cons_of_mem b hy)⟩

/-- **Agreement goes both ways.** Equally many distinct keys that are all found are all the keys
there are. -/
theorem DistinctKeys.agrees_symm (ha : a.DistinctKeys) (hb : b.DistinctKeys)
    (h : agrees a b = true) : agrees b a = true := by
  induction ha generalizing b with
  | null | bool | string =>
    cases alike_of_agrees h
    exact h
  | number x =>
    rcases alike_of_agrees h with - | - | same | - | - | -
    exact (Alike.number (Number.same_symm same)).agrees
  | array _ ih =>
    rcases alike_of_agrees h with - | - | - | - | items | -
    rcases hb with - | - | - | - | items_distinct | -
    exact (Alike.array (itemsAgree_symm items fun a ha b hb ↦
      ih a ha (items_distinct b hb))).agrees
  | object nodup _ ih =>
    rcases alike_of_agrees h with - | - | - | - | - | ⟨length_eq, members⟩
    rcases hb with - | - | - | - | - | ⟨nodup', members_distinct⟩
    refine (Alike.object length_eq.symm (membersAgree_iff.2 fun m hm ↦ ?_)).agrees
    -- the key of the second object is one of the first, where it is looked up
    obtain ⟨m', hm', hkey⟩ := List.mem_map.1
      (mem_keys_of_agree nodup length_eq members (List.mem_map_of_mem hm))
    obtain ⟨value, hfound, hagree⟩ := membersAgree_iff.1 members m' hm'
    rw [hkey, find?_of_mem_of_nodup nodup' hm, Option.some.injEq] at hfound
    subst hfound
    exact ⟨m'.2, hkey ▸ find?_of_mem_of_nodup nodup hm', ih m' hm' (members_distinct m hm) hagree⟩

theorem itemsAgree_trans {as bs cs : List Json} (hab : itemsAgree as bs = true)
    (hbc : itemsAgree bs cs = true)
    (h : ∀ a ∈ as, ∀ b c, agrees a b = true → agrees b c = true → agrees a c = true) :
    itemsAgree as cs = true := by
  induction as generalizing bs cs with
  | nil =>
    cases bs with
    | nil => exact hbc
    | cons b bs => cases hab
  | cons a as ih =>
    cases bs with
    | nil => cases hab
    | cons b bs =>
      cases cs with
      | nil => cases hbc
      | cons c cs =>
        rw [itemsAgree, Bool.and_eq_true] at hab hbc ⊢
        exact ⟨h a List.mem_cons_self b c hab.1 hbc.1,
          ih hab.2 hbc.2 fun x hx ↦ h x (List.mem_cons_of_mem a hx)⟩

/-- **Agreement passes on** from one value to the next. -/
theorem DistinctKeys.agrees_trans (ha : a.DistinctKeys) (hab : agrees a b = true)
    (hbc : agrees b c = true) : agrees a c = true := by
  induction ha generalizing b c with
  | null | bool | string =>
    cases alike_of_agrees hab
    exact hbc
  | number x =>
    rcases alike_of_agrees hab with - | - | same | - | - | -
    rcases alike_of_agrees hbc with - | - | same' | - | - | -
    exact (Alike.number (Number.same_trans same same')).agrees
  | array _ ih =>
    rcases alike_of_agrees hab with - | - | - | - | items | -
    rcases alike_of_agrees hbc with - | - | - | - | items' | -
    exact (Alike.array (itemsAgree_trans items items' fun a ha b c ↦ ih a ha)).agrees
  | object _ _ ih =>
    rcases alike_of_agrees hab with - | - | - | - | - | ⟨length_eq, members⟩
    rcases alike_of_agrees hbc with - | - | - | - | - | ⟨length_eq', members'⟩
    refine (Alike.object (length_eq.trans length_eq') (membersAgree_iff.2 fun m hm ↦ ?_)).agrees
    obtain ⟨b, hb, hmb⟩ := membersAgree_iff.1 members m hm
    obtain ⟨c, hc, hbc⟩ := membersAgree_iff.1 members' _ (mem_of_find? hb)
    exact ⟨c, hc, ih m hm hmb hbc⟩

/-- **Agreement is an equivalence** of the values in which no object has a key twice. -/
theorem equivalence_agrees :
    Equivalence fun a b : { j : Json // j.DistinctKeys } ↦ agrees a b = true where
  refl a := a.2.agrees_refl
  symm {a b} h := a.2.agrees_symm b.2 h
  trans {a _ _} hab hbc := a.2.agrees_trans hab hbc

end Json

end DisplayFile

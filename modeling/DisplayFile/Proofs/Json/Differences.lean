import DisplayFile.Proofs.Json.Equivalence

/-!
# All differences of two values

The comparison of two values reports where they differ, and it stops early. This module lists the
differences as if it never did (`allDifferences`).

**A difference is a place.** Its steps lead somewhere in one of the values at least
(`Json.at?`), and what it says of the two values is true there (`Difference.Holds`): both have a
value at the place and the two do not agree, or only one of them has. This holds of all differences
(`holds_of_mem_allDifferences`).

**Values agree when they have no difference** (`allDifferences_eq_nil_iff`). Objects are compared by
the number of their members and by looking up the keys of one of them, whereas the differences are
found by looking up the keys of both. The two come to the same when no key occurs twice.
-/

namespace DisplayFile.Json

/-! ### Places -/

/-- The value one step into a value. -/
def into? : Step → Json → Option Json
  | .key name, .object members => find? name members
  | .index i, .array items => items[i]?
  | _, _ => none

/-- The value to which steps lead. -/
def at? : List Step → Json → Option Json
  | [], j => some j
  | step :: path, j => (into? step j).bind (at? path)

@[simp] theorem at?_nil (j : Json) : at? [] j = some j := rfl

@[simp] theorem at?_cons (step : Step) (path : List Step) (j : Json) :
    at? (step :: path) j = (into? step j).bind (at? path) := rfl

@[simp] theorem into?_key_object (name : String) (members : Members) :
    into? (.key name) (.object members) = find? name members := rfl

@[simp] theorem into?_index_array (i : Nat) (items : List Json) :
    into? (.index i) (.array items) = items[i]? := rfl

/-- The path with one key leads to the member with the key. -/
theorem at?_key {name : String} {members : Members} {value : Json}
    (h : find? name members = some value) : at? [.key name] (.object members) = some value := by
  simp [h]

namespace Difference

/-- What a difference says of two values is true of them. -/
inductive Holds (expected got : Json) : Difference → Prop where
  | different {path : List Step} {e g : Json} (at_expected : at? path expected = some e)
      (at_got : at? path got = some g) (disagree : agrees e g = false) :
      Holds expected got ⟨path, .different⟩
  | missing {path : List Step} {e : Json} (at_expected : at? path expected = some e)
      (at_got : at? path got = none) : Holds expected got ⟨path, .missing⟩
  | unexpected {path : List Step} {g : Json} (at_expected : at? path expected = none)
      (at_got : at? path got = some g) : Holds expected got ⟨path, .unexpected⟩

/-- The difference as it is seen from a place from which steps lead to it. -/
def under (path : List Step) (d : Difference) : Difference := { d with path := path ++ d.path }

@[simp] theorem path_under (path : List Step) (d : Difference) :
    (d.under path).path = path ++ d.path := rfl

@[simp] theorem kind_under (path : List Step) (d : Difference) : (d.under path).kind = d.kind := rfl

@[simp] theorem under_nil (d : Difference) : d.under [] = d := rfl

/-- A difference under a path of two parts is under the second and then under the first. -/
theorem under_append (path path' : List Step) (d : Difference) :
    d.under (path ++ path') = (d.under path').under path := by
  simp [under, List.append_assoc]

/-- A difference one step further in is one of the whole values. -/
theorem Holds.under {expected got e g : Json} {d : Difference} (h : d.Holds e g) {step : Step}
    (he : into? step expected = some e) (hg : into? step got = some g) :
    (d.under [step]).Holds expected got := by
  have hexpected (path : List Step) : at? ([step] ++ path) expected = at? path e := by
    simp [he]
  have hgot (path : List Step) : at? ([step] ++ path) got = at? path g := by
    simp [hg]
  cases h with
  | different at_expected at_got disagree =>
    exact .different ((hexpected _).trans at_expected) ((hgot _).trans at_got) disagree
  | missing at_expected at_got =>
    exact .missing ((hexpected _).trans at_expected) ((hgot _).trans at_got)
  | unexpected at_expected at_got =>
    exact .unexpected ((hexpected _).trans at_expected) ((hgot _).trans at_got)

end Difference

/-! ### The differences -/

/-- The differences at the keys that only the second of two objects has. -/
def unexpectedKeys (expected got : Members) : List Difference :=
  (got.filter fun m ↦ (find? m.1 expected).isNone).map fun m ↦ ⟨[.key m.1], .unexpected⟩

mutual

/-- All differences of two values, however many there are. -/
def allDifferences : Json → Json → List Difference
  | expected, got =>
    if agrees expected got then []
    else
      match expected, got with
      | .object es, .object gs => memberDifferences gs es ++ unexpectedKeys es gs
      | .array es, .array gs =>
        if es.length = gs.length then itemDifferences 0 es gs else [⟨[], .different⟩]
      | _, _ => [⟨[], .different⟩]

/-- All differences at the keys of the expected members. -/
def memberDifferences (got : Members) : Members → List Difference
  | [] => []
  | (key, expected) :: rest =>
    (match find? key got with
      | some g => (allDifferences expected g).map (.under [.key key])
      | none => [⟨[.key key], .missing⟩]) ++ memberDifferences got rest

/-- All differences of two lists of items, of which the first have index `i`. -/
def itemDifferences (i : Nat) : List Json → List Json → List Difference
  | expected :: es, got :: gs =>
    (allDifferences expected got).map (.under [.index i]) ++ itemDifferences (i + 1) es gs
  | _, _ => []

end

/-- The differences of two values are none where they agree, those of their members or items where
these can be compared, and else the one of the values themselves. -/
theorem allDifferences_eq (e g : Json) :
    allDifferences e g =
      if agrees e g then []
      else
        match e, g with
        | .object es, .object gs => memberDifferences gs es ++ unexpectedKeys es gs
        | .array es, .array gs =>
          if es.length = gs.length then itemDifferences 0 es gs else [⟨[], .different⟩]
        | _, _ => [⟨[], .different⟩] := by
  rw [allDifferences.eq_def]

/-! ### What a difference can be -/

variable {d : Difference}

/-- A difference at a key of the expected members: the key is missing, or the values that both
have under it differ. -/
theorem mem_memberDifferences {got : Members} {members : Members}
    (h : d ∈ memberDifferences got members) :
    ∃ m ∈ members, (find? m.1 got = none ∧ d = ⟨[.key m.1], .missing⟩) ∨
      ∃ g, find? m.1 got = some g ∧ ∃ d' ∈ allDifferences m.2 g, d = d'.under [.key m.1] := by
  induction members with
  | nil => simp [memberDifferences] at h
  | cons m members ih =>
    rw [memberDifferences, List.mem_append] at h
    rcases h with h | h
    · refine ⟨m, List.mem_cons_self, ?_⟩
      rcases hfound : find? m.1 got with - | g
      · rw [hfound] at h
        exact .inl ⟨rfl, List.mem_singleton.1 h⟩
      · rw [hfound] at h
        obtain ⟨d', hd', rfl⟩ := List.mem_map.1 h
        exact .inr ⟨g, rfl, d', hd', rfl⟩
    · obtain ⟨m', hm', h⟩ := ih h
      exact ⟨m', List.mem_cons_of_mem m hm', h⟩

/-- A difference of items lies in two items of one index. -/
theorem mem_itemDifferences {i : Nat} {es gs : List Json} (h : d ∈ itemDifferences i es gs) :
    ∃ k e g, es[k]? = some e ∧ gs[k]? = some g ∧
      ∃ d' ∈ allDifferences e g, d = d'.under [.index (i + k)] := by
  induction es generalizing i gs with
  | nil => simp [itemDifferences] at h
  | cons e es ih =>
    cases gs with
    | nil => simp [itemDifferences] at h
    | cons g gs =>
      rw [itemDifferences, List.mem_append] at h
      rcases h with h | h
      · obtain ⟨d', hd', rfl⟩ := List.mem_map.1 h
        exact ⟨0, e, g, rfl, rfl, d', hd', rfl⟩
      · obtain ⟨k, e', g', he, hg, d', hd', rfl⟩ := ih h
        exact ⟨k + 1, e', g', he, hg, d', hd', by rw [Nat.add_right_comm, Nat.add_assoc]⟩

/-- An unexpected key is that of a member which nothing is expected for. -/
theorem mem_unexpectedKeys {es gs : Members} (h : d ∈ unexpectedKeys es gs) :
    ∃ m ∈ gs, find? m.1 es = none ∧ d = ⟨[.key m.1], .unexpected⟩ := by
  obtain ⟨m, hm, rfl⟩ := List.mem_map.1 h
  obtain ⟨hmem, hnone⟩ := List.mem_filter.1 hm
  exact ⟨m, hmem, Option.isNone_iff_eq_none.1 hnone, rfl⟩

/-- The ways in which a difference of two values comes about. -/
inductive Arises : Json → Json → Difference → Prop where
  | whole {e g : Json} (disagree : agrees e g = false) : Arises e g ⟨[], .different⟩
  | missing {es gs : Members} {m : String × Json} (mem : m ∈ es) (absent : find? m.1 gs = none) :
      Arises (.object es) (.object gs) ⟨[.key m.1], .missing⟩
  | unexpected {es gs : Members} {m : String × Json} (mem : m ∈ gs)
      (absent : find? m.1 es = none) : Arises (.object es) (.object gs) ⟨[.key m.1], .unexpected⟩
  | member {es gs : Members} {m : String × Json} {g : Json} {d : Difference} (mem : m ∈ es)
      (found : find? m.1 gs = some g) (inner : d ∈ allDifferences m.2 g) :
      Arises (.object es) (.object gs) (d.under [.key m.1])
  | item {es gs : List Json} {i : Nat} {e g : Json} {d : Difference} (at_expected : es[i]? = some e)
      (at_got : gs[i]? = some g) (inner : d ∈ allDifferences e g) :
      Arises (.array es) (.array gs) (d.under [.index i])

/-- **Every difference arises** in one of the ways there are. -/
theorem arises_of_mem_allDifferences {e g : Json} (h : d ∈ allDifferences e g) :
    Arises e g d := by
  rw [allDifferences_eq] at h
  split at h
  · cases h
  · next hagree =>
    rw [Bool.not_eq_true] at hagree
    split at h
    · rcases List.mem_append.1 h with h | h
      · obtain ⟨m, hm, ⟨habsent, rfl⟩ | ⟨g, hfound, d', hd', rfl⟩⟩ := mem_memberDifferences h
        · exact .missing hm habsent
        · exact .member hm hfound hd'
      · obtain ⟨m, hm, habsent, rfl⟩ := mem_unexpectedKeys h
        exact .unexpected hm habsent
    · split at h
      · obtain ⟨k, e, g, he, hg, d', hd', rfl⟩ := mem_itemDifferences h
        rw [Nat.zero_add]
        exact .item he hg hd'
      · obtain rfl := List.mem_singleton.1 h
        exact .whole hagree
    · obtain rfl := List.mem_singleton.1 h
      exact .whole hagree

/-- **Every difference is a place at which the values differ as it says.** -/
theorem holds_of_mem_allDifferences {e g : Json} (he : e.DistinctKeys)
    (h : d ∈ allDifferences e g) : d.Holds e g := by
  induction he generalizing g d with
  | null | bool | number | string =>
    rcases arises_of_mem_allDifferences h with ⟨disagree⟩ | - | - | - | -
    exact .different rfl rfl disagree
  | array _ ih =>
    rcases arises_of_mem_allDifferences h with ⟨disagree⟩ | - | - | - | ⟨at_expected, at_got, inner⟩
    · exact .different rfl rfl disagree
    · exact (ih _ (List.mem_of_getElem? at_expected) inner).under at_expected at_got
  | object nodup _ ih =>
    rcases arises_of_mem_allDifferences h with
      ⟨disagree⟩ | ⟨mem, absent⟩ | ⟨mem, absent⟩ | ⟨mem, found, inner⟩ | -
    · exact .different rfl rfl disagree
    · have hfound := find?_of_mem_of_nodup nodup mem
      exact .missing (at?_key hfound) (by simp [absent])
    · obtain ⟨value, hfound⟩ := exists_find?_of_mem mem
      exact .unexpected (by simp [absent]) (at?_key hfound)
    · exact (ih _ mem inner).under (find?_of_mem_of_nodup nodup mem) found

/-! ### When there is none -/

/-- Without a difference at its keys every expected member is there. -/
theorem of_memberDifferences_eq_nil {got members : Members}
    (h : memberDifferences got members = []) {m : String × Json} (hm : m ∈ members) :
    ∃ g, find? m.1 got = some g ∧ allDifferences m.2 g = [] := by
  induction members with
  | nil => cases hm
  | cons m' members ih =>
    rw [memberDifferences, List.append_eq_nil_iff] at h
    rcases List.mem_cons.1 hm with rfl | hm
    · rcases hfound : find? m.1 got with - | g
      · rw [hfound] at h
        cases h.1
      · rw [hfound] at h
        exact ⟨g, rfl, List.map_eq_nil_iff.1 h.1⟩
    · exact ih h.2 hm

theorem itemsAgree_of_itemDifferences_eq_nil {i : Nat} {es gs : List Json}
    (hlength : es.length = gs.length) (hnil : itemDifferences i es gs = [])
    (h : ∀ e ∈ es, ∀ g ∈ gs, allDifferences e g = [] → agrees e g = true) :
    itemsAgree es gs = true := by
  induction es generalizing i gs with
  | nil =>
    cases gs with
    | nil => rfl
    | cons g gs => cases hlength
  | cons e es ih =>
    cases gs with
    | nil => cases hlength
    | cons g gs =>
      rw [itemDifferences, List.append_eq_nil_iff, List.map_eq_nil_iff] at hnil
      rw [itemsAgree, Bool.and_eq_true]
      exact ⟨h e List.mem_cons_self g List.mem_cons_self hnil.1,
        ih (Nat.succ.inj hlength) hnil.2 fun x hx y hy ↦
          h x (List.mem_cons_of_mem e hx) y (List.mem_cons_of_mem g hy)⟩

/-- Objects of which neither has a key that the other has not are of one size. -/
theorem length_eq_of_unexpectedKeys_eq_nil {es gs : Members} (hes : (es.map Prod.fst).Nodup)
    (hgs : (gs.map Prod.fst).Nodup) (hnil : unexpectedKeys es gs = [])
    (h : ∀ m ∈ es, ∃ g, find? m.1 gs = some g) : es.length = gs.length := by
  have hle : es.map Prod.fst ⊆ gs.map Prod.fst := by
    intro key hkey
    obtain ⟨m, hm, rfl⟩ := List.mem_map.1 hkey
    obtain ⟨g, hfound⟩ := h m hm
    exact mem_keys_of_find? hfound
  have hge : gs.map Prod.fst ⊆ es.map Prod.fst := by
    intro key hkey
    obtain ⟨m, hm, rfl⟩ := List.mem_map.1 hkey
    rw [unexpectedKeys, List.map_eq_nil_iff, List.filter_eq_nil_iff] at hnil
    by_contra habsent
    exact hnil m hm (Option.isNone_iff_eq_none.2 (find?_eq_none_iff.2 habsent))
  have hperm : (es.map Prod.fst).Perm (gs.map Prod.fst) :=
    (List.subperm_of_subset hes hle).antisymm (List.subperm_of_subset hgs hge)
  simpa using hperm.length_eq

/-- **Where there is no difference, values agree.** -/
theorem agrees_of_allDifferences_eq_nil {e g : Json} (he : e.DistinctKeys) (hg : g.DistinctKeys)
    (h : allDifferences e g = []) : agrees e g = true := by
  induction he generalizing g with
  | null | bool | number | string =>
    rw [allDifferences_eq, ite_eq_left_iff] at h
    by_contra hdisagree
    cases h hdisagree
  | array _ ih =>
    rw [allDifferences_eq, ite_eq_left_iff] at h
    by_contra hdisagree
    replace h := h hdisagree
    cases hg with
    | array items_distinct =>
      dsimp only at h
      split at h
      · next hlength =>
        exact hdisagree (Alike.array (itemsAgree_of_itemDifferences_eq_nil hlength h
          fun e he g hg ↦ ih e he (items_distinct g hg))).agrees
      · cases h
    | _ => cases h
  | object nodup _ ih =>
    rw [allDifferences_eq, ite_eq_left_iff] at h
    by_contra hdisagree
    replace h := h hdisagree
    cases hg with
    | object nodup' members_distinct =>
      obtain ⟨hmembers, hunexpected⟩ := List.append_eq_nil_iff.1 h
      have hlength := length_eq_of_unexpectedKeys_eq_nil nodup nodup' hunexpected fun m hm ↦
        (of_memberDifferences_eq_nil hmembers hm).imp fun _ h ↦ h.1
      refine hdisagree (Alike.object hlength (membersAgree_iff.2 fun m hm ↦ ?_)).agrees
      obtain ⟨g, hfound, hnil⟩ := of_memberDifferences_eq_nil hmembers hm
      exact ⟨g, hfound, ih m hm (members_distinct _ (mem_of_find? hfound)) hnil⟩
    | _ => cases h

/-- **Values agree exactly when there is no difference.** -/
theorem allDifferences_eq_nil_iff {e g : Json} (he : e.DistinctKeys) (hg : g.DistinctKeys) :
    allDifferences e g = [] ↔ agrees e g = true :=
  ⟨agrees_of_allDifferences_eq_nil he hg, fun h ↦ by rw [allDifferences_eq, if_pos h]⟩

end DisplayFile.Json

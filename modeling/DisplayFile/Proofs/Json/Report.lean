import DisplayFile.Proofs.Json.Differences

/-!
# Which differences are reported

The search for differences stops early, but it tests how many there are only where it goes into a
part of the values. Once it is in an object it lists every key that only one of the two has. So a
report is the first five of all differences, and behind them such keys of the objects in which one
of the five lies (`differences_eq_report`).

**The search is followed with a number of differences to go.** Inside an object the keys that only
one of the two has are kept in any case, and of what lies further in there is what the differences
that are left allow (`reportWith`). Parts of the values one behind the other are reported one behind
the other, as long as no kept key lies in an object of another part (`reportWith_append`). This
holds since the parts are told apart by the step that leads to them (`isBeside_under_of_ne`).

Two things follow. The report is empty only when the values agree, and every entry of it is a place
where they differ (`differences_tell_apart`). It keeps to its limit exactly when, of the objects in
which one of the first five differences lies, none has a key of its own among the later ones
(`length_differences_le_iff`).
-/

namespace DisplayFile.Json

namespace Difference

/-- Only one of the two values has something at the place. -/
def isOneSided (d : Difference) : Bool := d.kind ≠ .different

/-- The difference is a key that only one of two objects has, and another one lies in them. -/
def isBeside (d d' : Difference) : Bool := d.isOneSided && d.path.dropLast.isPrefixOf d'.path

/-- The difference is a key that only one of the two values has, both being objects. -/
def isOwnKey (d : Difference) : Bool := d.isOneSided && d.path.length = 1

@[simp] theorem isOneSided_under (path : List Step) (d : Difference) :
    (d.under path).isOneSided = d.isOneSided := rfl

theorem isBeside_under (step : Step) (d d' : Difference) :
    (d.under [step]).isBeside (d'.under [step]) = d.isBeside d' := by
  rw [isBeside, isBeside, isOneSided_under, path_under, path_under]
  rcases d.path with - | ⟨s, path⟩
  · simp
  · simp [List.dropLast_cons_of_ne_nil]

/-- No key lies in an object to which another step leads. -/
theorem isBeside_under_of_ne {step step' : Step} (hne : step ≠ step') {d : Difference}
    (hd : d.isOneSided = true → d.path ≠ []) (d' : Difference) :
    (d.under [step]).isBeside (d'.under [step']) = false := by
  rw [isBeside, isOneSided_under, path_under, path_under]
  rcases hside : d.isOneSided with - | -
  · rfl
  · rw [List.dropLast_append_of_ne_nil (hd hside)]
    simp [List.isPrefixOf, hne]

/-- Every difference lies in the objects that a key of their own is a difference of. -/
theorem isBeside_of_isOwnKey {d : Difference} (hd : d.isOwnKey = true) (d' : Difference) :
    d.isBeside d' = true := by
  rw [isOwnKey, Bool.and_eq_true, decide_eq_true_iff] at hd
  obtain ⟨step, hpath⟩ := List.length_eq_one_iff.1 hd.2
  simp [isBeside, hd.1, hpath]

end Difference

open Difference

/-! ### Reports -/

/-- The report of differences of which the first `room` are wanted, if some are kept in any case:
the first ones, and behind them those that are kept and the keys that only one of two objects has in
which one of the first lies. -/
def reportWith (kept : Difference → Bool) (room : Nat) (ds : List Difference) : List Difference :=
  ds.take room ++ (ds.drop room).filter fun d ↦ kept d || (ds.take room).any d.isBeside

/-- The report of differences. -/
def report (ds : List Difference) : List Difference :=
  ds.take reportLimit ++ (ds.drop reportLimit).filter fun d ↦ (ds.take reportLimit).any d.isBeside

section Reports

variable {kept : Difference → Bool} {room : Nat} {as bs ds : List Difference}

@[simp] theorem reportWith_nil : reportWith kept room [] = [] := by simp [reportWith]

/-- Where there is room for all differences, all are reported. -/
theorem reportWith_of_length_le (h : ds.length ≤ room) : reportWith kept room ds = ds := by
  simp [reportWith, List.take_of_length_le h, List.drop_of_length_le h]

/-- Where all differences are kept in any case, all are reported. -/
theorem reportWith_of_forall (h : ∀ d ∈ ds, kept d = true) : reportWith kept room ds = ds := by
  have hfilter : ((ds.drop room).filter fun d ↦ kept d || (ds.take room).any d.isBeside) =
      ds.drop room :=
    List.filter_eq_self.2 fun d hd ↦ by rw [h d (List.mem_of_mem_drop hd), Bool.true_or]
  rw [reportWith, hfilter, List.take_append_drop]

/-- Behind a report there is room for what all the differences have left. -/
theorem sub_length_reportWith : room - (reportWith kept room ds).length = room - ds.length := by
  rcases Nat.le_total ds.length room with h | h
  · rw [reportWith_of_length_le h]
  · have hlength : room ≤ (reportWith kept room ds).length := by
      rw [reportWith, List.length_append, List.length_take, Nat.min_eq_left h]
      exact Nat.le_add_right _ _
    omega

/-- **Two parts are reported one behind the other**, if no key in the second one lies in an object
of the first. -/
theorem reportWith_append
    (h : ∀ b ∈ bs, ∀ a ∈ as, kept b = false → b.isBeside a = false) :
    reportWith kept room (as ++ bs) =
      reportWith kept room as ++ reportWith kept (room - as.length) bs := by
  have hany : ∀ front : List Difference, ∀ first ⊆ as, ∀ b ∈ bs,
      (kept b || (first ++ front).any b.isBeside) = (kept b || front.any b.isBeside) := by
    intro front first hfirst b hb
    rcases hkept : kept b with - | -
    · have hnone : first.any b.isBeside = false :=
        List.any_eq_false.2 fun a ha ↦ by simp [h b hb a (hfirst ha) hkept]
      rw [List.any_append, hnone, Bool.false_or]
    · rfl
  rcases Nat.le_total room as.length with hroom | hroom
  · -- the first part takes all the room
    have hzero : room - as.length = 0 := Nat.sub_eq_zero_of_le hroom
    rw [reportWith, reportWith, reportWith, List.take_append_of_le_length hroom,
      List.drop_append_of_le_length hroom, List.filter_append, hzero, List.append_assoc]
    congr 2
    refine List.filter_congr fun b hb ↦ ?_
    simpa using hany [] _ (List.take_subset room as) b hb
  · -- the first part is reported as a whole
    rw [reportWith_of_length_le hroom, reportWith, reportWith, List.take_append,
      List.drop_append, List.take_of_length_le hroom, List.drop_of_length_le hroom,
      List.nil_append, List.append_assoc]
    congr 2
    exact List.filter_congr fun b hb ↦
      hany _ as (List.Subset.refl as) b (List.mem_of_mem_drop hb)

/-- A part further in is reported as if it stood alone, if nothing in it is kept in any case. -/
theorem reportWith_map_under {step : Step} (h : ∀ d ∈ ds, kept (d.under [step]) = false) :
    reportWith kept room (ds.map (under [step])) =
      (reportWith (fun _ ↦ false) room ds).map (under [step]) := by
  rw [reportWith, reportWith, List.map_append, List.map_take, ← List.map_drop, List.filter_map]
  congr 2
  refine List.filter_congr fun d hd ↦ ?_
  rw [Function.comp_apply, h d (List.mem_of_mem_drop hd), ← List.map_take, List.any_map]
  congr 1
  exact congrArg _ (funext fun d' ↦ isBeside_under step d d')

/-- In two objects with room for a difference their own keys are kept without being asked for. -/
theorem reportWith_isOwnKey (h : 0 < room) :
    reportWith isOwnKey room ds = reportWith (fun _ ↦ false) room ds := by
  rcases ds with - | ⟨first, ds⟩
  · simp
  · obtain ⟨room, rfl⟩ := Nat.exists_eq_add_of_lt h
    rw [reportWith, reportWith]
    congr 1
    refine List.filter_congr fun d _ ↦ ?_
    rcases hown : d.isOwnKey with - | -
    · rfl
    · simp [isBeside_of_isOwnKey hown]

/-- Only differences are reported. -/
theorem mem_of_mem_report {d : Difference} (h : d ∈ report ds) : d ∈ ds := by
  rcases List.mem_append.1 h with h | h
  · exact List.mem_of_mem_take h
  · exact List.mem_of_mem_drop (List.mem_of_mem_filter h)

/-- Where there are differences, some are reported. -/
theorem report_eq_nil_iff : report ds = [] ↔ ds = [] := by
  constructor
  · intro h
    simpa [report, reportLimit] using (List.append_eq_nil_iff.1 h).1
  · rintro rfl
    rfl

/-- A report is longer than its limit only by the keys that are listed behind. -/
theorem length_report_le_iff :
    (report ds).length ≤ reportLimit ↔
      ∀ d ∈ ds.drop reportLimit, ∀ d' ∈ ds.take reportLimit, d.isBeside d' = false := by
  have hfilter : (∀ d ∈ ds.drop reportLimit, ∀ d' ∈ ds.take reportLimit, d.isBeside d' = false) ↔
      ((ds.drop reportLimit).filter fun d ↦ (ds.take reportLimit).any d.isBeside) = [] := by
    simp [List.filter_eq_nil_iff]
  rw [hfilter, report, List.length_append, List.length_take, ← List.length_eq_zero_iff]
  rcases Nat.le_total ds.length reportLimit with h | h
  · simp [List.drop_of_length_le h, h]
  · rw [Nat.min_eq_left h]
    omega

end Reports

/-! ### The search -/

/-- A key that only one side has lies inside the values. -/
theorem path_ne_nil_of_isOneSided {e g : Json} {d : Difference} (h : d ∈ allDifferences e g)
    (hside : d.isOneSided = true) : d.path ≠ [] := by
  rcases arises_of_mem_allDifferences h with - | - | - | - | -
  · cases hside
  all_goals exact List.cons_ne_nil _ _

/-- What is found at a place is added to as the report of differences there says. -/
def Adds (kept : Difference → Bool) (path : List Step) (ds : List Difference)
    (found found' : Array Difference) : Prop :=
  found'.toList =
    found.toList ++ (reportWith kept (reportLimit - found.size) ds).map (under path)

section Adds

variable {kept : Difference → Bool} {path : List Step} {as bs ds : List Difference}
  {found found' found'' : Array Difference}

theorem Adds.of_forall (h : ∀ d ∈ ds, kept d = true)
    (hadded : found'.toList = found.toList ++ ds.map (under path)) :
    Adds kept path ds found found' := by
  rw [Adds, reportWith_of_forall h, hadded]

theorem Adds.nil : Adds kept path [] found found := .of_forall (by simp) (by simp)

theorem Adds.trans (h : Adds kept path as found found') (h' : Adds kept path bs found' found'')
    (hapart : ∀ b ∈ bs, ∀ a ∈ as, kept b = false → b.isBeside a = false) :
    Adds kept path (as ++ bs) found found'' := by
  have hsize : found'.size =
      found.size + (reportWith kept (reportLimit - found.size) as).length := by
    rw [← Array.length_toList, h, List.length_append, List.length_map, Array.length_toList]
  have hroom : reportLimit - found'.size = reportLimit - found.size - as.length := by
    rw [hsize, Nat.sub_add_eq, sub_length_reportWith]
  rw [Adds, h', h, hroom, reportWith_append hapart, List.map_append, List.append_assoc]

/-- What is added one step further in. -/
theorem Adds.under {step : Step} (h : Adds (fun _ ↦ false) (path ++ [step]) ds found found')
    (hkept : ∀ d ∈ ds, kept (d.under [step]) = false) :
    Adds kept path (ds.map (.under [step])) found found' := by
  rw [Adds, h, reportWith_map_under hkept, List.map_map]
  congr 2
  exact funext fun d ↦ under_append path [step] d

end Adds

/-- A search in the value adds the report of the differences. -/
def Searched (e : Json) : Prop :=
  ∀ (path : List Step) (found : Array Difference) (g : Json),
    Adds (fun _ ↦ false) path (allDifferences e g) found (collect path found e g)

theorem isOwnKey_under {e g : Json} {d : Difference} (h : d ∈ allDifferences e g) (step : Step) :
    (d.under [step]).isOwnKey = false := by
  rw [isOwnKey, isOneSided_under]
  rcases hside : d.isOneSided with - | -
  · rfl
  · simpa using path_ne_nil_of_isOneSided h hside

/-- The members of an object are told apart by their keys. -/
theorem isBeside_of_mem_memberDifferences {gs members : Members} {key : String}
    (hkey : key ∉ members.map Prod.fst) {b : Difference} (hb : b ∈ memberDifferences gs members)
    (hown : b.isOwnKey = false) (a : Difference) : b.isBeside (a.under [.key key]) = false := by
  obtain ⟨m, hm, ⟨-, rfl⟩ | ⟨g, -, d, hd, rfl⟩⟩ := mem_memberDifferences hb
  · cases hown
  · refine isBeside_under_of_ne (fun heq ↦ hkey ?_) (path_ne_nil_of_isOneSided hd) a
    rw [← Step.key.inj heq]
    exact List.mem_map_of_mem hm

theorem adds_collectMembers (path : List Step) (gs : Members) {es : Members}
    (hnodup : (es.map Prod.fst).Nodup) (h : ∀ m ∈ es, Searched m.2) (found : Array Difference) :
    Adds isOwnKey path (memberDifferences gs es) found (collectMembers path gs found es) := by
  induction es generalizing found with
  | nil => exact .nil
  | cons m es ih =>
    obtain ⟨hkey, hnodup⟩ := List.nodup_cons.1 hnodup
    obtain ⟨hm, hes⟩ := List.forall_mem_cons.1 h
    rw [memberDifferences, collectMembers]
    rcases find? m.1 gs with - | g
    · have hmissing : Adds isOwnKey path [⟨[.key m.1], .missing⟩] found
          (found.push ⟨path ++ [.key m.1], .missing⟩) :=
        .of_forall (by simp [isOwnKey, isOneSided]) (by simp [under])
      refine hmissing.trans (ih hnodup hes _) fun b hb a ha hown ↦ ?_
      rw [List.mem_singleton.1 ha]
      exact isBeside_of_mem_memberDifferences hkey hb hown ⟨[], .missing⟩
    · have hinner : Adds isOwnKey path ((allDifferences m.2 g).map (.under [.key m.1])) found
          (collect (path ++ [.key m.1]) found m.2 g) :=
        (hm _ found g).under fun d hd ↦ isOwnKey_under hd _
      refine hinner.trans (ih hnodup hes _) fun b hb a ha hown ↦ ?_
      obtain ⟨a', -, rfl⟩ := List.mem_map.1 ha
      exact isBeside_of_mem_memberDifferences hkey hb hown a'

theorem adds_collectItems (path : List Step) (i : Nat) {es : List Json}
    (h : ∀ e ∈ es, Searched e) (gs : List Json) (found : Array Difference) :
    Adds (fun _ ↦ false) path (itemDifferences i es gs) found
      (collectItems path i found es gs) := by
  induction es generalizing i gs found with
  | nil =>
    rw [itemDifferences, collectItems]
    · exact .nil
    all_goals simp
  | cons e es ih =>
    obtain ⟨he, hes⟩ := List.forall_mem_cons.1 h
    cases gs with
    | nil =>
      rw [itemDifferences, collectItems]
      · exact .nil
      all_goals simp
    | cons g gs =>
      rw [itemDifferences, collectItems]
      have hinner : Adds (fun _ ↦ false) path ((allDifferences e g).map (.under [.index i])) found
          (collect (path ++ [.index i]) found e g) :=
        (he _ found g).under fun d _ ↦ rfl
      refine hinner.trans (ih (i + 1) hes gs _) fun b hb a ha _ ↦ ?_
      obtain ⟨a', -, rfl⟩ := List.mem_map.1 ha
      obtain ⟨k, e', g', -, -, d, hd, rfl⟩ := mem_itemDifferences hb
      refine isBeside_under_of_ne (fun heq ↦ ?_) (path_ne_nil_of_isOneSided hd) a'
      have hindex : i + 1 + k = i := Step.index.inj heq
      omega

theorem adds_unexpectedKeys (path : List Step) (es gs : Members) (found : Array Difference) :
    Adds isOwnKey path (unexpectedKeys es gs) found
      ((gs.filter fun m ↦ (find? m.1 es).isNone).foldl
        (fun found m ↦ found.push ⟨path ++ [.key m.1], .unexpected⟩) found) := by
  refine .of_forall (fun d hd ↦ ?_) ?_
  · obtain ⟨m, -, -, rfl⟩ := mem_unexpectedKeys hd
    rfl
  · simp [unexpectedKeys, Function.comp_def, under]

theorem collect_eq (path : List Step) (found : Array Difference) (e g : Json) :
    collect path found e g =
      if reportLimit ≤ found.size || agrees e g then found
      else
        match e, g with
        | .object es, .object gs =>
          (gs.filter fun m ↦ (find? m.1 es).isNone).foldl
            (fun found m ↦ found.push ⟨path ++ [.key m.1], .unexpected⟩)
            (collectMembers path gs found es)
        | .array es, .array gs =>
          if es.length = gs.length then collectItems path 0 found es gs
          else found.push ⟨path, .different⟩
        | _, _ => found.push ⟨path, .different⟩ :=
  collect.eq_def path found e g

/-- Only where there is room for a difference, and there is one, anything is searched. -/
theorem adds_collect_of {path : List Step} {found : Array Difference} {e g : Json}
    (h : found.size < reportLimit → agrees e g = false →
      Adds (fun _ ↦ false) path (allDifferences e g) found (collect path found e g)) :
    Adds (fun _ ↦ false) path (allDifferences e g) found (collect path found e g) := by
  rcases Nat.lt_or_ge found.size reportLimit with hroom | hfull
  · rcases hagree : agrees e g with - | -
    · exact h hroom hagree
    · rw [allDifferences_eq, collect_eq, hagree, Bool.or_true, if_pos rfl, if_pos rfl]
      exact .nil
  · rw [collect_eq, if_pos (by simp [hfull]), Adds, Nat.sub_eq_zero_of_le hfull]
    simp [reportWith]

theorem adds_whole {path : List Step} {found : Array Difference} (h : found.size < reportLimit) :
    Adds (fun _ ↦ false) path [⟨[], .different⟩] found (found.push ⟨path, .different⟩) := by
  rw [Adds, reportWith_of_length_le (Nat.sub_pos_of_lt h)]
  simp [under]

/-- **A search adds the report of the differences**, if no object has a key twice. -/
theorem searched_of_distinctKeys {e : Json} (he : e.DistinctKeys) : Searched e := by
  induction he with
  | null | bool | number | string =>
    refine fun path found g ↦ adds_collect_of fun hroom hagree ↦ ?_
    rw [allDifferences_eq, collect_eq, if_neg (by simp [hagree]),
      if_neg (by simp [hroom, hagree])]
    exact adds_whole hroom
  | array _ ih =>
    refine fun path found g ↦ adds_collect_of fun hroom hagree ↦ ?_
    rw [allDifferences_eq, collect_eq, if_neg (by simp [hagree]),
      if_neg (by simp [hroom, hagree])]
    cases g with
    | array gs =>
      dsimp only
      split
      · exact adds_collectItems path 0 ih gs found
      · exact adds_whole hroom
    | _ => exact adds_whole hroom
  | @object es nodup _ ih =>
    refine fun path found g ↦ adds_collect_of fun hroom hagree ↦ ?_
    rw [allDifferences_eq, collect_eq, if_neg (by simp [hagree]),
      if_neg (by simp [hroom, hagree])]
    cases g with
    | object gs =>
      have hown : Adds isOwnKey path (memberDifferences gs es ++ unexpectedKeys es gs) found _ :=
        (adds_collectMembers path gs nodup ih found).trans (adds_unexpectedKeys path es gs _)
          fun b hb a _ hown ↦ ?_
      · rw [Adds, reportWith_isOwnKey (Nat.sub_pos_of_lt hroom)] at hown
        exact hown
      · obtain ⟨m, -, -, rfl⟩ := mem_unexpectedKeys hb
        cases hown
    | _ => exact adds_whole hroom

/-- **The report of two values**: the first five of all differences, and behind them the keys that
only one of two objects has in which one of the five lies. -/
theorem differences_eq_report {e : Json} (he : e.DistinctKeys) (g : Json) :
    differences e g = report (allDifferences e g) := by
  have hadds : differences e g = [] ++ (report (allDifferences e g)).map (.under []) :=
    searched_of_distinctKeys he [] #[] g
  rw [hadds, List.nil_append, show Difference.under [] = id from funext under_nil, List.map_id]

/-! ### The length of a report -/

/-- **A report keeps to its limit exactly when no further key is listed.** A key that only one of
two objects has is listed behind the first five differences when one of these lies in the
objects. -/
theorem length_differences_le_iff {expected got : Json} (h : expected.DistinctKeys) :
    (differences expected got).length ≤ reportLimit ↔
      ∀ d ∈ (allDifferences expected got).drop reportLimit,
        ∀ d' ∈ (allDifferences expected got).take reportLimit, d.isBeside d' = false := by
  rw [differences_eq_report h, length_report_le_iff]

/-- Six objects without a key that is expected of each: the search does not go into the last. -/
theorem length_differences_le_iff_apart :
    let expected : Json := .array (List.replicate 6 (.object [("name", .null)]))
    let got : Json := .array (List.replicate 6 (.object []))
    expected.DistinctKeys ∧ (allDifferences expected got).length = 6 ∧
      (differences expected got).length ≤ reportLimit := by
  intro expected got
  have hexpected : expected.DistinctKeys := by
    refine .array fun item hitem ↦ ?_
    rw [List.eq_of_mem_replicate hitem]
    exact .object (by decide) (List.forall_mem_singleton.2 .null)
  have hapart : ∀ d ∈ (allDifferences expected got).drop reportLimit,
      ∀ d' ∈ (allDifferences expected got).take reportLimit, d.isBeside d' = false := by
    decide +kernel
  exact ⟨hexpected, by decide +kernel, (length_differences_le_iff hexpected).2 hapart⟩

/-- One object without six keys that are expected of it: all six are listed. -/
theorem reportLimit_lt_length_differences_missing :
    let expected : Json :=
      .object [("a", .null), ("b", .null), ("c", .null), ("d", .null), ("e", .null), ("f", .null)]
    expected.DistinctKeys ∧ reportLimit < (differences expected (.object [])).length := by
  refine ⟨.object (by decide) ?_, by decide +kernel⟩
  simp only [List.forall_mem_cons]
  exact ⟨.null, .null, .null, .null, .null, .null, List.forall_mem_nil _⟩

end DisplayFile.Json

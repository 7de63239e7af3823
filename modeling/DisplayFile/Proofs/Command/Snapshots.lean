import DisplayFile.Proofs.Command.Suite
import DisplayFile.Proofs.Json.Agreement
import DisplayFile.Proofs.Json.RoundTrip
import DisplayFile.Proofs.Member.Json
import DisplayFile.Proofs.Member.Plain

/-!
# Snapshots as expected values

The model of a member that a command line prints is a valid expected value for it: recorded as it
is, it makes the fixture of the member pass, and that of a member with another model fail.

**A snapshot is read back as the JSON form of its member** (`read_of_prints`). Its bytes are those
of a text, the text is that of a plain value, and plain values are read back. The JSON form of a
member agrees with itself, and with that of no other member unless line numbers are so large that
the comparison of numbers does not tell them apart.
-/

namespace DisplayFile

open Json (Layout)

/-- Files as an operating system has them: what can be read is there, and no file is larger than the
memory that it is read into. -/
structure Files.Lawful (files : Files Id) : Prop where
  kind?_of_read : ∀ path bytes, files.read path = .ok bytes →
    ∃ kind, files.kind? path = some kind
  size_lt : ∀ path bytes, files.read path = .ok bytes → bytes.size < UInt64.size

namespace FileTree

variable {t : FileTree} {path : String} {bytes : ByteArray}

theorem nodeAt_of_read (h : t.files.read path = Except.ok bytes) :
    t.nodeAt path = .ok (.file bytes) := by
  rw [files] at h
  dsimp only at h
  split at h
  · next hnode => rw [hnode, Except.ok.inj h]
  · cases h
  · cases h

theorem mem_entries_of_node? {components : List String}
    (h : t.node? components = some (.file bytes)) : (components, some bytes) ∈ t.entries := by
  rw [node?] at h
  split at h
  · next hlookup =>
    obtain ⟨front, back, hentries, -⟩ := List.lookup_eq_some_iff.1 hlookup
    obtain rfl := Node.file.inj (Option.some.inj h)
    rw [hentries]
    simp
  · cases h
  · split at h <;> cases h

theorem exists_mem_entries_of_nodeAt (h : t.nodeAt path = .ok (.file bytes)) :
    ∃ components, (components, some bytes) ∈ t.entries := by
  rw [nodeAt] at h
  split at h
  · cases h
  · cases h
  · next components _ =>
    split at h
    · next hnode =>
      rw [Except.ok.inj h] at hnode
      exact ⟨components, mem_entries_of_node? hnode⟩
    · cases h

/-- A tree of files is lawful when its files are small enough. -/
theorem lawful_files (h : ∀ e ∈ t.entries, ∀ bytes ∈ e.2, bytes.size < UInt64.size) :
    t.files.Lawful where
  kind?_of_read path bytes hread := by
    refine ⟨.file, ?_⟩
    rw [files]
    dsimp only
    rw [nodeAt_of_read hread]
  size_lt path bytes hread := by
    obtain ⟨components, hmem⟩ := exists_mem_entries_of_nodeAt (nodeAt_of_read hread)
    exact h _ hmem bytes rfl

end FileTree

/-- Some command line prints the text as the model of a member with these bytes. -/
def Prints (bytes : ByteArray) (text : String) : Prop :=
  ∃ (files : Files Id) (arguments : List String) (options : Options) (path : String),
    Request.ofArguments arguments = .ok (.run options (.parse path)) ∧
      files.read path = .ok bytes ∧ run files arguments = Outcome.answer text

/-- **What is printed is the model of the member**, whatever the options are. -/
theorem prints_iff {bytes : ByteArray} {text : String} :
    Prints bytes text ↔ text = (Member.ofBytes bytes).modelText ++ "\n" := by
  constructor
  · rintro ⟨files, arguments, options, path, hrequest, hread, hrun⟩
    rcases hsettings : loadSettings files options.config with message | settings
    · rw [run_of_loadSettings_eq_error hrequest hsettings] at hrun
      cases congrArg Outcome.code hrun
    · rw [run_of_loadSettings_eq_ok hrequest hsettings] at hrun
      have hanswer : Outcome.answer ((Member.ofBytes bytes).modelText ++ "\n") =
          Outcome.answer text := by
        rw [← hrun, Command.run, readMember_of_eq_ok hread]
        rfl
      exact (congrArg Outcome.stdout hanswer).symm
  · rintro rfl
    have hrequest : Request.ofArguments ["parse", "MENU.dspf"] =
        .ok (.run {} (.parse "MENU.dspf")) := by
      decide +kernel
    let files : Files Id :=
      { read := fun _ ↦ .ok bytes, kind? := fun _ ↦ none, names := fun _ ↦ [] }
    have hsettings : loadSettings files none = Except.ok {} := rfl
    refine ⟨files, _, _, _, hrequest, rfl, ?_⟩
    rw [run_of_loadSettings_eq_ok hrequest hsettings]
    rfl

/-- **A snapshot is read back as the JSON form of its member.** -/
theorem read_of_prints {bytes : ByteArray} {text : String} (h : Prints bytes text)
    (hplain : Json.Plain UInt64.size Json.nestingLimit (Member.ofBytes bytes).toJson) :
    Json.read text = .ok (Member.ofBytes bytes).toJson := by
  rw [prints_iff.1 h]
  exact Json.read_line Layout.lawful_pretty hplain

/-! ### Fixtures with snapshots -/

/-- The expected value of the fixture is a snapshot of its member. -/
def Fixture.Recorded (files : Files Id) (f : Fixture) : Prop :=
  ∃ bytes text, files.read f.member = .ok bytes ∧ files.read f.expected = .ok text.toUTF8 ∧
    Prints bytes text

variable {files : Files Id}

/-- The JSON form of a member in a file is plain. -/
theorem Files.Lawful.plain_toJson (hfiles : files.Lawful) {path : String} {bytes : ByteArray}
    (h : files.read path = .ok bytes) :
    Json.Plain UInt64.size Json.nestingLimit (Member.ofBytes bytes).toJson :=
  (Member.ofBytes bytes).plain_toJson (by decide)
    (Member.linesBelow_ofBytes (hfiles.size_lt _ _ h))

/-- **A fixture passes with the snapshot of its member.** -/
theorem Fixture.Recorded.passes (hfiles : files.Lawful) {f : Fixture} (h : f.Recorded files) :
    f.Passes files := by
  obtain ⟨bytes, text, hmember, hexpected, hprints⟩ := h
  have hplain := hfiles.plain_toJson hmember
  exact ⟨hfiles.kind?_of_read _ _ hexpected, text.toUTF8, text, _, hexpected,
    Text.Utf8.decode?_toUTF8 text, read_of_prints hprints hplain, bytes, hmember,
    hplain.distinctKeys.agrees_refl⟩

/-- **It does not pass with the snapshot of a member with another model**, in which the comparison
of numbers tells the line numbers apart. -/
theorem Fixture.not_passes (hfiles : files.Lawful) {f : Fixture} {bytes bytes' : ByteArray}
    {text : String} (hmember : files.read f.member = .ok bytes)
    (hexpected : files.read f.expected = .ok text.toUTF8) (hprints : Prints bytes' text)
    (hne : Member.ofBytes bytes' ≠ Member.ofBytes bytes)
    (hlines : (Member.ofBytes bytes').LinesBelow (2 ^ 53)) : ¬f.Passes files := by
  rintro ⟨-, expectedBytes, source, value, hbytes, hdecode, hvalue, memberBytes, hread, hagrees⟩
  obtain rfl : bytes = memberBytes := Except.ok.inj (hmember.symm.trans hread)
  obtain rfl : text.toUTF8 = expectedBytes := Except.ok.inj (hexpected.symm.trans hbytes)
  obtain rfl : text = source :=
    Option.some.inj ((Text.Utf8.decode?_toUTF8 text).symm.trans hdecode)
  have hplain : Json.Plain (2 ^ 53) Json.nestingLimit (Member.ofBytes bytes').toJson :=
    (Member.ofBytes bytes').plain_toJson (by decide) hlines
  have hread' : Json.read text = .ok (Member.ofBytes bytes').toJson :=
    read_of_prints hprints (hplain.mono (by decide) (Nat.le_refl _))
  obtain rfl : (Member.ofBytes bytes').toJson = value :=
    Except.ok.inj (hread'.symm.trans hvalue)
  have hjson : (Member.ofBytes bytes).toJson = (Member.ofBytes bytes').toJson :=
    (hfiles.plain_toJson hmember).eq_of_agrees hplain hagrees
  have hmodels : some (Member.ofBytes bytes') = some (Member.ofBytes bytes) := by
    rw [← Member.ofJson?_toJson (Member.ofBytes bytes), hjson, Member.ofJson?_toJson]
  exact hne (Option.some.inj hmodels)

/-! ### Suites of snapshots -/

variable {arguments : List String} {options : Options} {suite : String} {settings : Settings}

/-- A member in the folder of a suite has a verdict. -/
theorem exists_mem_suiteVerdicts {stem : String} (hstem : stem ≠ "")
    (hmember : stem ++ ".dspf" ∈ suiteNames files suite) :
    ∃ v ∈ suiteVerdicts files suite, v.stem = stem := by
  have hmem : stem ++ ".dspf" ∈ (suiteVerdicts files suite).map Verdict.fileName := by
    rw [(perm_map_fileName_suiteVerdicts files suite).mem_iff, List.mem_filter]
    exact ⟨hmember, Fixture.isMemberName_iff.2 ⟨stem, hstem, rfl⟩⟩
  obtain ⟨v, hv, hname⟩ := List.mem_map.1 hmem
  exact ⟨v, hv, (String.append_left_inj ".dspf").1 hname⟩

/-- And each verdict is on a member in the folder. -/
theorem mem_names_of_mem_suiteVerdicts {v : Verdict} (h : v ∈ suiteVerdicts files suite) :
    v.stem ≠ "" ∧ v.stem ++ ".dspf" ∈ suiteNames files suite := by
  have hmem := (perm_map_fileName_suiteVerdicts files suite).mem_iff.1 (List.mem_map_of_mem h)
  obtain ⟨hname, hmemberName⟩ := List.mem_filter.1 hmem
  obtain ⟨stem, hstem, heq⟩ := Fixture.isMemberName_iff.1 hmemberName
  obtain rfl : v.stem = stem := (String.append_left_inj ".dspf").1 heq
  exact ⟨hstem, hname⟩

/-- **A suite of snapshots passes, and any snapshot of another model is found.** -/
theorem run_test_snapshots (hfiles : files.Lawful)
    (hrequest : Request.ofArguments arguments = .ok (.run options (.test suite)))
    (hsettings : loadSettings files options.config = Except.ok settings)
    (hsuite : files.kind? suite = some .folder) :
    ((∀ stem, stem ≠ "" → stem ++ ".dspf" ∈ suiteNames files suite →
        (Fixture.ofStem (joinPath suite "positive") stem).Recorded files) →
      ∃ verdicts : List Verdict,
        (verdicts.map Verdict.fileName).Perm
            ((suiteNames files suite).filter Fixture.isMemberName) ∧
          (∀ v ∈ verdicts, v.ok = true) ∧
          run files arguments = Outcome.answer (tapText verdicts)) ∧
    (∀ stem bytes bytes' text, stem ≠ "" →
      stem ++ ".dspf" ∈ suiteNames files suite →
      files.read (Fixture.ofStem (joinPath suite "positive") stem).member = .ok bytes →
      files.read (Fixture.ofStem (joinPath suite "positive") stem).expected = .ok text.toUTF8 →
      Prints bytes' text → Member.ofBytes bytes' ≠ Member.ofBytes bytes →
      (Member.ofBytes bytes').LinesBelow (2 ^ 53) →
      ∃ verdicts : List Verdict,
        (verdicts.map Verdict.fileName).Perm
            ((suiteNames files suite).filter Fixture.isMemberName) ∧
          (∀ v ∈ verdicts, v.stem = stem → v.ok = false) ∧
          (run files arguments : Outcome).stdout = tapText verdicts ∧
          (run files arguments : Outcome).code = 1) := by
  have hrun := run_test hrequest hsettings hsuite
  constructor
  · intro hrecorded
    have hok : ∀ v ∈ suiteVerdicts files suite, v.ok = true := by
      intro v hv
      obtain ⟨hstem, hmember⟩ := mem_names_of_mem_suiteVerdicts hv
      exact (ok_iff_of_mem_suiteVerdicts hv).2 ((hrecorded v.stem hstem hmember).passes hfiles)
    have hany : (suiteVerdicts files suite).any (!·.ok) = false := by
      simpa [List.any_eq_false] using hok
    refine ⟨suiteVerdicts files suite, perm_map_fileName_suiteVerdicts files suite, hok, ?_⟩
    rw [hrun, hany]
    rfl
  · intro stem bytes bytes' text hstem hmember hread hexpected hprints hne hlines
    have hfails : ∀ v ∈ suiteVerdicts files suite, v.stem = stem → v.ok = false := by
      rintro v hv rfl
      rw [← Bool.not_eq_true, ok_iff_of_mem_suiteVerdicts hv]
      exact Fixture.not_passes hfiles hread hexpected hprints hne hlines
    have hany : (suiteVerdicts files suite).any (!·.ok) = true := by
      obtain ⟨v, hv, hvstem⟩ := exists_mem_suiteVerdicts hstem hmember
      exact List.any_eq_true.2 ⟨v, hv, by rw [hfails v hv hvstem]; rfl⟩
    refine ⟨suiteVerdicts files suite, perm_map_fileName_suiteVerdicts files suite, hfails, ?_, ?_⟩
    · rw [hrun]
    · rw [hrun, hany]
      rfl

/-- Two suites with a member without lines. In one of them lies its snapshot, in the other that of a
member with a record. -/
theorem run_test_snapshots_two :
    let bytes := "".toUTF8
    let text := (Member.ofBytes bytes).modelText ++ "\n"
    let bytes' := "                R MENU\n".toUTF8
    let text' := (Member.ofBytes bytes').modelText ++ "\n"
    let files := FileTree.files
      ⟨[(["old", "positive", "MENU.dspf"], some bytes),
        (["old", "positive", "MENU.expected.json"], some text.toUTF8),
        (["new", "positive", "MENU.dspf"], some bytes),
        (["new", "positive", "MENU.expected.json"], some text'.toUTF8)]⟩
    ((files.Lawful ∧ loadSettings files none = Except.ok {}) ∧
        (Request.ofArguments ["test", "old"] = .ok (.run {} (.test "old")) ∧
          files.kind? "old" = some .folder) ∧
        (Request.ofArguments ["test", "new"] = .ok (.run {} (.test "new")) ∧
          files.kind? "new" = some .folder)) ∧
      (∃ comments, run files ["test", "old"] =
        Outcome.answer (tapText [⟨"MENU", true, comments⟩])) ∧
      (run files ["test", "new"] : Outcome).code = 1 := by
  intro bytes text bytes' text' files
  have hfiles : files.Lawful := FileTree.lawful_files (by decide +kernel)
  have hsettings : loadSettings files none = Except.ok {} := by
    show (_ : Except String Settings) = _
    decide +kernel
  have hold : Request.ofArguments ["test", "old"] = .ok (.run {} (.test "old")) := by
    decide +kernel
  have hnew : Request.ofArguments ["test", "new"] = .ok (.run {} (.test "new")) := by
    decide +kernel
  have hold' : (files.kind? "old" : Option FileKind) = some .folder := by
    show (_ : Option FileKind) = _
    decide +kernel
  have hnew' : (files.kind? "new" : Option FileKind) = some .folder := by
    show (_ : Option FileKind) = _
    decide +kernel
  have holdNames : (suiteNames files "old").filter Fixture.isMemberName = ["MENU" ++ ".dspf"] := by
    decide +kernel
  have hnewNames : "MENU" ++ ".dspf" ∈ suiteNames files "new" := by decide +kernel
  have hrecorded : (Fixture.ofStem (joinPath "old" "positive") "MENU").Recorded files :=
    ⟨bytes, text, rfl, rfl, prints_iff.2 rfl⟩
  have hne : Member.ofBytes bytes' ≠ Member.ofBytes bytes := by decide +kernel
  have hlines : (Member.ofBytes bytes').LinesBelow (2 ^ 53) :=
    Member.linesBelow_ofBytes (by decide +kernel)
  refine ⟨⟨⟨hfiles, hsettings⟩, ⟨hold, hold'⟩, ⟨hnew, hnew'⟩⟩, ?_, ?_⟩
  · obtain ⟨verdicts, hperm, hok, hrun⟩ :=
      (run_test_snapshots hfiles hold hsettings hold').1 fun stem hstem hmember ↦ by
        have hmem : stem ++ ".dspf" ∈ ["MENU" ++ ".dspf"] := by
          rw [← holdNames, List.mem_filter]
          exact ⟨hmember, Fixture.isMemberName_iff.2 ⟨stem, hstem, rfl⟩⟩
        obtain rfl : stem = "MENU" :=
          (String.append_left_inj ".dspf").1 (List.mem_singleton.1 hmem)
        exact hrecorded
    rw [holdNames] at hperm
    obtain ⟨ok, comments, rfl⟩ := Verdict.eq_singleton_of_perm hperm
    obtain rfl : ok = true := hok _ (List.mem_singleton_self _)
    exact ⟨comments, hrun⟩
  · obtain ⟨-, -, -, -, hcode⟩ :=
      (run_test_snapshots hfiles hnew hsettings hnew').2 "MENU" bytes bytes' text' (by decide)
        hnewNames rfl rfl (prints_iff.2 rfl) hne hlines
    exact hcode

end DisplayFile

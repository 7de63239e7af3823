import DisplayFile.Command.FileTree
import DisplayFile.Proofs.Command.Running
import DisplayFile.Proofs.Text.Lines
import Mathlib.Data.List.Basic

/-!
# Reports of conformance suites

A run of a suite skips nothing and tells the truth. It reports one verdict for each file in its
folder whose extension is that of members (`Fixture.isMemberName`), in the order of their names, and
the verdict is that a fixture has passed exactly when it does (`Fixture.Passes`). The report and the
exit code are made from the verdicts (`run_test`).

**Names are split at their last dot.** A file name stands for a fixture when it is a stem, a dot and
the extension; a name that only consists of a dot and the extension has no stem
(`Fixture.ofName?_eq_some_iff`).

**Every way to fail gives a reason.** The expected value can be missing, unreadable, no text or no
JSON, the member can be unreadable, and its JSON form can differ. In each case there is a reason,
and in no other (`Fixture.failure?_eq_none_iff`). Its lines stand below the test point as comments,
so that a report has no more test points than fixtures.
-/

namespace DisplayFile

/-! ### Names of members -/

namespace Fixture

/-- The extension of a file name is `dspf`: the name ends in it and has something before its dot. -/
def isMemberName (name : String) : Bool :=
  ".dspf".toList.isSuffixOf name.toList && name ≠ ".dspf"

/-- A file is a member when its name has something in front of the ending. -/
theorem isMemberName_iff {name : String} :
    isMemberName name = true ↔ ∃ stem, stem ≠ "" ∧ name = stem ++ ".dspf" := by
  rw [isMemberName, Bool.and_eq_true, List.isSuffixOf_iff_suffix, decide_eq_true_iff]
  constructor
  · rintro ⟨⟨cs, hcs⟩, hne⟩
    have hname : name = String.ofList cs ++ ".dspf" := by
      rw [← String.toList_inj, String.toList_append, String.toList_ofList, hcs]
    refine ⟨String.ofList cs, ?_, hname⟩
    intro hempty
    rw [hempty, String.empty_append] at hname
    exact hne hname
  · rintro ⟨stem, hstem, rfl⟩
    refine ⟨⟨stem.toList, String.toList_append.symm⟩, fun h ↦ hstem ?_⟩
    rw [← String.toList_inj, String.toList_append] at h
    exact String.toList_inj.1 (List.append_cancel_right (h.trans (List.nil_append _).symm))

/-- A name is split at its last dot. -/
theorem splitName?_append {stem extension : String} (hstem : stem ≠ "")
    (hextension : '.' ∉ extension.toList) (hne : extension ≠ "") :
    splitName? (stem ++ "." ++ extension) = some (stem, extension) := by
  have hreverse : (stem ++ "." ++ extension).toList.reverse =
      extension.toList.reverse ++ '.' :: stem.toList.reverse := by simp
  have htake : (stem ++ "." ++ extension).toList.reverse.takeWhile (· ≠ '.') =
      extension.toList.reverse := by
    rw [hreverse, List.takeWhile_append_of_pos, List.takeWhile_cons_of_neg (by simp),
      List.append_nil]
    intro c hc
    exact decide_eq_true fun h ↦ hextension (h ▸ List.mem_reverse.1 hc)
  have hlength : (stem ++ "." ++ extension).toList.length - extension.toList.length - 1 =
      stem.toList.length := by
    simp only [String.toList_append, List.length_append]
    show stem.toList.length + 1 + extension.toList.length - _ - 1 = _
    omega
  have hdots : stem ++ "." ++ extension ≠ ".." := by
    intro h
    rw [h] at htake
    have hnil : extension.toList.reverse = [] := htake.symm
    exact hne (String.toList_eq_nil_iff.1 (List.reverse_eq_nil_iff.1 hnil))
  have hstemTaken : (stem ++ "." ++ extension).toList.take stem.toList.length = stem.toList := by
    rw [String.append_assoc, String.toList_append, List.take_left]
  have hstemList : stem.toList ≠ [] := fun h ↦ hstem (String.toList_eq_nil_iff.1 h)
  have hlt : extension.toList.length < (stem ++ "." ++ extension).toList.length := by
    have hpos := List.length_pos_iff.2 hstemList
    simp only [String.toList_append, List.length_append]
    omega
  rw [splitName?]
  simp only [htake, List.reverse_reverse, hlength, hstemTaken]
  rw [if_pos ⟨hlt, hstemList, hdots⟩, String.ofList_toList, String.ofList_toList]

/-- The parts of a name make it up, and the first of them is not empty. -/
theorem of_splitName?_eq_some {name stem extension : String}
    (h : splitName? name = some (stem, extension)) :
    stem ≠ "" ∧ name = stem ++ "." ++ extension := by
  have hsplit := List.takeWhile_append_dropWhile (p := (· ≠ '.')) (l := name.toList.reverse)
  have hhead := List.head?_dropWhile_not (· ≠ '.') name.toList.reverse
  rw [splitName?] at h
  generalize name.toList.reverse.takeWhile (· ≠ '.') = back at h hsplit
  generalize name.toList.reverse.dropWhile (· ≠ '.') = front at hsplit hhead
  split at h
  · next hname =>
    obtain ⟨hlength, hstem, -⟩ := hname
    obtain ⟨rfl, rfl⟩ := Prod.mk.inj (Option.some.inj h)
    have hname : name.toList = front.reverse ++ back.reverse := by
      rw [← List.reverse_append, hsplit, List.reverse_reverse]
    rcases front with - | ⟨c, front⟩
    · rw [hname] at hlength
      exact absurd hlength (Nat.lt_irrefl _)
    · have hc : c = '.' := by simpa using hhead
      have htake : name.toList.take (name.toList.length - back.reverse.length - 1) =
          front.reverse := by
        have hlength : name.toList.length - back.reverse.length - 1 = front.reverse.length := by
          rw [hname, List.length_append, List.reverse_cons, List.length_append,
            List.length_singleton]
          omega
        rw [hlength, hname, List.reverse_cons, List.append_assoc, List.take_left]
      rw [htake] at hstem ⊢
      refine ⟨fun hempty ↦ hstem ?_, ?_⟩
      · simpa using hempty
      · rw [← String.toList_inj, hname, hc]
        simp
  · cases h

/-- The fixture with a stem in a folder. -/
def ofStem (folder stem : String) : Fixture :=
  { stem
    member := joinPath folder (stem ++ ".dspf")
    expected := joinPath folder (stem ++ ".expected.json") }

/-- **The fixtures are the names with the extension of members.** -/
theorem ofName?_eq_some_iff {folder name : String} {f : Fixture} :
    ofName? folder name = some f ↔
      ∃ stem, stem ≠ "" ∧ name = stem ++ ".dspf" ∧ f = ofStem folder stem := by
  constructor
  · intro h
    rw [ofName?] at h
    split at h
    · next stem hsplit =>
      obtain ⟨hstem, hname⟩ := of_splitName?_eq_some hsplit
      rw [String.append_assoc] at hname
      refine ⟨stem, hstem, hname, ?_⟩
      rw [← Option.some.inj h, hname]
      rfl
    · cases h
  · rintro ⟨stem, hstem, rfl, rfl⟩
    have hsplit : splitName? (stem ++ "." ++ "dspf") = some (stem, "dspf") :=
      splitName?_append hstem (by decide) (by decide)
    rw [String.append_assoc] at hsplit
    change splitName? (stem ++ ".dspf") = _ at hsplit
    rw [ofName?, hsplit]
    rfl

/-- The names of the fixtures are the names of members, in order. -/
theorem map_stem_ofNames (folder : String) (names : List String) :
    (ofNames folder names).map (fun f ↦ f.stem ++ ".dspf") =
      (names.mergeSort fun a b ↦ decide (a ≤ b)).filter isMemberName := by
  rw [ofNames, List.map_filterMap, ← List.filterMap_eq_filter]
  congr 1
  funext name
  rcases hname : isMemberName name with - | -
  · have hnone : ofName? folder name = none := by
      rw [Option.eq_none_iff_forall_ne_some]
      intro f hf
      obtain ⟨stem, hstem, hstemName, -⟩ := ofName?_eq_some_iff.1 hf
      rw [isMemberName_iff.2 ⟨stem, hstem, hstemName⟩] at hname
      cases hname
    rw [hnone]
    simp [Option.guard, hname]
  · obtain ⟨stem, hstem, rfl⟩ := isMemberName_iff.1 hname
    rw [ofName?_eq_some_iff.2 ⟨stem, hstem, rfl, rfl⟩]
    simp [Option.guard, hname, ofStem]

theorem eq_ofStem_of_mem_ofNames {folder : String} {names : List String} {f : Fixture}
    (h : f ∈ ofNames folder names) : f = ofStem folder f.stem := by
  obtain ⟨name, -, hname⟩ := List.mem_filterMap.1 h
  obtain ⟨stem, -, -, rfl⟩ := ofName?_eq_some_iff.1 hname
  rfl

end Fixture

/-! ### When a fixture passes -/

variable {files : Files Id} {folder : String}

/-- The fixture has an expected value, and its member can be read and has a JSON form that agrees
with the value. -/
def Fixture.Passes (files : Files Id) (f : Fixture) : Prop :=
  (∃ kind, files.kind? f.expected = some kind) ∧
    ∃ bytes source value, files.read f.expected = .ok bytes ∧
      Text.Utf8.decode? bytes = some source ∧ Json.read source = .ok value ∧
      ∃ memberBytes, files.read f.member = .ok memberBytes ∧
        (Member.ofBytes memberBytes).toJson.agrees value = true

namespace Fixture

theorem expectedValue_eq_ok_iff {f : Fixture} {source : Except FileError String} {value : Json} :
    f.expectedValue source = .ok value ↔
      ∃ text, source = .ok text ∧ Json.read text = .ok value := by
  rcases source with e | text
  · simp [expectedValue]
  · rcases hread : Json.read text with e | v
    all_goals simp [expectedValue, hread]

/-- There is no fault in a member that is read and agrees with what is expected. -/
theorem judge_eq_none_iff {expected : Json} {member : Except Failure Member} :
    judge expected member = none ↔ ∃ m, member = .ok m ∧ m.toJson.agrees expected = true := by
  rcases member with e | m
  · simp [judge]
  · rcases hagrees : m.toJson.agrees expected with - | -
    all_goals simp [judge, hagrees]

/-- A fixture fails where nothing is at the path of its expected value. -/
theorem failure?_of_kind?_eq_none {f : Fixture} (h : files.kind? f.expected = none) :
    f.failure? files = some s!"missing expected file: {f.expected}" := by
  rw [failure?, h]
  rfl

theorem failure?_of_kind?_eq_some {f : Fixture} {kind : FileKind}
    (h : files.kind? f.expected = some kind) :
    f.failure? files =
      match f.expectedValue (textOfBytes (files.read f.expected)) with
      | .error reason => some s!"failed to read expected file: {reason}"
      | .ok expected => judge expected (readMember files f.member) := by
  have hkind : f.failure? files =
      match f.expectedValue (files.readText f.expected) with
      | .error reason => pure (some s!"failed to read expected file: {reason}")
      | .ok expected => do return judge expected (← readMember files f.member) := by
    rw [failure?, h]
    rfl
  rw [hkind]
  rfl

/-- **A fixture fails for a reason exactly when it does not pass.** -/
theorem failure?_eq_none_iff {f : Fixture} : f.failure? files = none ↔ f.Passes files := by
  rcases hkind : files.kind? f.expected with - | kind
  · rw [failure?_of_kind?_eq_none hkind, Passes, hkind]
    simp
  · rw [failure?_of_kind?_eq_some hkind, Passes, hkind]
    constructor
    · intro h
      rcases hvalue : f.expectedValue (textOfBytes (files.read f.expected)) with reason | value
      · rw [hvalue] at h
        cases h
      · rw [hvalue] at h
        obtain ⟨source, hsource, hread⟩ := expectedValue_eq_ok_iff.1 hvalue
        obtain ⟨bytes, hbytes, hdecode⟩ := textOfBytes_eq_ok_iff.1 hsource
        obtain ⟨m, hm, hagrees⟩ := judge_eq_none_iff.1 h
        obtain ⟨memberBytes, hmember, rfl⟩ := readMember_eq_ok_iff.1 hm
        exact ⟨⟨kind, rfl⟩, bytes, source, value, hbytes, hdecode, hread, memberBytes, hmember,
          hagrees⟩
    · rintro ⟨-, bytes, source, value, hbytes, hdecode, hread, memberBytes, hmember, hagrees⟩
      have hvalue : f.expectedValue (textOfBytes (files.read f.expected)) = .ok value :=
        expectedValue_eq_ok_iff.2 ⟨source, textOfBytes_eq_ok_iff.2 ⟨bytes, hbytes, hdecode⟩, hread⟩
      rw [hvalue]
      exact judge_eq_none_iff.2 ⟨_, readMember_of_eq_ok hmember, hagrees⟩

end Fixture

/-! ### The report -/

/-- What a report says about a fixture. -/
structure Verdict where
  /-- The name of the member without its extension. -/
  stem : String
  /-- The fixture has passed. -/
  ok : Bool
  /-- What is said below the test point. -/
  comments : List String

namespace Verdict

/-- The name of the member. -/
def fileName (v : Verdict) : String := v.stem ++ ".dspf"

/-- The test point with a number, and the comments below it. -/
def lines (v : Verdict) (number : Nat) : List String :=
  ((if v.ok then "ok " else "not ok ") ++ toString number ++ " - positive/" ++ v.stem) ::
    v.comments.map ("  # " ++ ·)

/-- The verdict on a fixture that fails for a reason, or for none. -/
def ofFailure (stem : String) (failure : Option String) : Verdict :=
  { stem, ok := failure.isNone, comments := (failure.map Text.lines).getD [] }

end Verdict

/-- A verdict has comments for the reason of a failure only, and each of them is one line. -/
theorem Verdict.comments_ofFailure (stem : String) (failure : Option String) :
    ((ofFailure stem failure).ok = true → (ofFailure stem failure).comments = []) ∧
      ∀ comment ∈ (ofFailure stem failure).comments, '\n' ∉ comment.toList := by
  rcases failure with - | reason
  · exact ⟨fun _ ↦ rfl, List.forall_mem_nil _⟩
  · refine ⟨fun hok ↦ ?_, fun comment hcomment ↦ Text.not_mem_of_mem_lines hcomment⟩
    cases hok

/-- The report of verdicts: the plan, the test points counted from 1, and the totals. -/
def tapText (verdicts : List Verdict) : String :=
  String.join <| List.map (· ++ "\n") <|
    ["TAP version 14", "1.." ++ toString verdicts.length] ++
      (verdicts.zipIdx 1).flatMap (fun (v, number) ↦ v.lines number) ++
      ["# tests " ++ toString verdicts.length,
       "# pass  " ++ toString (verdicts.countP (·.ok)),
       "# fail  " ++ toString (verdicts.countP (!·.ok))]

theorem Verdict.lines_ofFailure (f : Fixture) (failure : Option String) (number : Nat) :
    (Verdict.ofFailure f.stem failure).lines number =
      TestPoint.lines ⟨f.pointName, failure⟩ number := by
  have hname : " - positive/" ++ f.stem = " - " ++ f.pointName := by
    rw [Fixture.pointName, Fixture.folderName, ← String.append_assoc, ← String.append_assoc]
    rfl
  rcases failure with - | reason
  all_goals simp [Verdict.lines, Verdict.ofFailure, TestPoint.lines, TestPoint.passed,
    String.append_assoc, hname]

/-- The results of fixtures that fail for reasons, or for none. -/
def Fixture.report (fixtures : List Fixture) (failure : Fixture → Option String) : Report :=
  ⟨fixtures.map fun f ↦ ⟨f.pointName, failure f⟩⟩

/-- The verdicts on them. -/
def Fixture.verdicts (fixtures : List Fixture) (failure : Fixture → Option String) : List Verdict :=
  fixtures.map fun f ↦ .ofFailure f.stem (failure f)

section Report

variable (fixtures : List Fixture) (failure : Fixture → Option String)

theorem passes_report :
    (Fixture.report fixtures failure).passes =
      (Fixture.verdicts fixtures failure).countP (·.ok) := by
  rw [Report.passes, Fixture.report, Fixture.verdicts, List.countP_map, List.countP_map]
  rfl

theorem failures_report :
    (Fixture.report fixtures failure).failures =
      (Fixture.verdicts fixtures failure).countP (!·.ok) := by
  have hlength : (Fixture.report fixtures failure).points.length =
      (Fixture.verdicts fixtures failure).length := by
    rw [Fixture.report, Fixture.verdicts, List.length_map, List.length_map]
  have hcount := List.length_eq_countP_add_countP (·.ok) (l := Fixture.verdicts fixtures failure)
  simp only [Bool.not_eq_true, Bool.decide_eq_false] at hcount
  rw [Report.failures, passes_report, hlength]
  omega

/-- The report of results is that of the verdicts. -/
theorem text_report :
    (Fixture.report fixtures failure).text = tapText (Fixture.verdicts fixtures failure) := by
  rw [Report.text, Report.lines, failures_report, passes_report, tapText]
  simp only [Fixture.report, Fixture.verdicts, List.length_map, List.zipIdx_map, List.flatMap_map,
    Prod.map, id_eq, Verdict.lines_ofFailure]

end Report

/-! ### Running a suite -/

/-- The names in the folder of a suite. -/
def suiteNames (files : Files Id) (suite : String) : List String :=
  files.names (joinPath suite "positive")

/-- The fixtures of a suite. -/
def suiteFixtures (files : Files Id) (suite : String) : List Fixture :=
  Fixture.ofNames (joinPath suite "positive") (suiteNames files suite)

/-- The verdicts on the fixtures of a suite. -/
def suiteVerdicts (files : Files Id) (suite : String) : List Verdict :=
  Fixture.verdicts (suiteFixtures files suite) fun f ↦ f.failure? files

/-- A suite that runs without effects gives the report of its fixtures. -/
theorem runSuite_eq (files : Files Id) (suite : String) :
    runSuite files suite =
      (pure (Fixture.report (suiteFixtures files suite) fun f ↦ f.failure? files) : Id Report) := by
  rw [runSuite]
  show (Report.mk <$> (suiteFixtures files suite).mapM fun f ↦
    (pure (TestPoint.mk f.pointName (f.failure? files)) : Id TestPoint)) = _
  rw [List.mapM_pure]
  rfl

variable {arguments : List String} {options : Options} {suite : String} {settings : Settings}

/-- A run of a suite reports the verdicts on its fixtures. -/
theorem run_test (hrequest : Request.ofArguments arguments = .ok (.run options (.test suite)))
    (hsettings : loadSettings files options.config = Except.ok settings)
    (hsuite : files.kind? suite = some .folder) :
    run files arguments =
      Outcome.mk (if (suiteVerdicts files suite).any (!·.ok) then 1 else 0)
        (tapText (suiteVerdicts files suite)) "" := by
  have hcode :
      (if (Fixture.report (suiteFixtures files suite) fun f ↦ f.failure? files).failures = 0
        then 0 else 1) = if (suiteVerdicts files suite).any (!·.ok) then 1 else 0 := by
    rw [failures_report]
    show (if (suiteVerdicts files suite).countP (!·.ok) = 0 then 0 else 1) = _
    rcases hany : (suiteVerdicts files suite).any (!·.ok) with - | -
    · rw [List.any_eq_false] at hany
      rw [if_pos (List.countP_eq_zero.2 hany)]
      rfl
    · obtain ⟨v, hv, hok⟩ := List.any_eq_true.1 hany
      rw [if_neg fun hzero ↦ List.countP_eq_zero.1 hzero v hv hok]
      rfl
  rw [run_of_loadSettings_eq_ok hrequest hsettings, Command.run, hsuite]
  show (do
    let report ← runSuite files suite
    return Outcome.mk (if report.failures = 0 then 0 else 1) report.text "" : Id Outcome) = _
  rw [runSuite_eq, pure_bind, text_report, hcode]
  rfl

/-- The names of the members of a suite, in order. -/
theorem map_fileName_suiteVerdicts (files : Files Id) (suite : String) :
    (suiteVerdicts files suite).map Verdict.fileName =
      ((suiteNames files suite).mergeSort fun a b ↦ decide (a ≤ b)).filter
        Fixture.isMemberName := by
  rw [← Fixture.map_stem_ofNames (joinPath suite "positive"), suiteVerdicts, Fixture.verdicts,
    List.map_map]
  rfl

/-- Each member has one verdict. -/
theorem perm_map_fileName_suiteVerdicts (files : Files Id) (suite : String) :
    ((suiteVerdicts files suite).map Verdict.fileName).Perm
      ((suiteNames files suite).filter Fixture.isMemberName) := by
  rw [map_fileName_suiteVerdicts]
  exact (List.mergeSort_perm _ _).filter _

/-- The verdicts stand in the order of the names of their members. -/
theorem pairwise_map_fileName_suiteVerdicts (files : Files Id) (suite : String) :
    ((suiteVerdicts files suite).map Verdict.fileName).Pairwise (· ≤ ·) := by
  have htrans : ∀ a b c : String, decide (a ≤ b) = true → decide (b ≤ c) = true →
      decide (a ≤ c) = true := fun a b c hab hbc ↦
    decide_eq_true (String.le_trans (of_decide_eq_true hab) (of_decide_eq_true hbc))
  have htotal : ∀ a b : String, (decide (a ≤ b) || decide (b ≤ a)) = true := fun a b ↦ by
    simpa using String.le_total a b
  have hsorted := List.pairwise_mergeSort htrans htotal (suiteNames files suite)
  rw [map_fileName_suiteVerdicts]
  exact (hsorted.imp of_decide_eq_true).filter _

/-- A report about one file has one verdict. -/
theorem Verdict.eq_singleton_of_perm {verdicts : List Verdict} {stem : String}
    (h : (verdicts.map fileName).Perm [stem ++ ".dspf"]) :
    ∃ ok comments, verdicts = [⟨stem, ok, comments⟩] := by
  rw [List.perm_singleton, List.map_eq_singleton_iff] at h
  obtain ⟨⟨stem', ok, comments⟩, rfl, hname⟩ := h
  obtain rfl : stem' = stem := (String.append_left_inj ".dspf").1 hname
  exact ⟨ok, comments, rfl⟩

/-- The verdict on a fixture is true. -/
theorem ok_iff_of_mem_suiteVerdicts {v : Verdict} (h : v ∈ suiteVerdicts files suite) :
    v.ok = true ↔ (Fixture.ofStem (joinPath suite "positive") v.stem).Passes files := by
  obtain ⟨f, hf, rfl⟩ := List.mem_map.1 h
  show (f.failure? files).isNone = true ↔ (Fixture.ofStem _ f.stem).Passes files
  rw [← Fixture.eq_ofStem_of_mem_ofNames hf, ← Fixture.failure?_eq_none_iff]
  exact Option.isNone_iff_eq_none

/-- **A run of a suite reports one verdict for each member in its folder, in the order of their
names, and each verdict is true.** The totals add up, and the exit code says whether all fixtures
have passed. -/
theorem run_test_reports
    (hrequest : Request.ofArguments arguments = .ok (.run options (.test suite)))
    (hsettings : loadSettings files options.config = Except.ok settings)
    (hsuite : files.kind? suite = some .folder) :
    ∃ verdicts : List Verdict,
      (verdicts.map Verdict.fileName).Perm
          ((suiteNames files suite).filter Fixture.isMemberName) ∧
        (verdicts.map Verdict.fileName).Pairwise (· ≤ ·) ∧
        (∀ v ∈ verdicts,
          (v.ok = true ↔
            (Fixture.ofStem (joinPath suite "positive") v.stem).Passes files) ∧
          (v.ok = true → v.comments = []) ∧
          ∀ comment ∈ v.comments, '\n' ∉ comment.toList) ∧
        (run files arguments : Outcome).stdout = tapText verdicts ∧
        verdicts.countP (·.ok) + verdicts.countP (!·.ok) = verdicts.length ∧
        (run files arguments : Outcome).code = if verdicts.any (!·.ok) then 1 else 0 := by
  have hrun := run_test hrequest hsettings hsuite
  have hcount := List.length_eq_countP_add_countP (·.ok) (l := suiteVerdicts files suite)
  simp only [Bool.not_eq_true, Bool.decide_eq_false] at hcount
  refine ⟨suiteVerdicts files suite, perm_map_fileName_suiteVerdicts files suite,
    pairwise_map_fileName_suiteVerdicts files suite, fun v hv ↦ ?_, by rw [hrun], hcount.symm,
    by rw [hrun]⟩
  refine ⟨ok_iff_of_mem_suiteVerdicts hv, ?_⟩
  obtain ⟨f, -, rfl⟩ := List.mem_map.1 hv
  exact Verdict.comments_ofFailure f.stem _

/-- A suite with a member beside which no expected value lies, and a file that is no member. -/
theorem run_test_reports_unrecorded :
    let files := FileTree.files
      ⟨[(["suite", "positive", "MENU.dspf"], some "".toUTF8),
        (["suite", "positive", "NOTES.txt"], some "".toUTF8)]⟩
    (Request.ofArguments ["test", "suite"] = .ok (.run {} (.test "suite")) ∧
        loadSettings files none = Except.ok {} ∧ files.kind? "suite" = some .folder) ∧
      (∃ comments, (run files ["test", "suite"] : Outcome).stdout =
        tapText [⟨"MENU", false, comments⟩]) ∧
      (run files ["test", "suite"] : Outcome).code = 1 := by
  intro files
  have hrequest : Request.ofArguments ["test", "suite"] = .ok (.run {} (.test "suite")) := by
    decide +kernel
  have hsettings : loadSettings files none = Except.ok {} := by
    show (_ : Except String Settings) = _
    decide +kernel
  have hsuite : (files.kind? "suite" : Option FileKind) = some .folder := by
    show (_ : Option FileKind) = _
    decide +kernel
  have hnames : (suiteNames files "suite").filter Fixture.isMemberName = ["MENU" ++ ".dspf"] := by
    decide +kernel
  have hmissing : (files.kind? (Fixture.ofStem (joinPath "suite" "positive") "MENU").expected :
      Option FileKind) = none := by
    show (_ : Option FileKind) = _
    decide +kernel
  obtain ⟨verdicts, hperm, -, hverdicts, hstdout, -, hcode⟩ :=
    run_test_reports hrequest hsettings hsuite
  rw [hnames] at hperm
  obtain ⟨ok, comments, rfl⟩ := Verdict.eq_singleton_of_perm hperm
  obtain ⟨hok, -, -⟩ := hverdicts _ (List.mem_singleton_self _)
  obtain rfl : ok = false := by
    rw [← Bool.not_eq_true]
    intro htrue
    have hpasses : (Fixture.ofStem (joinPath "suite" "positive") "MENU").Passes files :=
      hok.1 htrue
    obtain ⟨⟨kind, hkind⟩, -⟩ := hpasses
    cases hmissing.symm.trans hkind
  exact ⟨⟨hrequest, hsettings, hsuite⟩, ⟨comments, hstdout⟩, hcode⟩

end DisplayFile

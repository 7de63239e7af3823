import DisplayFile.Proofs.Command.Outcomes
import DisplayFile.Proofs.Command.Running
import DisplayFile.Proofs.Member.Chain
import DisplayFile.Proofs.Member.Ranges

/-!
# Answers and failures

A question about a member is answered or it fails, and never both. An answer is a text on the
standard output and code 0; a failure is a report on the standard error, unless it is quiet, and
code 1 (`run_answers_or_fails`). Where output is in JSON, a report is an object that says what went
wrong under the key `error`.

**There are four stages at which a question can fail.** The settings cannot be loaded, the member
cannot be read, what is asked for is not in the member, or the window that goes with it is borrowed
in vain. Each command is settled at the last two stages by what it asks of the member
(`Command.Unanswerable`), and the first two are the same for all.
-/

namespace DisplayFile

/-! ### What is asked of a member -/

/-- The member that a question is about. -/
def Command.member? : Command → Option String
  | .parse file | .formats file | .display file _ _ | .locate file _ => some file
  | .test _ => none

/-- The question has no answer in a member with so many lines: no format has the name, or it is that
of a window that is borrowed in vain, or the line is not one of the member. -/
def Command.Unanswerable (m : Member) (lines : Nat) : Command → Prop
  | .display _ name _ =>
    (∀ f ∈ m.formats, f.name ≠ name) ∨
      ∃ f, m.format? name = some f ∧ f.isWindow = true ∧ (m.Dangles f ∨ m.Cycles f)
  | .locate _ line => line = 0 ∨ lines < line
  | _ => False

section Display

variable {m : Member} {name : String}

theorem Member.format?_eq_none_iff : m.format? name = none ↔ ∀ f ∈ m.formats, f.name ≠ name := by
  rw [format?, List.find?_eq_none]
  simp only [decide_eq_true_eq, ne_eq]

/-- The window of a format fails exactly when the format is one that borrows in vain. -/
theorem Member.exists_windowOf_eq_error_iff {f : RecordFormat} (hf : m.format? name = some f) :
    (∃ e, m.windowOf f name = .error e) ↔ f.isWindow = true ∧ (m.Dangles f ∨ m.Cycles f) := by
  have hwindow : m.window name = m.borrowedWindow name m.formats.length f := by
    rw [window, format, hf]
    rfl
  rw [← exists_borrowedWindow_eq_error_iff name (mem_of_format? hf), ← hwindow, windowOf]
  rcases f.isWindow with - | -
  · simp
  · rcases m.window name with e | w
    all_goals simp [Except.map]

/-- A format cannot be drawn exactly when it is not there or borrows its window in vain, whatever
indicators are on. -/
theorem Member.exists_shownText_eq_error_iff (s : Indicators) (form : OutputForm) :
    (∃ e, m.shownText name s form = .error e) ↔
      (∀ f ∈ m.formats, f.name ≠ name) ∨
        ∃ f, m.format? name = some f ∧ f.isWindow = true ∧ (m.Dangles f ∨ m.Cycles f) := by
  rw [← format?_eq_none_iff]
  rcases hf : m.format? name with - | f
  · have hshown : m.shownText name s form = .error (.formatNotFound name) := by
      rw [shownText, format, hf]
      rfl
    simp [hshown]
  · have hwindow : (∃ e, m.shownText name s form = .error e) ↔
        ∃ e, m.windowOf f name = .error e := by
      rcases hresult : m.windowOf f name with e | window
      all_goals simp [shownText, format, hf, hresult, bind, Except.bind, pure, Except.pure]
    rw [hwindow, exists_windowOf_eq_error_iff hf]
    simp

end Display

/-- A member has at least one format to list. -/
theorem Member.formatsText_ne_empty (texts : List String) (form : OutputForm) :
    (Member.ofLines texts).formatsText form ≠ "" := by
  rcases form with - | -
  · rcases hformats : (Member.ofLines texts).formats with - | ⟨f, formats⟩
    · have hlength := length_formats_ofLines texts
      rw [hformats] at hlength
      cases hlength
    · intro h
      rw [formatsText, hformats, ← String.toList_inj] at h
      simp at h
  · exact append_newline_ne_empty _

/-! ### Running a question -/

section Running

variable {files : Files Id} {path : String} {bytes : ByteArray} {command : Command}

/-- **A command with a member is settled by what it asks of the member.** -/
theorem settles_run (hmember : command.member? = some path) (hread : files.read path = .ok bytes)
    (settings : Settings) (form : OutputForm) (quiet : Bool) :
    Outcome.Settles
      (command.Unanswerable (Member.ofBytes bytes)
        (Text.lines (Text.Utf8.decodeLossy bytes)).length)
      form quiet (command.run files settings form quiet) := by
  rcases command with file | file | ⟨file, name, on⟩ | ⟨file, line⟩ | suite
  · obtain rfl := Option.some.inj hmember
    rw [Command.run, outcome_readMember_of_eq_ok hread]
    exact .inr ⟨id, Outcome.answers_line _⟩
  · obtain rfl := Option.some.inj hmember
    rw [Command.run, outcome_readMember_of_eq_ok hread]
    exact .inr ⟨id, _, Member.formatsText_ne_empty _ form, rfl⟩
  · obtain rfl := Option.some.inj hmember
    rw [Command.run, outcome_readMember_of_eq_ok hread, Command.Unanswerable,
      ← Member.exists_shownText_eq_error_iff (settings.indicatorsWith on) form]
    split
    · next text hshown => exact .inr ⟨by simp [hshown], Outcome.answers_line text⟩
    · next e hshown => exact .inl ⟨⟨e, hshown⟩, .unanswered e⟩
  · obtain rfl := Option.some.inj hmember
    rw [Command.run, outcome_readMember_of_eq_ok hread, Command.Unanswerable,
      ← Member.locate?_ofLines_eq_none_iff]
    split
    · next name hname =>
      exact .inr ⟨fun hnone ↦ Option.some_ne_none name (hname.symm.trans hnone),
        Outcome.answers_line _⟩
    · next hnone => exact .inl ⟨hnone, .failed _⟩
  · cases hmember

/-- A member that cannot be read is reported. -/
theorem reports_run_of_eq_error (hmember : command.member? = some path) {e : FileError}
    (hread : files.read path = .error e) (settings : Settings) (form : OutputForm) (quiet : Bool) :
    Outcome.Reports form quiet (command.run files settings form quiet) := by
  rcases command with file | file | ⟨file, name, on⟩ | ⟨file, line⟩ | suite
  case test => cases hmember
  all_goals
    obtain rfl := Option.some.inj hmember
    rw [Command.run, outcome_readMember_of_eq_error hread]
    exact .unanswered _

/-- The command fails: the settings cannot be loaded, the member cannot be read, or it has no
answer. -/
def Command.Fails (files : Files Id) (config : Option String) (path : String)
    (command : Command) : Prop :=
  (∃ message, loadSettings files config = Except.error message) ∨
    (∃ e, files.read path = .error e) ∨
    ∃ bytes, files.read path = .ok bytes ∧
      command.Unanswerable (Member.ofBytes bytes)
        (Text.lines (Text.Utf8.decodeLossy bytes)).length

/-- With settings and a member only the question can go wrong. -/
theorem Command.fails_iff {config : Option String} {settings : Settings}
    (hsettings : loadSettings files config = Except.ok settings)
    (hread : files.read path = .ok bytes) :
    command.Fails files config path ↔
      command.Unanswerable (Member.ofBytes bytes)
        (Text.lines (Text.Utf8.decodeLossy bytes)).length := by
  constructor
  · rintro (⟨message, hmessage⟩ | ⟨e, he⟩ | ⟨bytes', hbytes', h⟩)
    · cases hsettings.symm.trans hmessage
    · cases hread.symm.trans he
    · obtain rfl : bytes = bytes' := Except.ok.inj (hread.symm.trans hbytes')
      exact h
  · intro h
    exact .inr (.inr ⟨bytes, hread, h⟩)

/-- Output is in JSON: by the options, or else by settings that have been loaded. -/
def InJson (files : Files Id) (options : Options) : Prop :=
  options.output = some .json ∨
    options.output = none ∧ ∃ settings, loadSettings files options.config = Except.ok settings ∧
      settings.output = some .json

variable {arguments : List String} {options : Options}

/-- A command line with a question is settled by whether it fails. -/
theorem exists_settles (files : Files Id)
    (hrequest : Request.ofArguments arguments = .ok (.run options command))
    (hmember : command.member? = some path) :
    ∃ form, (InJson files options → form = .json) ∧
      Outcome.Settles (command.Fails files options.config path) form options.quiet
        (run files arguments) := by
  rcases hsettings : loadSettings files options.config with message | settings
  · rw [run_of_loadSettings_eq_error hrequest hsettings]
    refine ⟨options.output.getD .text, ?_, .inl ⟨.inl ⟨message, hsettings⟩, .failed message⟩⟩
    rintro (hflag | ⟨-, settings, hloaded, -⟩)
    · rw [hflag, Option.getD_some]
    · cases hsettings.symm.trans hloaded
  · rw [run_of_loadSettings_eq_ok hrequest hsettings]
    refine ⟨(options.output.or settings.output).getD .text, ?_, ?_⟩
    · rintro (hflag | ⟨hflag, settings', hloaded, hjson⟩)
      · rw [hflag, Option.some_or, Option.getD_some]
      · obtain rfl : settings = settings' := Except.ok.inj (hsettings.symm.trans hloaded)
        rw [hflag, hjson, Option.none_or, Option.getD_some]
    · rcases hread : files.read path with e | bytes
      · exact .inl ⟨.inr (.inl ⟨e, hread⟩), reports_run_of_eq_error hmember hread _ _ _⟩
      · rw [Outcome.Settles, Command.fails_iff hsettings hread]
        exact settles_run hmember hread _ _ _

/-- **A question is answered or fails, and never both.** It fails for the reasons there are, in
silence only when that is asked for, and in JSON with an object that names the error. -/
theorem run_answers_or_fails (files : Files Id)
    (hrequest : Request.ofArguments arguments = .ok (.run options command))
    (hmember : command.member? = some path) :
    let o : Outcome := run files arguments
    (o.code = 0 ∨ o.code = 1) ∧
      (o.code = 0 → o.stdout ≠ "" ∧ o.stderr = "") ∧
      (o.code = 1 → o.stdout = "" ∧ (o.stderr = "" ↔ options.quiet = true)) ∧
      (o.code = 1 ↔ command.Fails files options.config path) ∧
      (InJson files options → o.stderr ≠ "" →
        ∃ members s, Json.read o.stderr = .ok (.object members) ∧
          Json.find? "error" members = some (.string s)) := by
  obtain ⟨form, hform, hsettles⟩ := exists_settles files hrequest hmember
  intro o
  rcases hsettles with ⟨hfails, hreports⟩ | ⟨hfails, text, htext, hanswer⟩
  · have hcode : o.code = 1 := hreports.code_eq
    refine ⟨.inr hcode, fun hzero ↦ ?_, fun _ ↦ ⟨hreports.stdout_eq, hreports.stderr_eq_empty_iff⟩,
      iff_of_true hcode hfails, fun hjson hstderr ↦ ?_⟩
    · rw [hcode] at hzero
      cases hzero
    · obtain rfl := hform hjson
      exact hreports.read_stderr hstderr
  · have ho : o = .answer text := hanswer
    have hcode : o.code ≠ 1 := by
      rw [ho]
      exact Nat.zero_ne_one
    rw [ho] at hcode ⊢
    exact ⟨.inl rfl, fun _ ↦ ⟨htext, rfl⟩, fun hone ↦ absurd hone hcode,
      iff_of_false hcode hfails, fun _ hstderr ↦ absurd rfl hstderr⟩

/-- A format that is asked for, with output in JSON, in a member that does not have it. -/
theorem run_answers_or_fails_absent :
    let files := FileTree.files ⟨[(["MENU.dspf"], some "                R MENU\n".toUTF8)]⟩
    let arguments := ["show", "MENU.dspf", "OTHER", "--output", "json"]
    let o : Outcome := run files arguments
    (Request.ofArguments arguments =
          .ok (.run { output := some .json } (.display "MENU.dspf" "OTHER" [])) ∧
        (Command.display "MENU.dspf" "OTHER" []).member? = some "MENU.dspf" ∧ o.stderr ≠ "") ∧
      o.code = 1 ∧ o.stdout = "" ∧
      ∃ members s, Json.read o.stderr = .ok (.object members) ∧
        Json.find? "error" members = some (.string s) := by
  intro files arguments o
  have hrequest : Request.ofArguments arguments =
      .ok (.run { output := some .json } (.display "MENU.dspf" "OTHER" [])) := by
    decide +kernel
  have hmember : (Command.display "MENU.dspf" "OTHER" []).member? = some "MENU.dspf" := rfl
  have hread : files.read "MENU.dspf" = Except.ok "                R MENU\n".toUTF8 := rfl
  have habsent : ∀ f ∈ (Member.ofBytes "                R MENU\n".toUTF8).formats,
      f.name ≠ "OTHER" := by
    decide +kernel
  obtain ⟨-, -, hfailure, hcode, hjson⟩ := run_answers_or_fails files hrequest hmember
  have hone : o.code = 1 := hcode.2 (.inr (.inr ⟨_, hread, .inl habsent⟩))
  obtain ⟨hstdout, hquiet⟩ := hfailure hone
  have hstderr : o.stderr ≠ "" := fun h ↦ absurd (hquiet.1 h) (by decide)
  exact ⟨⟨hrequest, hmember, hstderr⟩, hone, hstdout, hjson (.inl rfl) hstderr⟩

end Running

end DisplayFile

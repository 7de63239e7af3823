import DisplayFile.Command.Run

/-!
# Running without effects

Where a file is read and settings are loaded without effects, every step of a run is an equation:
reading a member is reading its file (`readMember_of_eq_pure`), and running a command line is
running its command with the settings that have been loaded (`run_of_loadSettings_eq_pure`). With
the answers of a plain function for files this holds of all steps.
-/

namespace DisplayFile

section

variable {m : Type → Type} [Monad m] [LawfulMonad m] {files : Files m}

/-- Where reading the file of a member gives bytes, in whatever monad, the member is read. -/
theorem readMember_of_eq_pure {path : String} {bytes : ByteArray}
    (h : files.read path = pure (.ok bytes)) :
    readMember files path = pure (.ok (Member.ofBytes bytes)) := by
  rw [readMember, h, pure_bind]

/-- Once settings are loaded, in whatever monad, a command line runs its command. Its own flag for
the form of the output goes before the settings. -/
theorem run_of_loadSettings_eq_pure {arguments : List String} {options : Options}
    {command : Command} {settings : Settings}
    (hrequest : Request.ofArguments arguments = .ok (.run options command))
    (hsettings : loadSettings files options.config = pure (.ok settings)) :
    run files arguments =
      command.run files settings ((options.output.or settings.output).getD .text)
        options.quiet := by
  rw [run, hrequest]
  show options.run files command = _
  rw [Options.run, hsettings, pure_bind]

end

variable {files : Files Id}

/-- A file that cannot be read is a member that cannot be read, for the same reason. -/
theorem readMember_of_eq_error {path : String} {e : FileError} (h : files.read path = .error e) :
    readMember files path = Except.error (.unreadable path e.message) := by
  rw [readMember, h]
  rfl

theorem readMember_of_eq_ok {path : String} {bytes : ByteArray}
    (h : files.read path = .ok bytes) :
    readMember files path = Except.ok (Member.ofBytes bytes) :=
  readMember_of_eq_pure h

/-- A member that is read is that of the bytes of its file. -/
theorem readMember_eq_ok_iff {path : String} {m : Member} :
    readMember files path = Except.ok m ↔
      ∃ bytes, files.read path = .ok bytes ∧ Member.ofBytes bytes = m := by
  constructor
  · intro h
    rcases hread : files.read path with e | bytes
    · rw [readMember_of_eq_error hread] at h
      cases h
    · rw [readMember_of_eq_ok hread] at h
      exact ⟨bytes, rfl, Except.ok.inj h⟩
  · rintro ⟨bytes, hread, rfl⟩
    exact readMember_of_eq_ok hread

/-- A question about a member that can be read gets the answer that the member gives. -/
theorem outcome_readMember_of_eq_ok {path : String} {bytes : ByteArray}
    (h : files.read path = .ok bytes) (form : OutputForm) (quiet : Bool)
    (answer : Member → Outcome) :
    (do return Member.outcome (← readMember files path) form quiet answer : Id Outcome) =
      answer (Member.ofBytes bytes) := by
  rw [readMember_of_eq_ok h]
  rfl

/-- A question about a member that cannot be read is not answered, whatever it is. -/
theorem outcome_readMember_of_eq_error {path : String} {e : FileError}
    (h : files.read path = .error e) (form : OutputForm) (quiet : Bool)
    (answer : Member → Outcome) :
    (do return Member.outcome (← readMember files path) form quiet answer : Id Outcome) =
      Outcome.unanswered form quiet (.unreadable path e.message) := by
  rw [readMember_of_eq_error h]
  rfl

/-- Text is read exactly where there are bytes and they are valid UTF-8. -/
theorem textOfBytes_eq_ok_iff {bytes : Except FileError ByteArray} {source : String} :
    textOfBytes bytes = .ok source ↔
      ∃ b, bytes = .ok b ∧ Text.Utf8.decode? b = some source := by
  rcases bytes with e | b
  · simp [textOfBytes]
  · rcases hdecode : Text.Utf8.decode? b with - | text
    all_goals simp [textOfBytes, hdecode]

variable {arguments : List String} {options : Options} {command : Command}

/-- Settings that cannot be loaded are reported, whatever the command is. -/
theorem run_of_loadSettings_eq_error {message : String}
    (hrequest : Request.ofArguments arguments = .ok (.run options command))
    (hsettings : loadSettings files options.config = Except.error message) :
    run files arguments = Outcome.failed (options.output.getD .text) options.quiet message := by
  rw [run, hrequest]
  show options.run files command = _
  rw [Options.run, hsettings]
  rfl

theorem run_of_loadSettings_eq_ok {settings : Settings}
    (hrequest : Request.ofArguments arguments = .ok (.run options command))
    (hsettings : loadSettings files options.config = Except.ok settings) :
    run files arguments =
      command.run files settings ((options.output.or settings.output).getD .text)
        options.quiet :=
  run_of_loadSettings_eq_pure hrequest hsettings

end DisplayFile

import DisplayFile.Command.Run
import DisplayFile.Proofs.Json.RoundTrip

/-!
# What an outcome says

A reader of an outcome has two texts and a code, and no more. So what an outcome says is put here in
terms of these: an answer is a text on the standard output and code 0, a failure is a report on the
standard error and code 1, and what is in JSON is known by what is read back from it.

**A line is located in words or in JSON** (`Outcome.Locates`). In words the answer is the name of a
format and the end of the line; in JSON it is an object with the name and the line. The object is
read back because its number is one of 64 bits, which every line on a command line is.

**A failure is reported in words, in JSON or not at all** (`Outcome.Refuses`), and it is the option
`--quiet` that decides about the last.
-/

namespace DisplayFile

/-- A text with an end of line is not empty. -/
theorem append_newline_ne_empty (text : String) : text ++ "\n" ≠ "" := by
  intro h
  have hempty : text.toList ++ ['\n'] = [] := by
    rw [← String.toList_inj, String.toList_append] at h
    exact h
  exact List.append_ne_nil_of_right_ne_nil _ (List.cons_ne_nil _ _) hempty

namespace Outcome

/-! ### Answers -/

/-- The outcome is an answer, and it is not empty. -/
def Answers (o : Outcome) : Prop := ∃ text, text ≠ "" ∧ o = .answer text

/-- A line is an answer, also an empty one. -/
theorem answers_line (text : String) : (answer (text ++ "\n")).Answers :=
  ⟨_, append_newline_ne_empty text, rfl⟩

/-- The outcome says that a line belongs to the format with the name. -/
structure Locates (form : OutputForm) (line : Nat) (name : String) (o : Outcome) : Prop where
  code : o.code = 0
  stderr : o.stderr = ""
  text : form = .text → o.stdout = name ++ "\n"
  json : form = .json →
    Json.read o.stdout = .ok (.object [("format", .string name), ("line", Json.ofNat line)])

/-- **The answer to where a line belongs says so**, in JSON as well, since the line is a number that
is read back. -/
theorem locates_answer {line : Nat} (hline : line < UInt64.size) (form : OutputForm)
    (name : String) :
    (answer (Member.locatedText line name form ++ "\n")).Locates form line name where
  code := rfl
  stderr := rfl
  text := by
    rintro rfl
    rfl
  json := by
    rintro rfl
    have hplain : Json.Plain UInt64.size Json.nestingLimit
        (.object [("format", .string name), ("line", Json.ofNat line)]) := by
      refine .ofMembers ["format", "line"] (by decide) rfl ?_
      simp only [List.forall_mem_cons]
      exact ⟨.string _, .ofNat hline, List.forall_mem_nil _⟩
    exact Json.read_line Json.Layout.lawful_compact hplain

/-! ### Failures -/

variable {form : OutputForm} {quiet : Bool} {o : Outcome}

/-- The outcome says that something failed, and why, unless it is quiet. -/
structure Refuses (form : OutputForm) (quiet : Bool) (message : String) (o : Outcome) : Prop where
  code : o.code = 1
  stdout : o.stdout = ""
  silent : quiet = true → o.stderr = ""
  text : quiet = false → form = .text → o.stderr = message ++ "\n"
  json : quiet = false → form = .json →
    Json.read o.stderr = .ok (.object [("error", .string message)])

/-- A failure of the program says what its message does. -/
theorem refuses_failed (form : OutputForm) (quiet : Bool) (message : String) :
    (failed form quiet message).Refuses form quiet message where
  code := rfl
  stdout := rfl
  silent := by
    rintro rfl
    rfl
  text := by
    rintro rfl rfl
    rfl
  json := by
    rintro rfl rfl
    have hplain : Json.Plain UInt64.size Json.nestingLimit
        (.object [("error", .string message)]) := by
      refine .ofMembers ["error"] (by decide) rfl ?_
      simp only [List.forall_mem_cons]
      exact ⟨.string _, List.forall_mem_nil _⟩
    exact Json.read_line Json.Layout.lawful_compact hplain

/-- The outcome is the report of a failure. -/
inductive Reports (form : OutputForm) (quiet : Bool) : Outcome → Prop where
  | failed (message : String) : Reports form quiet (.failed form quiet message)
  | unanswered (e : Failure) : Reports form quiet (.unanswered form quiet e)

/-- A report is a failure, whether it is a sentence or says the kind of failure. -/
theorem Reports.exists_report (h : o.Reports form quiet) :
    ∃ report, o = .failure quiet report := by
  rcases h with message | e
  · exact ⟨_, rfl⟩
  · exact ⟨_, rfl⟩

theorem Reports.code_eq (h : o.Reports form quiet) : o.code = 1 := by
  obtain ⟨report, rfl⟩ := h.exists_report
  rfl

theorem Reports.stdout_eq (h : o.Reports form quiet) : o.stdout = "" := by
  obtain ⟨report, rfl⟩ := h.exists_report
  rfl

/-- Nothing is reported only when quiet. -/
theorem Reports.stderr_eq_empty_iff (h : o.Reports form quiet) : o.stderr = "" ↔ quiet = true := by
  obtain ⟨report, rfl⟩ := h.exists_report
  rcases quiet with - | -
  · have hstderr : (failure false report).stderr ≠ "" := append_newline_ne_empty report
    exact iff_of_false hstderr Bool.false_ne_true
  · exact ⟨fun _ ↦ rfl, fun _ ↦ rfl⟩

/-- **A report in JSON is an object with the error.** -/
theorem Reports.read_stderr (h : o.Reports .json quiet) (hstderr : o.stderr ≠ "") :
    ∃ members s, Json.read o.stderr = .ok (.object members) ∧
      Json.find? "error" members = some (.string s) := by
  have hquiet : quiet = false := by
    rw [← Bool.not_eq_true, ← h.stderr_eq_empty_iff]
    exact hstderr
  subst hquiet
  rcases h with message | e
  · exact ⟨_, message, (refuses_failed .json false message).json rfl rfl, by simp⟩
  · have hplain : Json.Plain UInt64.size Json.nestingLimit e.toJson := by
      refine .ofMembers ["error", "message"] (by decide) rfl ?_
      simp only [List.forall_mem_cons]
      exact ⟨.string _, .string _, List.forall_mem_nil _⟩
    exact ⟨_, e.kind, Json.read_line Json.Layout.lawful_pretty hplain, by simp⟩

/-- The outcome reports a failure where there is a reason for one, and is an answer otherwise. -/
def Settles (reason : Prop) (form : OutputForm) (quiet : Bool) (o : Outcome) : Prop :=
  (reason ∧ o.Reports form quiet) ∨ (¬reason ∧ o.Answers)

end Outcome

end DisplayFile

import DisplayFile.Command.Request
import DisplayFile.Proofs.Text.Decimal

/-!
# Indicators and lines on the command line

A command line switches indicators on with `--on`, which can be given any number of times, and asks
for a line with `--line`. The value of a flag is refused when it is no indicator that can be
switched, or no number of 64 bits. So on every command line that is read to its end only such
indicators are on, and every one of them can be (`Request.canSwitchOn_iff`), and the line that is
asked for is a number of 64 bits (`Request.line_lt_of_ofArguments`).

What is given stays within these limits from one argument to the next (`Given.WithinLimits`,
`CommandLine.goes_read`), and a command is made of what is given (`CommandLine.toCommand_cases`).
-/

namespace DisplayFile

/-! ### What is given -/

namespace Given

/-- Only indicators that can be switched are given, and no line but a number of 64 bits. -/
structure WithinLimits (g : Given) : Prop where
  on : ∀ n ∈ g.on, isSwitch n = true
  line : ∀ n ∈ g.line, n < UInt64.size

/-- Where nothing is given, the limits are kept. -/
theorem withinLimits_nothing : WithinLimits {} :=
  ⟨fun n hn ↦ absurd hn (Array.not_mem_empty n), fun _ hn ↦ nomatch hn⟩

variable {g g' : Given} {flag : Flag} {text : String}

/-- A flag without a value concerns neither indicators nor lines. -/
theorem WithinLimits.switch (hg : g.WithinLimits) (h : g.switch flag = some (.ok g')) :
    g'.WithinLimits := by
  cases flag <;> simp only [Given.switch, Option.some.injEq, reduceCtorEq] at h
  all_goals
    split at h
    · cases h
    · cases h
      exact ⟨hg.on, hg.line⟩

/-- The value of a flag is checked before it is given. -/
theorem WithinLimits.value (hg : g.WithinLimits) (h : g.value flag text = .ok g') :
    g'.WithinLimits := by
  cases flag with
  | on =>
    rw [Given.value] at h
    split at h
    · cases h
    · rename_i n hn
      cases h
      refine ⟨fun m hm ↦ ?_, hg.line⟩
      rcases Array.mem_push.1 hm with hold | rfl
      · exact hg.on m hold
      · exact (Option.filter_eq_some_iff.1 hn).2
  | line =>
    rw [Given.value] at h
    split at h
    · cases h
    · rename_i n hn
      split at h <;> cases h
      obtain ⟨-, -, -, hlt⟩ := Text.Numeral.below?_eq_some_iff.1 hn
      exact ⟨hg.on, fun m hm ↦ Option.some.inj hm ▸ hlt⟩
  | quiet => cases h
  | verbose => cases h
  | output | config =>
    rw [Given.value] at h
    split at h
    · cases h
    · split at h <;> cases h
      exact ⟨hg.on, hg.line⟩

end Given

/-! ### Reading a command line -/

/-- The numeral of an indicator. -/
def switchText (n : UInt8) : String := String.ofList (Text.Numeral.digits n.toNat)

namespace CommandLine

variable {l : CommandLine}

/-- Where reading goes on, what is given is within the limits, and where it stops, no command is
asked for. -/
def Goes : Except Stop CommandLine → Prop
  | .ok l => l.given.WithinLimits
  | .error (.usage _) => True
  | .error (.request r) => r = .help ∨ r = .version

theorem goes_refuse (e : UsageError) : Goes (refuse e) := trivial

theorem goes_short (text : String) (letter : Char) : Goes (l.short text letter) := by
  rw [short]
  split
  · exact .inl rfl
  · split
    · exact .inr rfl
    · exact goes_refuse _

section

variable (hl : l.given.WithinLimits)
include hl

theorem goes_value (flag : Flag) (text : String) :
    Goes (l.withGiven (l.given.value flag text)) := by
  rcases hvalue : l.given.value flag text with e | given
  · exact goes_refuse e
  · exact hl.value hvalue

theorem goes_argument (text : String) : Goes (l.argument text) := by
  rw [argument]
  split
  · exact goes_refuse _
  · split
    · exact goes_refuse _
    · split
      · exact goes_refuse _
      · exact ⟨hl.on, hl.line⟩

theorem goes_commandName (text : String) : Goes (l.commandName text) := by
  rw [commandName]
  split
  · -- nothing is given yet behind the name of the command
    exact Given.withinLimits_nothing
  · split
    · exact hl
    · exact goes_refuse _

theorem goes_long (name : String) (attached : Option String) : Goes (l.long name attached) := by
  rw [long]
  split
  · split
    · exact goes_refuse _
    · exact .inl rfl
  · split
    · split
      · exact goes_refuse _
      · exact .inr rfl
    · split
      · exact goes_refuse _
      · rename_i flag hflag
        rcases hswitch : l.given.switch flag with - | given
        · rcases attached with - | text
          · exact hl
          · exact goes_value hl flag text
        · rcases attached with - | text
          · rcases given with e | given
            · exact goes_refuse e
            · exact hl.switch hswitch
          · exact goes_refuse _

/-- One argument keeps the limits, whatever it is read as. -/
theorem goes_read (text : String) : Goes (l.read text) := by
  rw [read]
  split
  · split
    · exact goes_refuse _
    · exact hl
  · split
    · exact goes_refuse _
    · exact goes_value hl _ text
  · split
    · exact goes_argument hl text
    · split
      · exact hl
      · exact goes_long hl _ _
      · exact goes_short text _
      · split
        · exact goes_argument hl text
        · exact goes_commandName hl text

end

/-- All arguments, one after the other, keep the limits. -/
theorem goes_foldlM_read (hl : l.given.WithinLimits) (arguments : List String) :
    Goes (arguments.foldlM read l) := by
  induction arguments generalizing l with
  | nil => exact hl
  | cons text arguments ih =>
    have hstep := goes_read hl text
    rw [List.foldlM_cons]
    rcases hread : l.read text with stop | next
    · rw [hread] at hstep
      exact hstep
    · rw [hread] at hstep
      exact ih hstep

/-- An indicator that can be switched is a value of `--on`. -/
theorem read_switchText {n : UInt8} (htopics : l.helpTopics = none)
    (hpending : l.pending = some .on) (h : isSwitch n = true) :
    l.read (switchText n) =
      .ok { l with given := { l.given with on := l.given.on.push n }, pending := none } := by
  have hdash : (Text.Numeral.digits n.toNat).head? ≠ some '-' := by
    intro hhead
    have hdigit := Text.Numeral.isDigit_of_mem_digits (List.mem_of_head? hhead)
    exact absurd hdigit (by decide)
  have hbyte : Text.Numeral.byte? (Text.Numeral.digits n.toNat) = some n := by
    rw [Text.Numeral.byte?, Text.Numeral.below?_digits n.toNat_lt, Option.map_some,
      UInt8.ofNat_toNat]
  have hvalue : l.given.value .on (switchText n) =
      .ok { l.given with on := l.given.on.push n } := by
    rw [Given.value, switchText, String.toList_ofList, hbyte, Option.filter_some, if_pos h]
  rw [read, htopics, hpending]
  dsimp only
  rw [switchText, String.toList_ofList, if_neg fun hflag ↦ hdash hflag.1, ← switchText, hvalue,
    withGiven, htopics]

/-- A command is made of what is given: the indicators of a format that is to be drawn, and the
number of a line. -/
theorem toCommand_cases {name : CommandName} {command : Command}
    (h : l.toCommand name = .ok command) :
    (∃ file, command = .parse file) ∨ (∃ file, command = .formats file) ∨
      (∃ file format, command = .display file format l.given.on.toList) ∨
      (∃ file line, l.given.line = some line ∧ command = .locate file line) ∨
      ∃ suite, command = .test suite := by
  cases name with
  | parse =>
    rw [toCommand] at h
    rcases hfile : l.required 0 "FILE" with e | file <;> rw [hfile] at h <;> cases h
    exact .inl ⟨file, rfl⟩
  | formats =>
    rw [toCommand] at h
    rcases hfile : l.required 0 "FILE" with e | file <;> rw [hfile] at h <;> cases h
    exact .inr (.inl ⟨file, rfl⟩)
  | display =>
    rw [toCommand] at h
    rcases hfile : l.required 0 "FILE" with e | file
    · rw [hfile] at h
      cases h
    · rcases hformat : l.required 1 "FORMAT" with e | format <;> rw [hfile, hformat] at h <;>
        cases h
      exact .inr (.inr (.inl ⟨file, format, rfl⟩))
  | locate =>
    rw [toCommand] at h
    rcases hfile : l.required 0 "FILE" with e | file
    · rw [hfile] at h
      cases h
    · rcases hline : l.given.line with - | line <;> rw [hfile, hline] at h <;> cases h
      exact .inr (.inr (.inr (.inl ⟨file, line, rfl, rfl⟩)))
  | test =>
    cases h
    exact .inr (.inr (.inr (.inr ⟨_, rfl⟩)))

/-- A command line that is read to its end and asks for a command has the name of one. -/
theorem exists_toCommand_of_finish {options : Options} {command : Command}
    (h : l.finish = .ok (.run options command)) : ∃ name, l.toCommand name = .ok command := by
  rw [finish] at h
  split at h
  · cases h
  · cases h
  · cases h
  · rename_i name _ _ _
    rcases hcommand : l.toCommand name with e | command'
    · rw [hcommand] at h
      cases h
    · rw [hcommand] at h
      cases h
      exact ⟨name, hcommand⟩

end CommandLine

/-! ### Requests -/

namespace Request

/-- Some command line asks for a format to be drawn while the indicator is on. -/
def CanSwitchOn (n : UInt8) : Prop :=
  ∃ arguments options file format on,
    ofArguments arguments = .ok (.run options (.display file format on)) ∧ n ∈ on

/-- A command is made of what is given on its command line, which is within the limits. -/
theorem exists_toCommand_of_ofArguments {arguments : List String} {options : Options}
    {command : Command} (h : ofArguments arguments = .ok (.run options command)) :
    ∃ (l : CommandLine) (name : CommandName),
      l.given.WithinLimits ∧ l.toCommand name = .ok command := by
  have hgoes : CommandLine.Goes (arguments.foldlM CommandLine.read {}) :=
    CommandLine.goes_foldlM_read Given.withinLimits_nothing arguments
  rw [ofArguments] at h
  split at h
  · rename_i l hl
    rw [hl] at hgoes
    obtain ⟨name, hname⟩ := CommandLine.exists_toCommand_of_finish h
    exact ⟨l, name, hgoes, hname⟩
  · cases h
  · rename_i r hr
    cases h
    rw [hr] at hgoes
    rcases hgoes with h | h <;> cases h

/-- The line that a command line asks for is a number of 64 bits. -/
theorem line_lt_of_ofArguments {arguments : List String} {options : Options} {file : String}
    {line : Nat} (h : ofArguments arguments = .ok (.run options (.locate file line))) :
    line < UInt64.size := by
  obtain ⟨l, name, hl, hcommand⟩ := exists_toCommand_of_ofArguments h
  obtain ⟨_, h⟩ | ⟨_, h⟩ | ⟨_, _, h⟩ | ⟨_, line', hline, h⟩ | ⟨_, h⟩ :=
    CommandLine.toCommand_cases hcommand <;> cases h
  exact hl.line line hline

theorem isSwitch_of_canSwitchOn {n : UInt8} (h : CanSwitchOn n) : isSwitch n = true := by
  obtain ⟨arguments, options, file, format, on, hrequest, hn⟩ := h
  obtain ⟨l, name, hl, hcommand⟩ := exists_toCommand_of_ofArguments hrequest
  obtain ⟨_, h⟩ | ⟨_, h⟩ | ⟨_, _, h⟩ | ⟨_, _, _, h⟩ | ⟨_, h⟩ :=
    CommandLine.toCommand_cases hcommand <;> cases h
  exact hl.on n (Array.mem_toList_iff.1 hn)

/-- A command line that asks for a format to be drawn, before the value of its flag `--on`. -/
def awaitingOn : CommandLine :=
  { command := some .display
    given := { arguments := #["MEMBER", "FORMAT"] }
    pending := some .on }

/-- A command line is read that can switch the indicator on. -/
theorem canSwitchOn_of_isSwitch {n : UInt8} (h : isSwitch n = true) : CanSwitchOn n := by
  refine ⟨["show", "MEMBER", "FORMAT", "--on", switchText n],
    {}, "MEMBER", "FORMAT", [n], ?_, List.mem_singleton_self n⟩
  -- the arguments before the numeral are fixed, so they are simply read
  have hread : List.foldlM CommandLine.read {} ["show", "MEMBER", "FORMAT", "--on", switchText n] =
      awaitingOn.read (switchText n) := by
    show List.foldlM CommandLine.read awaitingOn [_] = _
    rw [List.foldlM_cons]
    exact bind_pure _
  rw [ofArguments, hread, CommandLine.read_switchText rfl rfl h]
  rfl

/-- **Exactly the indicators from 1 to 99 can be switched on.** -/
theorem canSwitchOn_iff {n : UInt8} : CanSwitchOn n ↔ isSwitch n = true :=
  ⟨isSwitch_of_canSwitchOn, canSwitchOn_of_isSwitch⟩

end Request

end DisplayFile

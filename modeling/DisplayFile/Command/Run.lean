import DisplayFile.Command.Answer
import DisplayFile.Command.Request
import DisplayFile.Command.Suite

/-!
# Running a command

A run takes the arguments of a command line and gives an outcome: what is written to the standard
output and to the standard error, and an exit code. The code is 0 for an answer, 1 for a failure and
2 for a command line that asks for nothing.

The settings are loaded first. A settings file that is named has to be there; otherwise a file
`dspf.toml` in the current folder is used if there is one. What goes wrong before the settings are
loaded is reported in the form that the command line asks for, and afterwards the settings have
their say. Answers go to the standard output and reports of failures to the standard error, never
both.

A log of the work, which `--verbose` asks for, would go to the standard error before a report. It is
left out of the outcome, so that the standard error of an outcome holds the report alone.
-/

namespace DisplayFile

/-- What a run leaves behind, but for the log of the work. -/
structure Outcome where
  code : Nat
  stdout : String := ""
  stderr : String := ""
deriving DecidableEq, Repr

namespace Outcome

/-- An answer. -/
def answer (text : String) : Outcome :=
  { code := 0, stdout := text }

/-- A failure with its report, which is left out when quiet. -/
def failure (quiet : Bool) (report : String) : Outcome :=
  { code := 1, stderr := if quiet then "" else report ++ "\n" }

/-- A failure of the program, as a sentence. -/
def failed (form : OutputForm) (quiet : Bool) (message : String) : Outcome :=
  failure quiet <|
    match form with
    | .text => message
    | .json => (Json.object [("error", .string message)]).compact

/-- A failure to answer a question about a member. -/
def unanswered (form : OutputForm) (quiet : Bool) (e : Failure) : Outcome :=
  failure quiet <|
    match form with
    | .text => "error: " ++ e.message
    | .json => e.toJson.pretty

end Outcome

/-- The settings file that is used when none is named. -/
def defaultConfig : String := "dspf.toml"

/-- The settings in a file. -/
def settingsOf (path : String) (source : Except FileError String) : Except String Settings :=
  match source with
  | .error e => .error s!"could not read '{path}': {e.message}"
  | .ok source =>
    match Settings.ofText source with
    | .error e => .error s!"could not parse '{path}': {e.message}"
    | .ok settings => .ok settings

section Running

variable {m : Type → Type} [Monad m]

/-- Load the settings. -/
def loadSettings (files : Files m) (config : Option String) : m (Except String Settings) := do
  match config with
  | some path => return settingsOf path (← files.readText path)
  | none =>
    match ← files.kind? defaultConfig with
    | some .file => return settingsOf defaultConfig (← files.readText defaultConfig)
    | _ => return .ok {}

/-- The outcome of a question about a member. -/
def Member.outcome (member : Except Failure Member) (form : OutputForm) (quiet : Bool)
    (answer : Member → Outcome) : Outcome :=
  match member with
  | .ok m => answer m
  | .error e => .unanswered form quiet e

/-- Run a command with settings. -/
def Command.run (files : Files m) (settings : Settings) (form : OutputForm) (quiet : Bool) :
    Command → m Outcome
  | .parse file => do
    return Member.outcome (← readMember files file) form quiet fun member ↦
      .answer (member.modelText ++ "\n")
  | .formats file => do
    return Member.outcome (← readMember files file) form quiet fun member ↦
      .answer (member.formatsText form)
  | .display file format on => do
    return Member.outcome (← readMember files file) form quiet fun member ↦
      match member.shownText format (settings.indicatorsWith on) form with
      | .ok text => .answer (text ++ "\n")
      | .error e => .unanswered form quiet e
  | .locate file line => do
    return Member.outcome (← readMember files file) form quiet fun member ↦
      match member.locate? line with
      | some name => .answer (Member.locatedText line name form ++ "\n")
      | none => .failed form quiet s!"no record format covers line {line}"
  | .test suite => do
    match ← files.kind? suite with
    | some .folder =>
      let report ← runSuite files suite
      return { code := if report.failures = 0 then 0 else 1, stdout := report.text }
    | _ => return .failure quiet s!"error: conformance suite directory not found: {suite}"

/-- Load the settings and run a command. -/
def Options.run (files : Files m) (options : Options) (command : Command) : m Outcome := do
  match ← loadSettings files options.config with
  | .error message => return .failed (options.output.getD .text) options.quiet message
  | .ok settings =>
    command.run files settings ((options.output.or settings.output).getD .text) options.quiet

/-- The name of the program and its version. -/
def versionText : String := "dspf 0.1.0"

/-- How the program is used. -/
def usageText : String :=
  String.intercalate "\n"
    ["Usage: dspf [OPTIONS] <COMMAND>",
     "",
     "Commands:",
     "  parse FILE                     Print the model of a member as JSON",
     "  formats FILE                   List the record formats of a member",
     "  show FILE FORMAT [--on N]...   Show the visible fields of a record format",
     "  locate FILE --line N           Name the record format that covers a line",
     "  test [SUITE]                   Run a conformance suite",
     "",
     "Options:",
     "  --output text|json             Form of the output",
     "  --quiet                        Report no failures",
     "  --verbose                      Report progress",
     "  --config FILE                  Settings file, in place of dspf.toml",
     "  --help                         Print this text",
     "  --version                      Print the version"]

/-- Run a command line. -/
def run (files : Files m) (arguments : List String) : m Outcome :=
  match Request.ofArguments arguments with
  | .error e => return { code := 2, stderr := s!"error: {e.message}\n\n{usageText}\n" }
  | .ok .version => return .answer (versionText ++ "\n")
  | .ok .help => return .answer (usageText ++ "\n")
  | .ok (.run options command) => options.run files command

end Running

end DisplayFile

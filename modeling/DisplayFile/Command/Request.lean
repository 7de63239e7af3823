import DisplayFile.Command.Settings
import DisplayFile.Text.Numeral

/-!
# The command line

A command line names one of five commands, with its arguments and flags. Flags that concern every
command may stand before or after its name, and where one stands on both sides the later counts. On
one side of the name a flag can be given once, except `--on`, which can be repeated.

The value of a flag follows it as the next argument, or after an equals sign. An argument that
begins with a dash is a flag and never a value, unless it is a dash alone; after `--` every argument
is one of the command.

The arguments are read one after the other, so a question for help or for the version is answered
unless something before it is wrong.
-/

namespace DisplayFile

/-- What is wrong with a command line. -/
inductive UsageError where
  | unknownCommand (name : String)
  | noCommand
  | unknownArgument (argument : String)
  | missingArgument (name : String)
  | missingValue (flag : String)
  | needlessValue (flag : String)
  | badValue (flag value : String)
  | repeated (flag : String)
deriving DecidableEq, Repr

/-- What an error says. -/
def UsageError.message : UsageError → String
  | unknownCommand name => s!"unrecognized subcommand '{name}'"
  | noCommand => "a subcommand is required"
  | unknownArgument argument => s!"unexpected argument '{argument}'"
  | missingArgument name => s!"the argument {name} is required"
  | missingValue flag => s!"a value is required for '{flag}'"
  | needlessValue flag => s!"'{flag}' takes no value"
  | badValue flag value => s!"invalid value '{value}' for '{flag}'"
  | repeated flag => s!"'{flag}' cannot be used more than once"

/-- The names of the commands. -/
inductive CommandName where
  | parse
  | formats
  | display
  | locate
  | test
deriving DecidableEq, Repr

/-- The command with a name. -/
def CommandName.ofName? : String → Option CommandName
  | "parse" => some .parse
  | "formats" => some .formats
  | "show" => some .display
  | "locate" => some .locate
  | "test" => some .test
  | _ => none

/-- How many arguments a command takes at most. -/
def CommandName.argumentLimit : CommandName → Nat
  | .display => 2
  | _ => 1

/-- A command with its arguments. -/
inductive Command where
  /-- The whole member in JSON. -/
  | parse (file : String)
  /-- The record formats of a member. -/
  | formats (file : String)
  /-- The fields of a format that are drawn while indicators are on. -/
  | display (file format : String) (on : List UInt8)
  /-- The format that covers a line, counted from 1. -/
  | locate (file : String) (line : Nat)
  /-- The fixtures of a suite. -/
  | test (suite : String)
deriving DecidableEq, Repr

/-- What concerns every command. -/
structure Options where
  /-- The form of the output, in place of the one in the settings. -/
  output : Option OutputForm := none
  /-- Failures are not reported. -/
  quiet : Bool := false
  /-- A log of the work is asked for. It would go to the standard error, and no outcome holds it. -/
  verbose : Bool := false
  /-- The file with the settings. -/
  config : Option String := none
deriving DecidableEq, Repr

/-- What a command line asks for. -/
inductive Request where
  | run (options : Options) (command : Command)
  | version
  | help
deriving DecidableEq, Repr

/-! ### Flags -/

/-- The flags. -/
inductive Flag where
  | output
  | quiet
  | verbose
  | config
  | on
  | line
deriving DecidableEq, Repr

namespace Flag

/-- The flag as it is written. -/
def text : Flag → String
  | output => "--output"
  | quiet => "--quiet"
  | verbose => "--verbose"
  | config => "--config"
  | on => "--on"
  | line => "--line"

/-- Whether a flag may stand where it does: after the name of a command, or before any. -/
def isAllowed (command : Option CommandName) : Flag → Bool
  | on => command = some .display
  | line => command = some .locate
  | _ => true

/-- The flag as which an argument is written. -/
def ofText? (name : String) : Option Flag :=
  [output, quiet, verbose, config, on, line].find? (·.text = name)

end Flag

/-- What is given on one side of the name of a command. -/
structure Given where
  options : Options := {}
  on : Array UInt8 := #[]
  line : Option Nat := none
  arguments : Array String := #[]

namespace Given

/-- Give a flag that takes no value. -/
def switch (g : Given) : Flag → Option (Except UsageError Given)
  | .quiet => some <|
    if g.options.quiet then .error (.repeated Flag.quiet.text)
    else .ok { g with options := { g.options with quiet := true } }
  | .verbose => some <|
    if g.options.verbose then .error (.repeated Flag.verbose.text)
    else .ok { g with options := { g.options with verbose := true } }
  | _ => none

/-- Give a flag with its value. -/
def value (g : Given) (flag : Flag) (text : String) : Except UsageError Given :=
  let bad : Except UsageError Given := .error (.badValue flag.text text)
  match flag with
  | .output =>
    match OutputForm.ofName? text with
    | none => bad
    | some form =>
      if g.options.output.isSome then .error (.repeated flag.text)
      else .ok { g with options := { g.options with output := some form } }
  | .config =>
    if text = "" then bad
    else if g.options.config.isSome then .error (.repeated flag.text)
    else .ok { g with options := { g.options with config := some text } }
  | .on =>
    match (Text.Numeral.byte? text.toList).filter isSwitch with
    | none => bad
    | some n => .ok { g with on := g.on.push n }
  | .line =>
    match Text.Numeral.below? UInt64.size text.toList with
    | none => bad
    | some n =>
      if g.line.isSome then .error (.repeated flag.text) else .ok { g with line := some n }
  | .quiet | .verbose => .error (.needlessValue flag.text)

end Given

/-- The options of both sides of the name of a command. -/
def Options.orElse (after before : Options) : Options :=
  { output := after.output.or before.output
    quiet := after.quiet || before.quiet
    verbose := after.verbose || before.verbose
    config := after.config.or before.config }

/-! ### Reading -/

/-- A command line read up to some point. -/
structure CommandLine where
  /-- What is given before the name of the command. -/
  before : Given := {}
  command : Option CommandName := none
  /-- What is given on this side of the name. -/
  given : Given := {}
  /-- A flag that waits for its value. -/
  pending : Option Flag := none
  /-- Every further argument is one of the command. -/
  isLiteral : Bool := false
  /-- Help is asked for, and may still be asked for on one command. -/
  helpTopics : Option Nat := none

/-- What ends the reading before the last argument. -/
inductive Stop where
  | usage (e : UsageError)
  | request (r : Request)

namespace CommandLine

/-- Give up. -/
def refuse {α : Type} (e : UsageError) : Except Stop α := .error (.usage e)

/-- Go on with what is given, or give up. -/
def withGiven (l : CommandLine) : Except UsageError Given → Except Stop CommandLine
  | .ok given => .ok { l with given, pending := none }
  | .error e => refuse e

/-- Read an argument of the command. The first one is a path and not empty. -/
def argument (l : CommandLine) (text : String) : Except Stop CommandLine :=
  match l.command with
  | none => refuse (.unknownArgument text)
  | some command =>
    if command.argumentLimit ≤ l.given.arguments.size then refuse (.unknownArgument text)
    else if l.given.arguments.isEmpty ∧ text = "" then refuse (.badValue "path" text)
    else .ok { l with given := { l.given with arguments := l.given.arguments.push text } }

/-- Read the name of a command. -/
def commandName (l : CommandLine) (text : String) : Except Stop CommandLine :=
  match CommandName.ofName? text with
  | some command => .ok { before := l.given, command := some command }
  | none =>
    if text = "help" then .ok { l with helpTopics := some 1 } else refuse (.unknownCommand text)

/-- Read a flag written in full, with the value attached to it, if any. -/
def long (l : CommandLine) (name : String) (attached : Option String) : Except Stop CommandLine :=
  if name = "--help" then
    if attached.isSome then refuse (.needlessValue name) else .error (.request .help)
  else if name = "--version" ∧ l.command = none then
    if attached.isSome then refuse (.needlessValue name) else .error (.request .version)
  else
    match (Flag.ofText? name).filter (Flag.isAllowed l.command) with
    | none => refuse (.unknownArgument name)
    | some flag =>
      match l.given.switch flag, attached with
      | some given, none => l.withGiven given
      | some _, some _ => refuse (.needlessValue name)
      | none, some text => l.withGiven (l.given.value flag text)
      | none, none => .ok { l with pending := some flag }

/-- Read flags of one letter. The first one decides. -/
def short (l : CommandLine) (text : String) (letter : Char) : Except Stop CommandLine :=
  if letter = 'h' then .error (.request .help)
  else if letter = 'V' ∧ l.command = none then .error (.request .version)
  else refuse (.unknownArgument text)

/-- Read one argument. -/
def read (l : CommandLine) (text : String) : Except Stop CommandLine :=
  let cs := text.toList
  let isFlag := cs.head? = some '-' ∧ cs ≠ ['-']
  match l.helpTopics, l.pending with
  | some topics, _ =>
    if topics = 0 ∨ ((CommandName.ofName? text).isNone ∧ text ≠ "help") then
      refuse (.unknownCommand text)
    else .ok { l with helpTopics := some (topics - 1) }
  | none, some flag =>
    if isFlag then refuse (.missingValue flag.text) else l.withGiven (l.given.value flag text)
  | none, none =>
    if l.isLiteral then l.argument text
    else
      match cs with
      | ['-', '-'] => .ok { l with isLiteral := true }
      | '-' :: '-' :: _ =>
        let name := cs.takeWhile (· ≠ '=')
        let attached := if name.length < cs.length then some (cs.drop (name.length + 1)) else none
        l.long (String.ofList name) (attached.map String.ofList)
      | '-' :: letter :: _ => l.short text letter
      | _ => if l.command.isSome then l.argument text else l.commandName text

/-- The argument with a number, which has to be there. -/
def required (l : CommandLine) (i : Nat) (name : String) : Except UsageError String :=
  match l.given.arguments[i]? with
  | some text => .ok text
  | none => .error (.missingArgument name)

/-- The command of a command line that is read to its end. -/
def toCommand (l : CommandLine) : CommandName → Except UsageError Command
  | .parse => do return .parse (← l.required 0 "FILE")
  | .formats => do return .formats (← l.required 0 "FILE")
  | .display => do
    return .display (← l.required 0 "FILE") (← l.required 1 "FORMAT") l.given.on.toList
  | .locate => do
    let file ← l.required 0 "FILE"
    match l.given.line with
    | some line => return .locate file line
    | none => .error (.missingArgument "--line")
  | .test => .ok (.test (l.given.arguments[0]?.getD "conformance"))

/-- What a command line asks for that is read to its end. -/
def finish (l : CommandLine) : Except UsageError Request :=
  match l.pending, l.helpTopics, l.command with
  | some flag, _, _ => .error (.missingValue flag.text)
  | none, some _, _ => .ok .help
  | none, none, none => .error .noCommand
  | none, none, some name => do
    return .run (l.given.options.orElse l.before.options) (← l.toCommand name)

end CommandLine

/-- Read a command line. -/
def Request.ofArguments (arguments : List String) : Except UsageError Request :=
  match arguments.foldlM CommandLine.read {} with
  | .ok line => line.finish
  | .error (.usage e) => .error e
  | .error (.request r) => .ok r

end DisplayFile

import DisplayFile.Indicators
import DisplayFile.Toml.Reader

/-!
# Settings

Settings give defaults for the command line. They are a TOML document with two keys: `output`, the
form of the output, and a table `indicators` whose key `on` lists the indicators that are on. Every
key may be left out, and no other key is allowed.

The settings are read in two steps. The document has to have the right keys with values of the right
types, and then the indicators have to be ones that can be switched: those from 1 to 99.
-/

namespace DisplayFile

/-- The form of an output. -/
inductive OutputForm where
  | text
  | json
deriving DecidableEq, Repr

/-- The form with a name. -/
def OutputForm.ofName? : String → Option OutputForm
  | "text" => some text
  | "json" => some json
  | _ => none

/-- Defaults for the command line. -/
structure Settings where
  output : Option OutputForm := none
  /-- The indicators that are on. -/
  on : List UInt8 := []
deriving DecidableEq, Repr

/-- Why a text gives no settings. -/
inductive SettingsError where
  /-- The text is not a document, or not one with the keys and types of settings. -/
  | malformed (reason : String)
  /-- An indicator cannot be switched. -/
  | outOfRange (n : UInt8)
deriving DecidableEq, Repr

/-- What an error says. -/
def SettingsError.message : SettingsError → String
  | malformed reason => s!"TOML parse error: {reason}"
  | outOfRange n => s!"indicator {n.toNat} is outside 1-99"

/-- Whether an indicator can be switched. -/
def isSwitch (n : UInt8) : Bool := 1 ≤ n && n ≤ 99

namespace Settings

/-- An indicator in a list. -/
def indicator : Toml → Except String UInt8
  | .integer (.ofNat n) =>
    if n < UInt8.size then .ok (UInt8.ofNat n) else .error "an indicator is out of range"
  | _ => .error "an indicator is a number"

/-- The list of indicators that are on. -/
def onList : Toml → Except String (List UInt8)
  | .array items => items.mapM indicator
  | _ => .error "on is a list"

/-- The form of the output: its name, or a table with its name as the only key, whose value is an
empty table or an empty array. -/
def outputForm : Toml → Except String OutputForm
  | .string name | .table _ [(name, .table _ [])] | .table _ [(name, .array [])] => named name
  | _ => .error "output is text or json"
where
  /-- The form with a name. -/
  named (name : String) : Except String OutputForm :=
    match OutputForm.ofName? name with
    | some form => .ok form
    | none => .error s!"unknown output {name}"

/-- The indicators that are on. In place of the table an array with the value of its key is
allowed. -/
def indicators : Toml → Except String (List UInt8)
  | .table _ members =>
    members.foldlM (fun _ (key, value) ↦
      if key = "on" then onList value else .error s!"unknown key {key}") []
  | .array [] => .ok []
  | .array (on :: _) => onList on
  | _ => .error "indicators is a table"

/-- The settings in a document. -/
def ofDocument (document : Toml.Members) : Except String Settings :=
  document.foldlM (fun settings (key, value) ↦
    match key with
    | "output" => do return { settings with output := some (← outputForm value) }
    | "indicators" => do return { settings with on := ← indicators value }
    | key => .error s!"unknown key {key}") {}

/-- Read settings. -/
def ofText (source : String) : Except SettingsError Settings :=
  match Toml.read source with
  | .error e => .error (.malformed e.message)
  | .ok document =>
    match ofDocument document with
    | .error reason => .error (.malformed reason)
    | .ok settings =>
      match settings.on.find? (!isSwitch ·) with
      | some n => .error (.outOfRange n)
      | none => .ok settings

/-- The indicators that are on with the settings and with further ones. -/
def indicatorsWith (s : Settings) (extra : List UInt8) : Indicators :=
  Indicators.ofList (s.on ++ extra)

end Settings

end DisplayFile

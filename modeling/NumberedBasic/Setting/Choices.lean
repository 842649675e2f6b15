import NumberedBasic.Setting.CommandLine
import NumberedBasic.Setting.Sections

/-!
# What is chosen

The command line comes before the presets, a later preset comes before an
earlier one, and all presets come before the section that always holds.
-/

namespace NumberedBasic

structure Choices where
  /-- The first positional word. -/
  first : Option String
  settings : OrderedMap Setting Choice
  deriving DecidableEq, Repr

namespace Choices

/-- The section that always holds. -/
def baseSection : String := "linebasic"

/-! ## Configuration files -/

/-- The sections of two files; those of the second replace those of the
first. -/
def mergeSections (system own : Sections) : Sections := system.update own

/-- The text on the command line for a setting, or the empty text. -/
def givenText (given : OrderedMap Key String) (setting : Setting) : String :=
  (given.get? (.named setting.name)).getD ""

/-- The presets named on the command line, or else in the section that always
holds.  They are separated by commas. -/
def presetNames (given : OrderedMap Key String) (base : Section) :
    Except Sections.Failure (List String) :=
  let names (text : String) : List String :=
    (text.splitOn ",").filter fun name => !name.isEmpty
  let text := givenText given .preset
  if !text.isEmpty then .ok (names text)
  else
    match base.get? Setting.preset.name with
    | some (some text) => .ok (names text)
    | some none => .error .missingValue
    | none => .ok []

/-- The options of presets on top of others, and the warnings about presets
that are not defined. -/
def applyPresets (sections : Sections) (names : List String)
    (options : Section) : Section × List String :=
  names.foldl (fun (options, warnings) name =>
    match sections.get? name with
    | some preset => (options.update preset, warnings)
    | none =>
        (options, warnings ++ ["Ignored undefined preset `" ++ name ++ "`"]))
    (options, [])

/-- An option as it is shown in a warning. -/
def shownValue (value : Option String) : String := value.getD "None"

/-- The settings among the options of a configuration file, and the warnings
about the others. -/
def ofSection (options : Section) :
    OrderedMap Setting (Option String) × List String :=
  let settings := options.entries.foldl (fun settings (name, value) =>
    match Setting.ofName? name with
    | some setting => settings.insert setting value
    | none => settings) .empty
  let warnings := options.entries.filterMap fun (name, value) =>
    if (Setting.ofName? name).isSome then none
    else some ("Ignored unrecognised option `" ++ name ++ "=" ++
      shownValue value ++ "` in configuration file")
  (settings, warnings)

/-- What all configuration files choose. -/
def ofSections (given : OrderedMap Key String) (sections : Sections) :
    Except Sections.Failure
      (OrderedMap Setting (Option String) × List String) := do
  let base := (sections.get? baseSection).getD .empty
  let names ← presetNames given base
  let (options, undefined) := applyPresets sections names base
  let (settings, unrecognised) :=
    ofSection (options.erase Setting.preset.name)
  return (settings, undefined ++ unrecognised)

/-! ## The command line -/

/-- The settings that are chosen by the text given for them; a configuration
file and presets are named on the command line, but chosen no further. -/
def isDirect (setting : Setting) : Bool :=
  setting ≠ .config && setting ≠ .preset

/-- The warning about what is given on the command line, if it is for nothing
that is known. -/
def surplus? (key : Key) (value : String) : Option String :=
  match key with
  | .position 0 => none
  | .position index =>
      some ("Ignored surplus positional command-line argument #" ++
        toString index ++ ": `" ++ value ++ "`")
  | .named name =>
      if (Setting.ofName? name).isSome then none
      else if value.isEmpty then
        some ("Ignored unrecognised command-line argument `" ++ name ++ "`")
      else
        some ("Ignored unrecognised command-line argument `" ++ name ++
          "=" ++ value ++ "`")

/-- The settings given on the command line, and the warnings about the
rest. -/
def ofCommandLine (given : OrderedMap Key String) :
    OrderedMap Setting (Option String) × List String :=
  let settings := given.entries.foldl (fun settings (key, value) =>
    match key.setting? with
    | some setting =>
        if isDirect setting then settings.insert setting (some value)
        else settings
    | none => settings) .empty
  (settings, given.entries.filterMap fun (key, value) => surplus? key value)

/-! ## Both -/

/-- The choices, and the warnings about what has no effect or is not clear, in
order. -/
def combine (given : OrderedMap Key String) (system own : Sections) :
    Except Sections.Failure (Choices × List String) := do
  let (configured, ignored) ←
    ofSections given (mergeSections system own)
  let (direct, surplus) := ofCommandLine given
  let texts := configured.update direct
  let doubtful := texts.entries.filterMap fun (setting, text) =>
    setting.warning? text
  return (⟨given.get? (.position 0),
    ⟨texts.entries.map fun (setting, text) => (setting, setting.choose text)⟩⟩,
    ignored ++ surplus ++ doubtful)

/-! ## Looking choices up -/

/-- What was chosen; unset if nothing was. -/
def chosen (choices : Choices) (setting : Setting) : Choice :=
  (choices.settings.get? setting).getD .unset

/-- What holds: the choice, or what holds where nothing is chosen. -/
def value (choices : Choices) (setting : Setting) : Choice :=
  match choices.chosen setting with
  | .unset => setting.initial
  | .text text => if text.isEmpty then setting.initial else .text text
  | .flag on => .flag on

def text (choices : Choices) (setting : Setting) : String :=
  match choices.value setting with
  | .text text => text
  | _ => ""

def flag (choices : Choices) (setting : Setting) : Bool :=
  match choices.value setting with
  | .flag on => on
  | _ => false

/-- What was chosen under a key that need not be known. -/
def chosenFor (choices : Choices) : Key → Choice
  | .position 0 => (choices.first.map .text).getD .unset
  | .position _ => .unset
  | .named name => ((Setting.ofName? name).map choices.chosen).getD .unset

/-- What holds under a key, if the key is known. -/
def valueFor? (choices : Choices) : Key → Option Choice
  | .position 0 => some (.text (choices.first.getD ""))
  | .position _ => none
  | .named name => (Setting.ofName? name).map choices.value

end Choices

/-! ## What is to be done -/

/-- What to run, and whether to go on with the editor and a greeting. -/
structure Plan where
  program : String
  commands : List String
  interact : Bool
  greeting : Bool
  deriving DecidableEq, Repr

/-- The editor is started on demand or if there is nothing to run, and greets
only if there is nothing to run. -/
def Choices.plan (choices : Choices) : Plan :=
  let named := choices.text .program
  let program := if named.isEmpty then choices.first.getD "" else named
  let commands := ((choices.text .exec).splitOn "\n").filter fun command =>
    !Text.allBlank command.toList
  let idle := program.isEmpty && commands.isEmpty
  let interact := choices.flag .interact || idle
  { program, commands, interact
    greeting := interact && idle && choices.flag .greeting }

end NumberedBasic

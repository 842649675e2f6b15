import NumberedBasic.Text.Letter

/-!
# Settings

What can be chosen on the command line and in configuration files, and how
the text that is given for a setting is taken.
-/

namespace NumberedBasic

inductive Setting where
  | program
  | exec
  | interact
  | greeting
  | debug
  | logfile
  | config
  | preset
  | version
  | help
  deriving DecidableEq, Repr

/-- What is chosen for a setting; nothing if it is named without a value. -/
inductive Choice where
  | unset
  | flag (on : Bool)
  | text (text : String)
  deriving DecidableEq, Repr

namespace Setting

def all : List Setting :=
  [program, exec, interact, greeting, debug, logfile, config, preset, version,
   help]

def name : Setting → String
  | program => "program"
  | exec => "exec"
  | interact => "interact"
  | greeting => "greeting"
  | debug => "debug"
  | logfile => "logfile"
  | config => "config"
  | preset => "preset"
  | version => "version"
  | help => "help"

def ofName? (name : String) : Option Setting :=
  all.find? fun setting => setting.name = name

/-- The settings that a single letter stands for. -/
def ofLetter? : Char → Option Setting
  | 'd' => some debug
  | 'e' => some exec
  | 'h' => some help
  | 'i' => some interact
  | 'v' => some version
  | _ => none

/-- What holds where nothing is chosen. -/
def initial : Setting → Choice
  | interact => .flag false
  | greeting => .flag true
  | debug => .flag false
  | version => .flag false
  | help => .flag false
  | program => .text ""
  | exec => .text ""
  | logfile => .text ""
  | config => .text ""
  | preset => .text ""

def isFlag (setting : Setting) : Bool :=
  match setting.initial with
  | .flag _ => true
  | _ => false

/-- Texts given one after another for the same setting are joined by this; of
other settings the last text holds. -/
def separator? : Setting → Option String
  | exec => some "\n"
  | _ => none

/-! ## Flags -/

def trueWords : List String := ["YES", "TRUE", "ON", "1"]

def falseWords : List String := ["NO", "FALSE", "OFF", "0"]

/-- The flag that a word stands for in any letter case.  A flag that is named
without a word is on. -/
def flagOfWord? (word : String) : Option Bool :=
  if word.isEmpty then some true
  else if trueWords.contains (Text.upperCase word) then some true
  else if falseWords.contains (Text.upperCase word) then some false
  else none

/-- What a text chooses for a setting.  A word that stands for no flag turns
it on. -/
def choose (setting : Setting) : Option String → Choice
  | none => .unset
  | some text =>
      if setting.isFlag then .flag ((flagOfWord? text).getD true)
      else .text text

/-- The warning about a word that stands for no flag. -/
def warning? (setting : Setting) (given : Option String) : Option String :=
  match given with
  | none => none
  | some text =>
      if setting.isFlag && (flagOfWord? text).isNone then
        some ("Boolean option `" ++ setting.name ++ "=" ++ text ++
          "` interpreted as `" ++ setting.name ++ "=True`")
      else none

theorem ofName?_name (setting : Setting) :
    ofName? setting.name = some setting := by
  cases setting <;> decide

theorem name_of_ofName? {name : String} {setting : Setting}
    (h : ofName? name = some setting) : setting.name = name := by
  simpa using List.find?_some h

end Setting

end NumberedBasic

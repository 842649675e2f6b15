import NumberedBasic.Console.Echo
import NumberedBasic.Console.Path
import NumberedBasic.Setting.Choices

/-!
# Gathering the choices

Configuration files are read, and where the log goes is settled last, so the
warnings wait until then.
-/

namespace NumberedBasic

namespace Choices

/-- The configuration file in the current folder. -/
def localFile : String := "LINEBASIC.INI"

/-- A file that cannot be read, or that holds no sections, counts as empty. -/
def configWarning (path : String) : String :=
  "Error in configuration file `" ++ path ++ "`. Configuration not loaded."

/-- The sections of a configuration file, and a warning if there are none to
be had. -/
def readSections (path : String) :
    Act (Except Crash (Sections × List String)) := do
  if !Path.isPossible path then return .error .impossiblePath
  match ← Act.readFile path with
  | .error _ => return .ok (.empty, [configWarning path])
  | .ok bytes =>
      match Sections.ofBytes bytes with
      | .ok sections => return .ok (sections, [])
      | .error .malformed => return .ok (.empty, [configWarning path])
      | .error .missingValue => return .error .missingValue

def readIfExists (path : String) :
    Act (Except Crash (Sections × List String)) := do
  if ← Act.fileExists path then readSections path
  else return .ok (.empty, [])

/-- The file named on the command line, or else the one in the current folder
if it exists. -/
def readOwn (named : String) : Act (Except Crash (Sections × List String)) :=
  if named.isEmpty then readIfExists localFile else readSections named

/-- Where messages go, given the choices.  A log that cannot be opened is
replaced by standard error. -/
def openJournal (choices : Choices) : Act (Except Crash Journal) := do
  let path := choices.text .logfile
  let debug := choices.flag .debug
  if path.isEmpty then return .ok ⟨debug, false⟩
  if !Path.isPossible path then return .error .impossiblePath
  match ← Act.openLog path with
  | .ok () => return .ok ⟨debug, true⟩
  | .error error =>
      Act.complain ("Could not open log file `" ++ path ++ "`: [Errno " ++
        toString error.number ++ "] " ++ error.reason ++ ": " ++
        Text.quoted path ++ "\n")
      return .ok ⟨debug, false⟩

/-- The choices of the user, given the path of the configuration file that is
always read and the words of the command line. -/
def gather (systemFile : String) (words : List String) :
    Act (Except Crash (Choices × Journal)) := do
  let line := CommandLine.read words
  match ← readIfExists systemFile with
  | .error crash => return .error crash
  | .ok (system, systemWarnings) =>
      match ← readOwn (givenText line.given .config) with
      | .error crash => return .error crash
      | .ok (own, ownWarnings) =>
          match combine line.given system own with
          | .error _ => return .error .missingValue
          | .ok (choices, warnings) => do
              match ← openJournal choices with
              | .error crash => return .error crash
              | .ok journal =>
                  (line.warnings ++ systemWarnings ++ ownWarnings ++
                    warnings).forM journal.warnFirst
                  return .ok (choices, journal)

end Choices

end NumberedBasic

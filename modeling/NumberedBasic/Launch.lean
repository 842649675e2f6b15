import NumberedBasic.Editor
import NumberedBasic.Setting.Gather
import NumberedBasic.Text.Utf8

/-!
# Launching

The program as it is called from a command line: a program file and commands
are run in order, up to the first of them that is not well formed, and then
the editor is started if it is wanted.
-/

namespace NumberedBasic

/-! ## What the program says about itself -/

def programName : String := "LineBASIC"

def versionNumber : String := "1.0.0"

def versionText : String :=
  programName ++ " " ++ versionNumber ++ "\n" ++
  "(C) Copyright 2013--2022 Rob Hagemans, 2026 LineBASIC contributors.\n"

def usageText : String :=
  "Usage: linebasic [PROGRAM] [OPTION]...\n" ++
  "\n" ++
  "Runs a line-numbered BASIC program, or starts the interactive editor.\n" ++
  "\n" ++
  "Positional arguments:\n" ++
  "\n" ++
  "PROGRAM                  If a .BAS program is specified, it is run and its\n" ++
  "                         output is written to standard output.\n" ++
  "\n" ++
  "Options:\n" ++
  "\n" ++
  "--config=FILE            Read a configuration file. The system default\n" ++
  "                         configuration is always read first, but a preset\n" ++
  "                         group of options in a configuration file can\n" ++
  "                         override it.\n" ++
  "\n" ++
  "-d, --debug[=True|False] Log debugging messages of the interpreter.\n" ++
  "\n" ++
  "-e, --exec=STATEMENT     Execute a BASIC statement as a one-line program.\n" ++
  "                         May be specified more than once.\n" ++
  "\n" ++
  "--greeting[=True|False]  Show the greeting when the interactive editor\n" ++
  "                         starts. Default is True.\n" ++
  "\n" ++
  "-h, --help               Show this usage description and exit.\n" ++
  "\n" ++
  "-i, --interact           Start the interactive editor after running the\n" ++
  "                         program and statements given.\n" ++
  "\n" ++
  "--logfile=FILE           Write error and warning messages to FILE.\n" ++
  "\n" ++
  "--preset=PRESET          Load machine preset options. A preset is a section\n" ++
  "                         [PRESET] in a configuration file.\n" ++
  "\n" ++
  "-v, --version            Print version and exit.\n" ++
  "\n" ++
  "Interactive editor:\n" ++
  "\n" ++
  "Lines that start with a number are stored in the program; a number on its own\n" ++
  "deletes that line. Other lines are executed immediately.\n" ++
  "\n" ++
  "RUN                      Run the stored program.\n" ++
  "LIST                     List the stored program.\n" ++
  "NEW                      Erase the stored program.\n" ++
  "HELP                     Show the editor commands.\n" ++
  "EXIT, QUIT               Leave the editor.\n"

namespace Launch

variable [Host]

/-- How much a run of the program may take: dispatched statements for each
source text, and lines typed into the editor. -/
structure Limits where
  dispatches : Nat
  lines : Nat
  deriving DecidableEq, Repr

/-- The exit status when all is well. -/
def success : Nat := 0

/-- The exit status when a source text cannot be read or is not well
formed. -/
def failure : Nat := 1

/-- The text of a program file, if the file can be read. -/
def readProgram (journal : Journal) (path : String) :
    Act (Except Crash (Option String)) := do
  if !Path.isPossible path then return .error .impossiblePath
  match ← Act.readFile path with
  | .ok bytes =>
      let text := Text.unifyLineEnds (Text.decodeUtf8 bytes)
      return .ok (some (String.ofList text))
  | .error error =>
      journal.say .error ("Could not read program file `" ++ path ++ "`: " ++
        error.reason)
      return .ok none

/-- Runs a source text, passing on what it puts out to standard output, and
reports a syntax error; tells whether the text was well formed.  Afterwards the
session passes nothing on to standard output. -/
def runSource (journal : Journal) (limits : Limits) (session : Session)
    (source : String) : Act (Session × Except Crash Bool) :=
  Act.lastly (report (session.addEcho consoleEcho)) Act.flush
where
  report (session : Session) : Act (Session × Except Crash Bool) := do
    let detached := (session.removeEcho? consoleEcho).getD session
    match ← session.execute journal limits.dispatches source with
    | .finished => return (detached, .ok true)
    | .refused error =>
        Act.complain (error.text ++ "\n")
        return (detached, .ok false)
    | .crashed crash => return (detached, .error crash)

/-- Runs source texts in order, up to the first that is not well formed. -/
def runSources (journal : Journal) (limits : Limits) :
    Session → List String → Act (Session × Except Crash Bool)
  | session, [] => return (session, .ok true)
  | session, source :: rest => do
      match ← runSource journal limits session source with
      | (session, .ok true) => runSources journal limits session rest
      | other => return other

/-- The source texts to run, the program file before the commands; none of
them if the file cannot be read. -/
def sources (journal : Journal) (plan : Plan) :
    Act (Except Crash (Option (List String))) :=
  if plan.program.isEmpty then return .ok (some plan.commands)
  else do
    match ← readProgram journal plan.program with
    | .error crash => return .error crash
    | .ok none => return .ok none
    | .ok (some source) => return .ok (some (source :: plan.commands))

/-- Greets if that is wanted, and starts the editor. -/
def edit (journal : Journal) (limits : Limits) (plan : Plan)
    (session : Session) : Act (Except Crash Nat) := do
  if plan.greeting then
    Act.write (Editor.greeting programName versionNumber)
  match ← Editor.interact journal limits.dispatches limits.lines session with
  | (_, none) => return .ok success
  | (_, some crash) => return .error crash

/-- Carries out a plan, up to the exit status. -/
def perform (journal : Journal) (limits : Limits) (plan : Plan) :
    Act (Except Crash Nat) := do
  let session := (Session.withEchoes []).start.1
  match ← sources journal plan with
  | .error crash => return .error crash
  | .ok none => return .ok failure
  | .ok (some sources) =>
      match ← runSources journal limits session sources with
      | (_, .error crash) => return .error crash
      | (_, .ok false) => return .ok failure
      | (session, .ok true) =>
          if plan.interact then edit journal limits plan session
          else return .ok success

/-- The program from the words of its command line to its exit status, given
the path of the configuration file that is always read. -/
def start (limits : Limits) (systemFile : String) (words : List String) :
    Act (Except Crash Nat) := do
  match ← Choices.gather systemFile words with
  | .error crash => return .error crash
  | .ok (choices, journal) =>
      if choices.flag .version then
        Act.write versionText
        return .ok success
      else if choices.flag .help then
        Act.write usageText
        return .ok success
      else perform journal limits choices.plan

/-- A program that nothing from outside makes fail: if it is interrupted it
just has no result.  Whatever it has left to write it writes, if it can. -/
def guarded {α : Type} (program : Act (Except Crash α)) :
    Act (Except Crash (Option α)) := do
  match ← program.outcome with
  | .ok (.error crash) => return .error crash
  | .ok (.ok result) =>
      let _ ← Act.flush.outcome
      return .ok (some result)
  | .error _ =>
      let _ ← Act.flush.outcome
      return .ok none

end Launch

end NumberedBasic

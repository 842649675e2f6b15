import NumberedBasic.Console.Echo
import NumberedBasic.Text.Letter

/-!
# The interactive editor

Lines that start with a number go to the stored program, commands are carried
out, and everything else is run as a program of its own.  A syntax error is
reported and leaves everything as it was.
-/

namespace NumberedBasic

namespace Editor

variable [Host]

inductive Command where
  | run
  | list
  | new
  | help
  | exit
  deriving DecidableEq, Repr

/-- The command that a line consists of, in any letter case. -/
def Command.ofLine? (line : String) : Option Command :=
  match Text.upperCase (Text.stripped line) with
  | "RUN" => some .run
  | "LIST" => some .list
  | "NEW" => some .new
  | "HELP" => some .help
  | "EXIT" => some .exit
  | "QUIT" => some .exit
  | _ => none

/-- The prompt tells whether a program is stored. -/
def promptFor (listing : Listing) : String :=
  if listing.lines.isEmpty then "READY> " else "BASIC> "

def farewell : String := "Goodbye!\n"

def helpText : String :=
  "Lines starting with a number are stored in the program;\n" ++
  "a line number on its own deletes that line.\n" ++
  "Other lines are executed immediately.\n" ++
  "Commands:\n" ++
  "  RUN         run the program\n" ++
  "  LIST        list the program\n" ++
  "  NEW         erase the program\n" ++
  "  HELP        show this help\n" ++
  "  EXIT, QUIT  leave the editor\n" ++
  "Language:\n" ++
  "  Line numbers  10 PRINT \"Hello\"\n" ++
  "  Variables     LET A = 5 or A = 5; A$ holds text by convention\n" ++
  "  Arrays        DIM A(10), A(5) = 42\n" ++
  "  Control flow  GOTO, IF-THEN-ELSE, FOR-TO-STEP-NEXT, END\n" ++
  "  Data          DATA 1,2,3 / READ A,B,C / RESTORE\n" ++
  "  Output        PRINT \"text\"; A, B\n" ++
  "  Comments      REM This is a comment\n" ++
  "  Math          + - * / ^\n" ++
  "  Comparison    = <> < > <= >=\n" ++
  "  Logic         AND OR NOT\n"

def greeting (name version : String) : String :=
  name ++ " " ++ version ++ "\nType HELP for help.\n"

/-- A line without the characters that end it. -/
def withoutLineEnd (line : String) : String :=
  String.ofList (line.toList.reverse.dropWhile fun c =>
    c = '\n' || c = '\r').reverse

/-- The session after a line, and whether there is to be another. -/
abbrev Turn := Except Crash (Session × Bool)

/-- Runs a source text and reports a syntax error. -/
def execute (journal : Journal) (dispatches : Nat) (session : Session)
    (source : String) : Act Turn := do
  let session := session.start.1
  match ← session.execute journal dispatches source with
  | .finished => return .ok (session, true)
  | .crashed crash => return .error crash
  | .refused error =>
      journal.say .debug ("Syntax error: " ++ error.debugText)
      Act.complain (error.text ++ "\n")
      return .ok (session, true)

/-- Stores or deletes a numbered line. -/
def store (journal : Journal) (session : Session) (line : String) :
    Act Turn :=
  match Listing.numbered line with
  | .error _ => return .error .unreadableNumeral
  | .ok (number, code) => do
      if code.isEmpty ∧ session.listing.contains number = false then
        journal.say .debug ("Line " ++ toString number ++
          " not in program, nothing deleted")
      return .ok ({ session with listing := session.listing.put number code },
        true)

def perform (journal : Journal) (dispatches : Nat) (session : Session) :
    Command → Act Turn
  | .run =>
      if session.listing.lines.isEmpty then do
        Act.write "No program to run.\n"
        return .ok (session, true)
      else do
        journal.say .debug ("Running stored program of " ++
          toString session.listing.lines.length ++ " lines")
        execute journal dispatches session session.listing.source
  | .list => do
      if session.listing.lines.isEmpty then Act.write "No program loaded.\n"
      session.listing.list.forM fun line => Act.write (line ++ "\n")
      return .ok (session, true)
  | .new => do
      Act.write "Program cleared.\n"
      return .ok (session.new, true)
  | .help => do
      Act.write helpText
      return .ok (session, true)
  | .exit => return .ok (session, false)

/-- Handles one line. -/
def handle (journal : Journal) (dispatches : Nat) (session : Session)
    (line : String) : Act Turn :=
  if Text.allBlank line.toList then return .ok (session, true)
  else if Listing.startsWithNumber line then store journal session line
  else
    match Command.ofLine? line with
    | some command => perform journal dispatches session command
    | none => execute journal dispatches session line

/-- Prompts for lines and handles them until one of them ends the editor, or
up to the end of input. -/
def turns (journal : Journal) (dispatches : Nat) : (lines : Nat) → Session →
    Act (Session × Option Crash)
  | 0, session => return (session, none)
  | lines + 1, session => do
      Act.write (promptFor session.listing)
      Act.flush
      match ← Act.readLine session.listing.list with
      | none =>
          Act.write "\n"
          return (session, none)
      | some line =>
          match ← handle journal dispatches session (withoutLineEnd line) with
          | .error crash => return (session, some crash)
          | .ok (session, true) => turns journal dispatches lines session
          | .ok (session, false) => return (session, none)

/-- Runs the editor on a session, for a number of lines at most.  While it
runs, what programs put out appears on standard output. -/
def interact (journal : Journal) (dispatches lines : Nat) (session : Session) :
    Act (Session × Option Crash) := do
  let (session, crash) ←
    turns journal dispatches lines (session.addEcho consoleEcho)
  let session := (session.removeEcho? consoleEcho).getD session
  match crash with
  | some crash => return (session, some crash)
  | none =>
      Act.write farewell
      Act.flush
      return (session, none)

end Editor

end NumberedBasic

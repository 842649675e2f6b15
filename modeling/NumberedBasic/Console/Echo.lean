import NumberedBasic.Console.Journal
import NumberedBasic.Session

/-!
# Running programs on a console

Every entry goes to the echoes of the session as soon as it is written, and
so appears on standard output while the program is still running.
-/

namespace NumberedBasic

/-- Why the program ends without an exit status. -/
inductive Crash where
  | unreadableNumeral
  /-- An option without a value, where a value is taken apart. -/
  | missingValue
  /-- A file is wanted at a path that cannot be one. -/
  | impossiblePath
  | defect (defect : Defect)
  deriving DecidableEq, Repr

/-- The echo that writes to standard output. -/
def consoleEcho : String := "stdout"

/-- Passes an entry on to the echoes. -/
def Echoes.deliver (echoes : Echoes) (entry : String) : Act Unit :=
  echoes.forM fun name =>
    if name = consoleEcho then Act.write entry else pure ()

/-- Tells the notes of a run. -/
def Journal.tell (journal : Journal) (notes : Array Note) : Act Unit :=
  notes.toList.forM fun note => journal.say .debug note.text

namespace Progress

/-- The run with its notes told and done with. -/
def withoutNotes : Progress → Progress
  | running state line => .running { state with notes := #[] } line
  | ended state => .ended { state with notes := #[] }
  | broken defect state => .broken defect { state with notes := #[] }

/-- Follows a run, up to a number of dispatches, passing on what it puts out;
`shown` entries have been passed on before. -/
def follow [Host] (journal : Journal) (echoes : Echoes) (table : Table) :
    (dispatches shown : Nat) → Progress → Act (Option Crash)
  | _, _, ended _ => pure none
  | _, _, broken defect _ => pure (some (.defect defect))
  | 0, _, running _ _ => pure none
  | dispatches + 1, shown, running state line =>
      let progress := advance table (running state line)
      let size := progress.output.size
      if size = shown ∧ progress.state.notes.isEmpty then
        follow journal echoes table dispatches shown progress
      else do
        journal.tell progress.state.notes
        (progress.output.extract shown size).toList.forM echoes.deliver
        follow journal echoes table dispatches size progress.withoutNotes

end Progress

/-- What became of a source text. -/
inductive Execution where
  | finished
  | refused (error : SyntaxError)
  | crashed (crash : Crash)
  deriving DecidableEq, Repr

/-- Runs a program in a fresh state. -/
def Program.perform [Host] (program : Program) (journal : Journal) (echoes : Echoes)
    (dispatches : Nat) : Act Execution := do
  let table := Table.ofProgram program
  let start := Progress.start table
  journal.tell start.state.notes
  match ← start.withoutNotes.follow journal echoes table dispatches 0 with
  | none => return .finished
  | some crash => return .crashed crash

/-- Reads and runs a source text. -/
def Session.execute [Host] (session : Session) (journal : Journal)
    (dispatches : Nat) (source : String) : Act Execution :=
  match Program.parse source with
  | .error (.refused error) => return .refused error
  | .error .unreadableNumeral => return .crashed .unreadableNumeral
  | .ok program => program.perform journal session.echoes dispatches

end NumberedBasic

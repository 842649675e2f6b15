import NumberedBasic.Listing
import NumberedBasic.Machine.Run
import NumberedBasic.Sink
import NumberedBasic.Statement.Parser

/-!
# Sessions

A session holds a stored program and the echoes that hear what its programs
put out.  Every program runs from a fresh state.  A session starts when it is
first used, and may be closed and started again.
-/

namespace NumberedBasic

/-- The result of a run that may take a number of dispatches. -/
def Program.run [Host] (program : Program) (dispatches : Nat) : Progress :=
  Progress.after (Table.ofProgram program) dispatches

structure Session where
  echoes : Echoes
  listing : Listing
  started : Bool
  deriving DecidableEq, Repr

namespace Session

def withEchoes (echoes : Echoes) : Session := ⟨echoes, .empty, false⟩

/-- Starts a session, and tells whether that was necessary. -/
def start (session : Session) : Session × Bool :=
  ({ session with started := true }, !session.started)

def close (session : Session) : Session := { session with started := false }

def addEcho (session : Session) (name : String) : Session :=
  { session with echoes := session.echoes.add name }

def removeEcho? (session : Session) (name : String) : Option Session :=
  (session.echoes.remove? name).map fun echoes =>
    { session with echoes := echoes }

def storeLine (session : Session) (text : String) :
    Except StoreFailure Session :=
  (session.listing.store text).map fun listing =>
    { session with listing := listing }

/-- Erases the stored program. -/
def new (session : Session) : Session := { session with listing := .empty }

end Session

end NumberedBasic

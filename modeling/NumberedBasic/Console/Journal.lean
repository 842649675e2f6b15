import NumberedBasic.Console.Act

/-!
# Log messages

Messages about what the program does, as opposed to its output.  They go to
standard error or to a log file, and debugging messages only where they are
wanted.
-/

namespace NumberedBasic

inductive Severity where
  | debug
  | warning
  | error
  deriving DecidableEq, Repr

def Severity.label : Severity → String
  | debug => "DEBUG"
  | warning => "WARNING"
  | error => "ERROR"

/-- A message as a line of the log. -/
def Severity.line (severity : Severity) (message : String) : String :=
  severity.label ++ ": " ++ message ++ "\n"

/-- Where messages go, and whether debugging messages are among them. -/
structure Journal where
  debug : Bool
  toFile : Bool
  deriving DecidableEq, Repr

namespace Journal

def put (journal : Journal) (text : String) : Act Unit :=
  if journal.toFile then Act.log text else Act.complain text

def say (journal : Journal) (severity : Severity) (message : String) :
    Act Unit :=
  if severity = .debug ∧ journal.debug = false then pure ()
  else journal.put (severity.line message)

/-- A warning from before there was a journal.  A log file takes it together
with the first message after it. -/
def warnFirst (journal : Journal) (message : String) : Act Unit :=
  let text := Severity.warning.line message
  if journal.toFile then Act.logLater text else Act.complain text

end Journal

end NumberedBasic

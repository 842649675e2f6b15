/-!
# What a program asks of its surroundings

An interactive program is a tree: it is done with a result, or it is
interrupted, or it makes a request and goes on according to the reply.  The
same tree is carried out on a real console and on a simulated one, and nothing
in it depends on which.
-/

namespace NumberedBasic

/-- Why a file cannot be used. -/
inductive FileError where
  | notFound
  | notADirectory
  | isADirectory
  | nameTooLong
  | other (number : Nat) (reason : String)
  deriving DecidableEq, Repr

def FileError.number : FileError → Nat
  | notFound => 2
  | notADirectory => 20
  | isADirectory => 21
  | nameTooLong => 36
  | other number _ => number

def FileError.reason : FileError → String
  | notFound => "No such file or directory"
  | notADirectory => "Not a directory"
  | isADirectory => "Is a directory"
  | nameTooLong => "File name too long"
  | other _ reason => reason

/-- What may end a program from outside, in the middle of what it does. -/
inductive Interruption where
  /-- Nobody reads standard output any longer. -/
  | brokenPipe
  /-- The user has had enough. -/
  | keyboard
  deriving DecidableEq, Repr

inductive Request where
  /-- One write to standard output. -/
  | write (text : String)
  /-- Makes sure that what was written has been passed on. -/
  | flush
  /-- One write to standard error. -/
  | complain (text : String)
  /-- A line of standard input, for a user who is editing the given program. -/
  | readLine (program : List String)
  | fileExists (path : String)
  | readFile (path : String)
  /-- Starts a log in the given file, in place of what the file holds. -/
  | openLog (path : String)
  /-- Adds to the log. -/
  | log (text : String)
  /-- Adds to the log together with what is added next, or else when the
  program is over. -/
  | logLater (text : String)
  deriving DecidableEq, Repr

/-- The replies to a request; a line is missing at the end of input. -/
abbrev Request.Reply : Request → Type
  | write _ => Except Interruption Unit
  | flush => Except Interruption Unit
  | complain _ => Unit
  | readLine _ => Except Interruption (Option String)
  | fileExists _ => Bool
  | readFile _ => Except FileError (List UInt8)
  | openLog _ => Except FileError Unit
  | log _ => Unit
  | logLater _ => Unit

inductive Act (α : Type) where
  | done (result : α)
  | interrupted (cause : Interruption)
  | ask (request : Request) (resume : request.Reply → Act α)

namespace Act

variable {α β : Type}

def bind : Act α → (α → Act β) → Act β
  | done result, next => next result
  | interrupted cause, _ => interrupted cause
  | ask request resume, next =>
      ask request fun reply => (resume reply).bind next

instance : Monad Act where
  pure := done
  bind := bind

/-- An outcome as an action: an interruption ends the program, unless
something around it goes on. -/
def ofOutcome : Except Interruption α → Act α
  | .ok result => done result
  | .error cause => interrupted cause

/-- The outcome of an action that is not to end the program if it is
interrupted. -/
def outcome : Act α → Act (Except Interruption α)
  | done result => done (.ok result)
  | interrupted cause => done (.error cause)
  | ask request resume => ask request fun reply => (resume reply).outcome

/-- Carries out a last action, whether or not the first one is
interrupted; it may be interrupted itself. -/
def lastly (first : Act α) (last : Act Unit) : Act α :=
  first.outcome.bind fun outcome => last.bind fun () => ofOutcome outcome

def request (request : Request) : Act request.Reply := ask request done

def write (text : String) : Act Unit :=
  (request (.write text)).bind ofOutcome

def flush : Act Unit := (request .flush).bind ofOutcome

def complain (text : String) : Act Unit := request (.complain text)

def readLine (program : List String) : Act (Option String) :=
  (request (.readLine program)).bind ofOutcome

def fileExists (path : String) : Act Bool := request (.fileExists path)

def readFile (path : String) : Act (Except FileError (List UInt8)) :=
  request (.readFile path)

def openLog (path : String) : Act (Except FileError Unit) :=
  request (.openLog path)

def log (text : String) : Act Unit := request (.log text)

def logLater (text : String) : Act Unit := request (.logLater text)

theorem bind_done (act : Act α) : act.bind done = act := by
  induction act with
  | done result => rfl
  | interrupted cause => rfl
  | ask request resume ih =>
      simp only [bind, ask.injEq, heq_eq_eq, true_and]
      funext reply
      exact ih reply

theorem bind_assoc {γ : Type} (act : Act α) (next : α → Act β)
    (last : β → Act γ) :
    (act.bind next).bind last = act.bind fun result =>
      (next result).bind last := by
  induction act with
  | done result => rfl
  | interrupted cause => rfl
  | ask request resume ih =>
      simp only [bind, ask.injEq, heq_eq_eq, true_and]
      funext reply
      exact ih reply

end Act

end NumberedBasic

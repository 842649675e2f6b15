import NumberedBasic.Launch

/-!
# The program on a real console

The thin outer layer: it answers requests with the files and the standard
streams there are.
-/

namespace NumberedBasic.Console

/-- The number and the reason in an error of the operating system. -/
def fileError : IO.Error → FileError
  | .noFileOrDirectory _ 2 _ => .notFound
  | .inappropriateType _ 20 _ => .notADirectory
  | .inappropriateType _ 21 _ => .isADirectory
  | .permissionDenied _ code reason => .other code.toNat reason
  | .resourceExhausted _ code reason => .other code.toNat reason
  | .invalidArgument _ 36 _ => .nameTooLong
  | .invalidArgument _ code reason => .other code.toNat reason
  | .noFileOrDirectory _ code reason => .other code.toNat reason
  | .inappropriateType _ code reason => .other code.toNat reason
  | .noSuchThing _ code reason => .other code.toNat reason
  | .otherError code reason => .other code.toNat reason
  | error => .other 5 (toString error)

/-- The result of an action on a file. -/
def attempt {α : Type} (action : IO α) : IO (Except FileError α) := do
  match ← action.toBaseIO with
  | .ok result => return .ok result
  | .error error => return .error (fileError error)

def readFile (path : String) : IO (Except FileError (List UInt8)) :=
  attempt do
    let handle ← IO.FS.Handle.mk path .read
    return (← handle.readBinToEnd).toList

/-- A file that is there but cannot be read exists, as a folder does. -/
def fileExists (path : String) : IO Bool := do
  match ← readFile path with
  | .ok _ => return true
  | .error error =>
      return error ≠ .notFound ∧ error ≠ .notADirectory ∧
        error ≠ .nameTooLong

/-- A reply, also if what was to be written no longer has a reader. -/
def whileRead (action : IO Unit) : IO (Except Interruption Unit) := do
  match ← action.toBaseIO with
  | .ok () => return .ok ()
  | .error (.resourceVanished ..) => return .error .brokenPipe
  | .error error => throw error

/-- Answers a request, with `log` the log that was started. -/
def answer (log : IO.Ref (Option IO.FS.Handle)) :
    (request : Request) → IO request.Reply
  | .write text => whileRead do (← IO.getStdout).putStr text
  | .flush => whileRead do (← IO.getStdout).flush
  | .complain text => do
      let stream ← IO.getStderr
      stream.putStr text
      stream.flush
  | .readLine _ => do
      let line ← (← IO.getStdin).getLine
      return .ok (if line.isEmpty then none else some line)
  | .fileExists path => fileExists path
  | .readFile path => readFile path
  | .openLog path => do
      match ← attempt (IO.FS.Handle.mk path .write) with
      | .ok handle =>
          log.set (some handle)
          return .ok ()
      | .error error => return .error error
  | .log text => do
      if let some handle ← log.get then
        handle.putStr text
        handle.flush
  | .logLater text => do
      if let some handle ← log.get then handle.putStr text

/-- Carries a program out. -/
def perform {α : Type} (log : IO.Ref (Option IO.FS.Handle)) :
    Act α → IO (Except Interruption α)
  | .done result => return .ok result
  | .interrupted cause => return .error cause
  | .ask request resume => do perform log (resume (← answer log request))

/-- The configuration file of the user. -/
def systemFile : IO String := do
  let folder ← do
    match ← IO.getEnv "XDG_CONFIG_HOME" with
    | some folder =>
        if folder.isEmpty then homeConfig else pure folder
    | none => homeConfig
  return folder ++ "/linebasic/" ++ Choices.localFile
where
  homeConfig : IO String := do
    return (← IO.getEnv "HOME").getD "~" ++ "/.config"

/-- More than any run of the program lives to see. -/
def limits : Launch.Limits := ⟨0x4000000000000000, 0x4000000000000000⟩

end NumberedBasic.Console

open NumberedBasic in
def main (words : List String) : IO UInt32 := do
  let log ← IO.mkRef none
  let program := Launch.start Console.limits (← Console.systemFile) words
  let result ← Console.perform log (Launch.guarded program)
  if let some handle ← log.get then handle.flush
  match result with
  | .ok (.ok status) => return UInt32.ofNat (status.getD Launch.success)
  | .ok (.error _) =>
      (← IO.getStderr).putStr "The program ended unexpectedly.\n"
      return 1
  | .error _ => return 0

import NumberedBasic.Console.Act
import NumberedBasic.Console.Path
import NumberedBasic.OrderedMap

/-!
# A simulated console

Files and folders below the current folder, the lines of standard input, and
what was written to the standard streams.  Elsewhere in the file system there
are only the folders at its root and the null device.  The reader of standard
output may go away after a number of writes, and in the place of the end of
standard input there may be an interruption.
-/

namespace NumberedBasic

/-- What the user has seen when a line was asked for. -/
structure Prompt where
  written : String
  complaints : String
  program : List String
  deriving DecidableEq, Repr

structure World where
  files : OrderedMap String (List UInt8)
  folders : List String
  input : List String
  /-- What comes instead of the end of input, if anything does. -/
  interruption : Option Interruption
  /-- How many more writes standard output takes, if they are limited. -/
  writesLeft : Option Nat
  /-- The writes to standard output, latest first. -/
  written : List String
  /-- The writes to standard error, latest first. -/
  complaints : List String
  /-- The file of the log. -/
  logPath : Option String
  /-- What waits to be added to the log. -/
  waiting : String
  /-- Latest first. -/
  prompts : List Prompt
  deriving DecidableEq, Repr

namespace World

/-- A console with nothing on it. -/
def blank : World where
  files := .empty
  folders := []
  input := []
  interruption := none
  writesLeft := none
  written := []
  complaints := []
  logPath := none
  waiting := ""
  prompts := []

def output (world : World) : String := String.join world.written.reverse

def errorOutput (world : World) : String :=
  String.join world.complaints.reverse

/-! ## Files and folders -/

/-- The folders at the root of the file system. -/
def rootFolders : List String :=
  ["/bin", "/boot", "/dev", "/etc", "/home", "/lib", "/lib64", "/media",
   "/mnt", "/opt", "/proc", "/root", "/run", "/sbin", "/srv", "/sys", "/tmp",
   "/usr", "/var"]

/-- The file that holds nothing, whatever is written to it. -/
def nullDevice : String := "/dev/null"

def isFolder (world : World) (path : String) : Bool :=
  world.folders.contains path || rootFolders.contains path

def isFile (world : World) (path : String) : Bool :=
  world.files.contains path || path = nullDevice

/-- What a path leads to. -/
inductive Entry where
  | file (name : String)
  | folder
  /-- Nothing, though the folder for it exists. -/
  | vacant (name : String)
  /-- Nothing, and no file can have that name. -/
  | overlong
  | blocked (error : FileError)
  deriving DecidableEq, Repr

/-- Follows the names of a path from a folder at the given place. -/
def follow (world : World) : (place : List String) → List String → Entry
  | _, [] => .folder
  | place, name :: rest =>
      let path := Path.ofNames (place ++ [name])
      if name = "." then world.follow place rest
      else if name = ".." then world.follow (Path.around place) rest
      else if Path.longestName < name.utf8ByteSize then
        if rest.isEmpty then .overlong else .blocked .nameTooLong
      else if world.isFolder path then world.follow (place ++ [name]) rest
      else if world.isFile path then
        if rest.isEmpty then .file path else .blocked .notADirectory
      else if rest.isEmpty then .vacant path
      else .blocked .notFound

def find (world : World) (path : String) : Entry :=
  if path.isEmpty then .blocked .notFound
  else if Path.longest < path.utf8ByteSize then .blocked .nameTooLong
  else world.follow (Path.origin path) (Path.names path)

/-- What a file holds. -/
def content (world : World) (name : String) : List UInt8 :=
  (world.files.get? name).getD []

def store (world : World) (name : String) (bytes : List UInt8) : World :=
  if name = nullDevice then world
  else { world with files := world.files.insert name bytes }

def read (world : World) (path : String) : Except FileError (List UInt8) :=
  match world.find path with
  | .file name =>
      if Path.namesFolder path then .error .notADirectory
      else .ok (world.content name)
  | .folder => .error .isADirectory
  | .vacant _ => .error .notFound
  | .overlong => .error .nameTooLong
  | .blocked error => .error error

def exists? (world : World) (path : String) : Bool :=
  match world.find path with
  | .file _ => !Path.namesFolder path
  | .folder => true
  | _ => false

/-! ## The log -/

/-- Starts a log.  A path that ends with a slash is never taken for the path
of a new file. -/
def openLog (world : World) (path : String) : Except FileError Unit × World :=
  match world.find path, Path.namesFolder path with
  | .blocked error, _ => (.error error, world)
  | .folder, _ | _, true => (.error .isADirectory, world)
  | .overlong, false => (.error .nameTooLong, world)
  | .file name, false | .vacant name, false =>
      (.ok (), { world.store name [] with logPath := some name })

/-- Adds what waits for the log, and then a message, to its file. -/
def log (world : World) (text : String) : World :=
  match world.logPath with
  | none => world
  | some name =>
      let bytes := (world.waiting ++ text).toUTF8.toList
      { world.store name (world.content name ++ bytes) with waiting := "" }

/-! ## Requests -/

/-- Standard output still takes what is written. -/
def isOpen (world : World) : Bool := world.writesLeft ≠ some 0

/-- The reply to a request. -/
def answer (world : World) : (request : Request) → request.Reply × World
  | .write text =>
      if world.isOpen then
        (.ok (), { world with
          writesLeft := world.writesLeft.map (· - 1)
          written := text :: world.written })
      else (.error .brokenPipe, world)
  | .flush =>
      (if world.isOpen then .ok () else .error .brokenPipe, world)
  | .complain text =>
      ((), { world with complaints := text :: world.complaints })
  | .readLine program =>
      let prompt : Prompt := ⟨world.output, world.errorOutput, program⟩
      let world := { world with prompts := prompt :: world.prompts }
      match world.input, world.interruption with
      | line :: rest, _ => (.ok (some line), { world with input := rest })
      | [], none => (.ok none, world)
      | [], some cause => (.error cause, world)
  | .fileExists path => (world.exists? path, world)
  | .readFile path => (world.read path, world)
  | .openLog path => world.openLog path
  | .log text => ((), world.log text)
  | .logLater text =>
      ((), { world with waiting := world.waiting ++ text })

variable {α : Type}

/-- Carries actions out. -/
def perform (world : World) : Act α → Except Interruption α × World
  | .done result => (.ok result, world)
  | .interrupted cause => (.error cause, world)
  | .ask request resume =>
      (world.answer request).2.perform (resume (world.answer request).1)

/-- Carries a whole program out.  When it is over, nothing waits for the log
any longer. -/
def run (act : Act α) (world : World) : Except Interruption α × World :=
  let (result, world) := world.perform act
  (result, world.log "")

end World

end NumberedBasic

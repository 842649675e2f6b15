import NumberedBasic.OrderedMap
import NumberedBasic.Text.Letter
import NumberedBasic.Text.Utf8

/-!
# Configuration files

A configuration file consists of sections of options.  A header in square
brackets begins a section; an option is a name, and after an equals sign or a
colon its value, which goes on over the lines that are indented more deeply.
Lines that begin with a number sign or a semicolon are comments.  What the
section of common options holds is part of every section.
-/

namespace NumberedBasic

/-- Options by name, in lower case; an option may lack a value. -/
abbrev Section := OrderedMap String (Option String)

/-- Sections by name. -/
abbrev Sections := OrderedMap String Section

namespace Sections

/-- Why a text has no sections. -/
inductive Failure where
  | malformed
  /-- A line that goes on with a value which is not there. -/
  | missingValue
  deriving DecidableEq, Repr

/-- The section whose options all sections share. -/
def commonName : String := "DEFAULT"

/-- An option while its value is being read: its lines, latest first. -/
abbrev Draft := OrderedMap String (Option (List String))

/-- Sections up to some line of the file. -/
structure Reading where
  drafts : OrderedMap String Draft
  /-- The section at hand; none before the first header. -/
  header : Option String
  /-- The option at hand. -/
  option : Option String
  /-- The indentation of the line that began it. -/
  indentation : Nat
  /-- An option without a name has been met. -/
  faulty : Bool
  deriving DecidableEq, Repr

namespace Reading

def start : Reading := ⟨.empty, none, none, 0, false⟩

/-! ## The value at hand -/

def draft (reading : Reading) (header : String) : Draft :=
  (reading.drafts.get? header).getD .empty

/-- The value of the option at hand, if there is one. -/
def value? (reading : Reading) : Option (Option (List String)) :=
  match reading.header, reading.option with
  | some header, some option => (reading.draft header).get? option
  | _, _ => none

def assign (reading : Reading) (header option : String)
    (value : Option (List String)) : Reading :=
  { reading with
    drafts := reading.drafts.insert header
      ((reading.draft header).insert option value) }

/-- Adds a line to the value of the option at hand. -/
def addLine (reading : Reading) (line : String) : Except Failure Reading :=
  match reading.header, reading.option, reading.value? with
  | some header, some option, some (some lines) =>
      .ok (reading.assign header option (some (line :: lines)))
  | _, _, _ => .error .missingValue

/-! ## Lines -/

/-- The name in a header; what follows the last bracket is ignored. -/
def headerName? : List Char → Option String
  | '[' :: text =>
      match text.reverse.dropWhile (· ≠ ']') with
      | _ :: c :: before => some (String.ofList (c :: before).reverse)
      | _ => none
  | _ => none

def isDelimiter (c : Char) : Bool := c = '=' || c = ':'

/-- The name and the value of an option. -/
def splitOption (text : List Char) : String × Option String :=
  let name := Text.lowerCase (String.ofList
    (Text.trimRight (text.takeWhile fun c => !isDelimiter c)))
  match text.dropWhile fun c => !isDelimiter c with
  | _ :: value => (name, some (String.ofList (Text.trim value)))
  | [] => (name, none)

def isComment (text : List Char) : Bool :=
  text.head? = some '#' || text.head? = some ';'

/-- Begins a section.  The common section may be begun again. -/
def beginSection (reading : Reading) (name : String) :
    Except Failure Reading :=
  if reading.drafts.contains name then
    if name = commonName then
      .ok { reading with header := some name, option := none }
    else .error .malformed
  else
    .ok { reading with
      drafts := reading.drafts.insert name .empty
      header := some name
      option := none }

/-- Begins an option.  One without a name spoils the file, but only at its
end. -/
def beginOption (reading : Reading) (text : List Char) :
    Except Failure Reading :=
  match reading.header with
  | none => .error .malformed
  | some header =>
      let (name, value) := splitOption text
      if (reading.draft header).contains name then .error .malformed
      else
        .ok { reading.assign header name (value.map fun line => [line]) with
          option := if name.isEmpty then none else some name
          faulty := reading.faulty || name.isEmpty }

/-- Reads a line.  Spaces and tabs at its start do not count as
indentation, other blank characters do. -/
def line (reading : Reading) (line : List Char) : Except Failure Reading :=
  let line := line.dropWhile fun c => c = ' ' || c = '\t'
  let text := Text.trim line
  let indentation := (line.takeWhile Text.isBlank).length
  if isComment text then .ok reading
  else if text.isEmpty then
    match reading.value? with
    | some (some _) => reading.addLine ""
    | _ => .ok reading
  else if reading.option.isSome && reading.indentation < indentation then
    reading.addLine (String.ofList text)
  else
    let reading := { reading with indentation := indentation }
    match headerName? text with
    | some name => reading.beginSection name
    | none => reading.beginOption text

/-! ## The end of the file -/

/-- The lines of a value put together. -/
def finishValue (lines : List String) : String :=
  String.ofList
    (Text.trimRight ("\n".intercalate lines.reverse).toList)

def finishDraft (draft : Draft) : Section :=
  ⟨draft.entries.map fun (name, value) => (name, value.map finishValue)⟩

def finish (reading : Reading) : Except Failure Sections :=
  if reading.faulty then .error .malformed
  else
    let common := finishDraft (reading.draft commonName)
    .ok ⟨(reading.drafts.entries.filter fun entry =>
        entry.1 ≠ commonName).map fun (name, draft) =>
      (name, common.update (finishDraft draft))⟩

end Reading

def ofLines (lines : List (List Char)) : Except Failure Sections := do
  (← lines.foldlM Reading.line Reading.start).finish

/-- The sections of a file, given its bytes. -/
def ofBytes (bytes : List UInt8) : Except Failure Sections :=
  ofLines (Text.linesOf (Text.unifyLineEnds
    (Text.decodeUtf8 (Text.dropMark bytes))))

end Sections

end NumberedBasic

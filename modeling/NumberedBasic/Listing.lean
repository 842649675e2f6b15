import NumberedBasic.Text.Digit
import NumberedBasic.Text.Quoted

/-!
# The stored program

Numbered source lines as they are being edited, in ascending order.  A line
typed with a number replaces the line of that number; a number on its own
deletes it.  A line is kept as its number, one space and its code without
the blanks around it.
-/

namespace NumberedBasic

structure Listing where
  /-- Numbers and code, in strictly ascending order of number. -/
  lines : List (Nat × String)
  /-- The number that was last stored or deleted. -/
  lastStored : Option Nat
  deriving DecidableEq, Repr

/-- Why a text is not stored. -/
inductive StoreFailure where
  | unnumbered (text : String)
  /-- A line number that is too long to be converted. -/
  | unreadableNumeral
  deriving DecidableEq, Repr

/-- What is said about a text that has no number to store it under. -/
def unnumberedMessage (text : String) : String :=
  "Line does not start with a line number: " ++ Text.quoted text

namespace Listing

def empty : Listing := ⟨[], none⟩

/-- The digits that a text starts with, blanks aside, and what follows. -/
def splitNumber (text : String) : List Char × List Char :=
  let text := Text.trimLeft text.toList
  (text.takeWhile Text.isDigit, text.dropWhile Text.isDigit)

/-- The text starts with a line number. -/
def startsWithNumber (text : String) : Bool :=
  !(splitNumber text).1.isEmpty

/-- The number and the code of a numbered text. -/
def numbered (text : String) : Except StoreFailure (Nat × String) :=
  let (digits, rest) := splitNumber text
  if digits.isEmpty then .error (.unnumbered text)
  else
    match Text.wholeNumber? digits with
    | some number => .ok (number, String.ofList (Text.trim rest))
    | none => .error .unreadableNumeral

def insertLine (number : Nat) (code : String) :
    List (Nat × String) → List (Nat × String)
  | [] => [(number, code)]
  | (other, old) :: rest =>
      if number < other then (number, code) :: (other, old) :: rest
      else if number = other then (number, code) :: rest
      else (other, old) :: insertLine number code rest

def contains (listing : Listing) (number : Nat) : Bool :=
  listing.lines.any (·.1 = number)

/-- Stores code under a number, or deletes the line if there is no code. -/
def put (listing : Listing) (number : Nat) (code : String) : Listing where
  lines :=
    if code.isEmpty then listing.lines.filter (·.1 ≠ number)
    else insertLine number code listing.lines
  lastStored := some number

/-- Stores, replaces or deletes a numbered line. -/
def store (listing : Listing) (text : String) : Except StoreFailure Listing :=
  (numbered text).map fun (number, code) => listing.put number code

/-- A stored line as it is listed. -/
def lineText (line : Nat × String) : String := toString line.1 ++ " " ++ line.2

/-- The lines from one number up to another, in ascending order. -/
def between (listing : Listing) (low high : Option Int) : List String :=
  (listing.lines.filter fun line =>
    low.all (· ≤ (line.1 : Int)) && high.all ((line.1 : Int) ≤ ·)).map lineText

def list (listing : Listing) : List String := listing.lines.map lineText

/-- The source text of the stored program. -/
def source (listing : Listing) : String := "\n".intercalate listing.list

end Listing

end NumberedBasic

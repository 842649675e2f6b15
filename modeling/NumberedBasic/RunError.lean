/-!
# Run-time errors

The causes that stop a running program, their numbers, and their wording.
A diagnostic is a cause together with the line it is reported for.
-/

namespace NumberedBasic

/-- The numbered kinds of run-time error. -/
inductive ErrorCode where
  | nextWithoutFor
  | outOfData
  | illegalFunctionCall
  | outOfMemory
  | undefinedLineNumber
  | divisionByZero
  | typeMismatch
  | internalError
  | undefinedArray
  deriving DecidableEq, Repr

namespace ErrorCode

def all : List ErrorCode :=
  [nextWithoutFor, outOfData, illegalFunctionCall, outOfMemory,
   undefinedLineNumber, divisionByZero, typeMismatch, internalError,
   undefinedArray]

def number : ErrorCode → Int
  | nextWithoutFor => 1
  | outOfData => 4
  | illegalFunctionCall => 5
  | outOfMemory => 7
  | undefinedLineNumber => 8
  | divisionByZero => 11
  | typeMismatch => 13
  | internalError => 51
  | undefinedArray => 100

def title : ErrorCode → String
  | nextWithoutFor => "NEXT without FOR"
  | outOfData => "Out of DATA"
  | illegalFunctionCall => "Illegal function call"
  | outOfMemory => "Out of memory"
  | undefinedLineNumber => "Undefined line number"
  | divisionByZero => "Division by zero"
  | typeMismatch => "Type mismatch"
  | internalError => "Internal error"
  | undefinedArray => "Undefined array"

def ofNumber? (number : Int) : Option ErrorCode :=
  all.find? fun code => code.number = number

/-- The title of an error number; numbers without an error have one too. -/
def titleOf (number : Int) : String :=
  match ofNumber? number with
  | some code => code.title
  | none => "Unprintable error"

theorem ofNumber?_number (code : ErrorCode) :
    ofNumber? code.number = some code := by
  cases code <;> rfl

end ErrorCode

/-- What a value is needed for where only a number will do. -/
inductive NumericUse where
  | arrayIndex
  | arrayDimension
  | loopBound
  deriving DecidableEq, Repr

def NumericUse.demand : NumericUse → String
  | arrayIndex => "array indices must be numbers"
  | arrayDimension => "array dimensions must be numbers"
  | loopBound => "FOR loop bounds must be numbers"

/-- Why a statement stopped the program. -/
inductive RunError where
  /-- No loop is open, or none on the given variable. -/
  | nextWithoutFor (name : Option String)
  | outOfData
  | negativeDimension
  | outOfMemory (array : String)
  /-- Where a jump names no number, it looks for an unnumbered statement. -/
  | undefinedLine (target : Option Int)
  | divisionByZero
  | notANumber (use : Option NumericUse)
  | unknownKind (kind : String)
  | undefinedArray (array : String)
  deriving DecidableEq, Repr

namespace RunError

def code : RunError → ErrorCode
  | nextWithoutFor _ => .nextWithoutFor
  | outOfData => .outOfData
  | negativeDimension => .illegalFunctionCall
  | outOfMemory _ => .outOfMemory
  | undefinedLine _ => .undefinedLineNumber
  | divisionByZero => .divisionByZero
  | notANumber _ => .typeMismatch
  | unknownKind _ => .internalError
  | undefinedArray _ => .undefinedArray

def detail : RunError → Option String
  | nextWithoutFor name => name
  | outOfData => none
  | negativeDimension => some "negative array dimension"
  | outOfMemory array => some array
  | undefinedLine target => target.map toString
  | divisionByZero => none
  | notANumber use => use.map NumericUse.demand
  | unknownKind kind => some kind
  | undefinedArray array => some array

/-- A title with its detail. -/
def phrase (title : String) : Option String → String
  | some detail => title ++ ": " ++ detail
  | none => title

def message (error : RunError) : String := phrase error.code.title error.detail

end RunError

/-- An error message as reported for a line, or for none if the statement is
unnumbered. -/
structure Diagnostic where
  message : String
  line : Option Int
  deriving DecidableEq, Repr

/-- The entry that ends the output of a failed run. -/
def Diagnostic.text (diagnostic : Diagnostic) : String :=
  match diagnostic.line with
  | some line =>
      "Runtime Error: " ++ diagnostic.message ++ " in " ++ toString line ++ "\n"
  | none => "Runtime Error: " ++ diagnostic.message ++ "\n"

end NumberedBasic

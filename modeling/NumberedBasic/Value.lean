import NumberedBasic.Decimal.Layout
import NumberedBasic.Decimal.Literal
import NumberedBasic.RunError
import NumberedBasic.Text.Quoted

/-!
# Values

The numbers and texts that a program computes with, and how one kind is read
as the other: a number is rendered in its printed layout, and a text is read
as the number it starts with.
-/

namespace NumberedBasic

/-- A double or a text. -/
inductive Value where
  | number (x : Float)
  | text (s : String)
  deriving DecidableEq

namespace Value

def zero : Value := number 0
def empty : Value := text ""

/-- One for true and zero for false. -/
def ofBool (condition : Bool) : Value := number (if condition then 1 else 0)

/-- What a variable holds before it is assigned; a trailing dollar sign marks
the variables meant for text. -/
def initial (name : String) : Value :=
  if name.toList.getLast? = some '$' then empty else zero

/-- The rendered text of a value. -/
def render : Value → String
  | number x => Decimal.text Decimal.printed x
  | text s => s

/-- The numeric reading of a value; it never fails. -/
def toNumber : Value → Float
  | number x => x
  | text s => Decimal.leadingNumber s.toList

/-- Nonzero numbers and nonempty texts count as true. -/
def isTrue : Value → Bool
  | number x => x != 0
  | text s => s != ""

/-- The number held by a value that must be numeric. -/
def expectNumber (use : Option NumericUse) : Value → Except RunError Float
  | number x => .ok x
  | text _ => .error (.notANumber use)

/-- Equality of values of one kind; numbers are compared as doubles, so that
the two zeros are equal and an undefined number differs from itself. -/
def same : Value → Value → Bool
  | number x, number y => x == y
  | text s, text t => s == t
  | _, _ => false

/-- A hash that equal values share. -/
def hashCode : Value → UInt64
  | number x => mixHash 1 (hash (if x == 0 then 0 else x.toBits))
  | text s => mixHash 2 (hash s)

/-- The form of a value in debugging texts. -/
def debugText : Value → String
  | number x => "Number(" ++ Decimal.text Decimal.debugging x ++ ")"
  | text s => "String(" ++ Text.quoted s ++ ")"

end Value

/-! ## Whole numbers as array positions -/

/-- The magnitude of a finite double, rounded down to a whole number. -/
def wholeMagnitude (x : Float) : Nat :=
  let magnitude := Decimal.Binary.ofBits x.toBits
  if 0 ≤ magnitude.power then
    magnitude.mantissa * Nat.pow 2 magnitude.power.toNat
  else magnitude.mantissa / Nat.pow 2 (-magnitude.power).toNat

/-- A double rounded toward zero; what is not finite is out of every range
and becomes minus one. -/
def truncate (x : Float) : Int :=
  if x.isNaN || x.isInf then -1
  else if x < 0 then -(wholeMagnitude x : Int)
  else wholeMagnitude x

/-- A value as an index or a dimension. -/
def Value.toIndex (use : NumericUse) (value : Value) : Except RunError Int :=
  (value.expectNumber (some use)).map truncate

end NumberedBasic

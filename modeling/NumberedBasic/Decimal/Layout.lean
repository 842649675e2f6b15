import NumberedBasic.Decimal.Shortest

/-!
# Layouts of numbers

How digits and a point position become text.  The choices of a layout are
collected in one record; the program has two, one for everything a BASIC
program prints and one for debugging texts.
-/

namespace NumberedBasic.Decimal

/-- The choices in which two ways of writing a number may differ. -/
structure Layout where
  /-- The greatest point position written without an exponent. -/
  positionalUpTo : Int
  /-- Point positions must be above this one to go without an exponent. -/
  positionalAbove : Int
  /-- What follows a whole number that is written without an exponent. -/
  wholeMark : String
  /-- Exponents have at least this many digits. -/
  exponentWidth : Nat
  zero : String
  negativeZero : String
  notANumber : String
  infinity : String
  deriving DecidableEq, Repr

/-- The layout of printed numbers.  Positional from a millionth up to below
`10 ^ 21`; both zeros are written alike. -/
def printed : Layout where
  positionalUpTo := 21
  positionalAbove := -6
  wholeMark := ""
  exponentWidth := 1
  zero := "0"
  negativeZero := "0"
  notANumber := "NaN"
  infinity := "Infinity"

/-- The layout of debugging texts.  Positional from a ten-thousandth up to
below `10 ^ 16`, and a number is never mistaken for a whole one. -/
def debugging : Layout where
  positionalUpTo := 16
  positionalAbove := -4
  wholeMark := ".0"
  exponentWidth := 2
  zero := "0.0"
  negativeZero := "-0.0"
  notANumber := "nan"
  infinity := "inf"

def zeros (count : Nat) : List Char := List.replicate count '0'

/-- An exponent with its sign, padded with zeros. -/
def exponentText (width : Nat) (exponent : Int) : List Char :=
  let digits := digitsOf exponent.natAbs
  (if exponent < 0 then '-' else '+') :: zeros (width - digits.length) ++ digits

def scientific (layout : Layout) (number : Expansion) : List Char :=
  number.digits.take 1 ++
    (if 1 < number.digits.length then '.' :: number.digits.drop 1 else []) ++
    'e' :: exponentText layout.exponentWidth (number.point - 1)

/-- Digits without an exponent, with zeros up to the point or after it. -/
def positional (layout : Layout) (number : Expansion) : List Char :=
  if number.digits.length ≤ number.point then
    number.digits ++ zeros (number.point.toNat - number.digits.length) ++
      layout.wholeMark.toList
  else if 0 < number.point then
    number.digits.take number.point.toNat ++
      '.' :: number.digits.drop number.point.toNat
  else '0' :: '.' :: zeros (-number.point).toNat ++ number.digits

/-- The text of a magnitude. -/
def Expansion.text (layout : Layout) (number : Expansion) : List Char :=
  if layout.positionalAbove < number.point ∧
      number.point ≤ layout.positionalUpTo then positional layout number
  else scientific layout number

/-- The text of a double. -/
def text (layout : Layout) (x : Float) : String :=
  if x.isNaN then layout.notANumber
  else if x.isInf then
    if x < 0 then "-" ++ layout.infinity else layout.infinity
  else if x == 0 then
    if x.toBits = 0 then layout.zero else layout.negativeZero
  else
    let magnitude := (shortest x).text layout
    String.ofList (if x < 0 then '-' :: magnitude else magnitude)

end NumberedBasic.Decimal

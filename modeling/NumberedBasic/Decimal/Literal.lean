import NumberedBasic.Decimal.Nearest
import NumberedBasic.Text.Digit

/-!
# Decimal literals in text

A literal is an optional sign and either the word `Infinity` or decimal
digits with an optional point and an optional exponent.  `Literal.scan?`
takes the longest literal at the start of a text; `leadingNumber` is the
number read from a text, which skips blanks and never fails.
-/

namespace NumberedBasic.Decimal

open Text

/-- What follows the sign of a literal. -/
inductive Magnitude where
  | infinity
  /-- Digits before the point, digits after it, and the exponent. -/
  | decimal (whole fraction : List Char) (exponent : Int)
  deriving DecidableEq, Repr

structure Literal where
  negative : Bool
  magnitude : Magnitude
  deriving DecidableEq, Repr

/-- A sign that may be missing, and what follows it. -/
def scanSign : List Char → Bool × List Char
  | '-' :: rest => (true, rest)
  | '+' :: rest => (false, rest)
  | text => (false, text)

/-- Digits after an exponent mark; without any digit there is no exponent
and nothing is taken. -/
def scanExponent (text : List Char) : Int × List Char :=
  match text with
  | mark :: after =>
      if mark = 'e' ∨ mark = 'E' then
        let (negative, rest) := scanSign after
        let digits := rest.takeWhile isDigit
        if digits.isEmpty then (0, text)
        else
          let value : Int := numeralValue digits
          (if negative then -value else value, rest.dropWhile isDigit)
      else (0, text)
  | [] => (0, [])

/-- Digits with an optional point; one digit at least is needed. -/
def scanMantissa? (text : List Char) :
    Option (List Char × List Char × List Char) :=
  let whole := text.takeWhile isDigit
  match whole, text.dropWhile isDigit with
  | [], '.' :: rest =>
      let fraction := rest.takeWhile isDigit
      if fraction.isEmpty then none
      else some ([], fraction, rest.dropWhile isDigit)
  | [], _ => none
  | whole, '.' :: rest =>
      some (whole, rest.takeWhile isDigit, rest.dropWhile isDigit)
  | whole, rest => some (whole, [], rest)

def infinityWord : List Char := "Infinity".toList

def scanMagnitude? (text : List Char) : Option (Magnitude × List Char) :=
  if infinityWord.isPrefixOf text then
    some (.infinity, text.drop infinityWord.length)
  else
    (scanMantissa? text).map fun (whole, fraction, rest) =>
      let (exponent, rest) := scanExponent rest
      (.decimal whole fraction exponent, rest)

/-- The longest literal at the start of a text, and what follows it. -/
def Literal.scan? (text : List Char) : Option (Literal × List Char) :=
  let (negative, rest) := scanSign text
  (scanMagnitude? rest).map fun (magnitude, rest) =>
    (⟨negative, magnitude⟩, rest)

/-- The double nearest to what a magnitude denotes. -/
def Magnitude.toFloat : Magnitude → Float
  | .infinity => infinite
  | .decimal whole fraction exponent =>
      nearest (numeralValue (whole ++ fraction)) (exponent - fraction.length)

def Literal.toFloat (literal : Literal) : Float :=
  if literal.negative then -literal.magnitude.toFloat
  else literal.magnitude.toFloat

/-- The number that a text starts with, blanks aside, or zero. -/
def leadingNumber (text : List Char) : Float :=
  match Literal.scan? (trimLeft text) with
  | some (literal, _) => literal.toFloat
  | none => 0

/-! ## Whole texts -/

/-- The undefined number. -/
def undefined : Float := 0.0 / 0.0

/-- Every underscore stands between two digits; `afterDigit` tells of the
character before. -/
def separatorsFit : (afterDigit : Bool) → List Char → Bool
  | _, [] => true
  | afterDigit, '_' :: rest =>
      afterDigit && (rest.head?.any isDigit) && separatorsFit false rest
  | _, c :: rest => separatorsFit (isDigit c) rest

/-- A number known by name, in any letter case. -/
def namedMagnitude? (text : List Char) : Option Float :=
  match String.ofList (text.map Char.toLower) with
  | "inf" => some infinite
  | "infinity" => some infinite
  | "nan" => some undefined
  | _ => none

/-- Blanks other than the control characters that separate records. -/
def isMargin (c : Char) : Bool := isBlank c && !inRanges [(0x1c, 0x1f)] c.toNat

/-- A text without the blanks at its ends. -/
def withoutMargins (text : List Char) : List Char :=
  ((text.dropWhile isMargin).reverse.dropWhile isMargin).reverse

/-- The number that a whole text denotes, blanks at its ends aside.  Digits
may be kept apart by underscores. -/
def entireNumber? (text : List Char) : Option Float :=
  let text := withoutMargins text
  let (negative, rest) := scanSign text
  match namedMagnitude? rest with
  | some x => some (if negative then -x else x)
  | none =>
      if separatorsFit false text then
        match Literal.scan? (text.filter (· ≠ '_')) with
        | some (literal, []) => some literal.toFloat
        | _ => none
      else none

end NumberedBasic.Decimal

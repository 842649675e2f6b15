import NumberedBasic.Decimal.Shortest

/-!
# The double nearest to a decimal

Reading a decimal gives the nearest double.  Exponents far outside the range
of doubles are settled by the position of the leading digit, so that no
power of ten of that size is ever formed.
-/

namespace NumberedBasic.Decimal

/-- Positive infinity. -/
def infinite : Float := Float.ofBits 0x7ff0000000000000

/-- The double nearest to `mantissa * 10 ^ exponent`. -/
def nearest (mantissa : Nat) (exponent : Int) : Float :=
  if mantissa = 0 then 0
  else
    let point := ((digitsOf mantissa).length : Int) + exponent
    if 310 < point then infinite
    else if point < -330 then 0
    else if exponent < 0 then
      Float.ofScientific mantissa true exponent.natAbs
    else Float.ofScientific mantissa false exponent.natAbs

end NumberedBasic.Decimal

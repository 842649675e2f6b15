/-!
# Shortest decimal digits of a double

Every finite double is a whole number times a power of two, and so has a
finite decimal expansion.  The digits kept are the fewest for which the
decimal still lies among the reals that round to the double; of two such
decimals the nearer is taken, and a tie goes to the even digit.  Everything is
computed exactly on natural numbers.
-/

namespace NumberedBasic.Decimal

/-- A finite nonzero magnitude `mantissa * 2 ^ power`. -/
structure Binary where
  mantissa : Nat
  power : Int
  /-- The gap to the next smaller double is half the gap to the next larger. -/
  narrowBelow : Bool
  deriving DecidableEq, Repr

/-- The number of fractions that a double can have. -/
def fractionSize : Nat := 0x10000000000000

/-- The magnitude of a finite double, read from its bits. -/
def Binary.ofBits (bits : UInt64) : Binary :=
  let field : Nat := bits.toNat / fractionSize % 2048
  let fraction : Nat := bits.toNat % fractionSize
  if field = 0 then ⟨fraction, -1074, false⟩
  else
    ⟨fractionSize + fraction, (field : Int) - 1075,
      decide (fraction = 0 ∧ 1 < field)⟩

/-- The number `0.d₁d₂… * 10 ^ point` for decimal digits `d₁`, `d₂`, …. -/
structure Expansion where
  digits : List Char
  point : Int
  deriving DecidableEq, Repr

/-- The interval of reals that round to a double, and the double itself, as
whole multiples of `10 ^ (-scale)`. -/
structure Interval where
  low : Nat
  value : Nat
  high : Nat
  /-- Both ends round to the double as well. -/
  closed : Bool
  scale : Nat
  deriving DecidableEq, Repr

/-- Quarters of the gap between doubles are whole multiples of a power of ten,
since `2 ^ (-k) = 5 ^ k / 10 ^ k`. -/
def Binary.interval (magnitude : Binary) : Interval :=
  let quarter := magnitude.power - 2
  let unit :=
    if 0 ≤ quarter then Nat.pow 2 quarter.toNat
    else Nat.pow 5 (-quarter).toNat
  { low := (4 * magnitude.mantissa - if magnitude.narrowBelow then 1 else 2) *
      unit
    value := 4 * magnitude.mantissa * unit
    high := (4 * magnitude.mantissa + 2) * unit
    closed := magnitude.mantissa % 2 = 0
    scale := (-quarter).toNat }

def Interval.contains (interval : Interval) (candidate : Nat) : Bool :=
  if interval.closed then
    interval.low ≤ candidate && candidate ≤ interval.high
  else interval.low < candidate && candidate < interval.high

/-- The decimal digits of a whole number. -/
def digitsOf (value : Nat) : List Char := Nat.toDigits 10 value

/-- The nearest acceptable multiple of a grid, as a number of grid units. -/
def Interval.onGrid? (interval : Interval) (grid : Nat) : Option Nat :=
  let below := interval.value / grid
  let excess := interval.value % grid
  let lowHit := interval.contains (below * grid)
  let highHit := interval.contains ((below + 1) * grid)
  if lowHit && highHit then
    if 2 * excess < grid ∨ (2 * excess = grid ∧ below % 2 = 0) then some below
    else some (below + 1)
  else if lowHit then some below
  else if highHit then some (below + 1)
  else none

/-- Tries grids from coarse to fine; the finest is the exact value. -/
def Interval.search (interval : Interval) : (places : Nat) → Nat × Nat
  | 0 => (interval.value, 0)
  | places + 1 =>
      match interval.onGrid? (10 ^ (places + 1)) with
      | some units => (units, places + 1)
      | none => interval.search places

def dropTrailingZeros (digits : List Char) : List Char :=
  (digits.reverse.dropWhile (· = '0')).reverse

def Interval.shortest (interval : Interval) : Expansion :=
  let found := interval.search ((digitsOf interval.value).length - 1)
  let digits := digitsOf found.1
  { digits := dropTrailingZeros digits
    point := (digits.length : Int) + found.2 - interval.scale }

/-- The shortest digits of the magnitude of a finite nonzero double. -/
def shortest (x : Float) : Expansion :=
  (Binary.ofBits x.toBits).interval.shortest

end NumberedBasic.Decimal

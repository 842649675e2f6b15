/-!
# The host of a program

What a program comes to depends on the host in two ways: on how deeply the
parser may nest and on which arrays can be allocated.  Everything here is about
any host, apart from examples with a fixed input, which are about the usual one.
-/

namespace NumberedBasic

class Host where
  /-- How many rules of the parser may be entered one inside another; those of
  a statement may be. -/
  nesting : Nat
  three_le_nesting : 3 ≤ nesting
  /-- Whether as many cells can be allocated. -/
  hasRoom : (cells : Int) → Bool

/-- A host with a stack of about a thousand calls, and arrays of up to two to
the power of 27 cells. -/
instance Host.usual : Host where
  nesting := 980
  three_le_nesting := by decide
  hasRoom cells := cells ≤ 0x8000000

end NumberedBasic

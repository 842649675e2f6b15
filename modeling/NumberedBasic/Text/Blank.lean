/-!
# Blank characters

White space as the Unicode standard counts it, which is what numeric
coercion, the line buffer and the option reader skip.  The lexer skips a
smaller class of its own, see `Token.Lexer`.
-/

namespace NumberedBasic.Text

/-- The closed code point ranges of the blank characters. -/
def blankRanges : List (Nat × Nat) :=
  [(0x09, 0x0d), (0x1c, 0x20), (0x85, 0x85), (0xa0, 0xa0), (0x1680, 0x1680),
   (0x2000, 0x200a), (0x2028, 0x2029), (0x202f, 0x202f), (0x205f, 0x205f),
   (0x3000, 0x3000)]

/-- Membership of a code point in a list of closed ranges. -/
def inRanges (ranges : List (Nat × Nat)) (code : Nat) : Bool :=
  ranges.any fun range => range.1 ≤ code && code ≤ range.2

def isBlank (c : Char) : Bool := inRanges blankRanges c.toNat

def trimLeft (text : List Char) : List Char := text.dropWhile isBlank

def trimRight (text : List Char) : List Char :=
  (text.reverse.dropWhile isBlank).reverse

def trim (text : List Char) : List Char := trimRight (trimLeft text)

/-- Nothing but blank characters, or nothing at all. -/
def allBlank (text : List Char) : Bool := text.all isBlank

/-- Text without the blank characters at its two ends. -/
def stripped (text : String) : String := String.ofList (trim text.toList)

theorem trimLeft_append_dropped (text : List Char) :
    text.takeWhile isBlank ++ trimLeft text = text :=
  List.takeWhile_append_dropWhile

end NumberedBasic.Text

/-!
# Reading files as text

Files hold UTF-8.  Bytes that form no character are replaced: the longest run
of bytes that could begin a character becomes one replacement character.  Any
of the three usual line ends counts as a line feed.
-/

namespace NumberedBasic.Text

/-- Stands for bytes that form no character. -/
def replacement : Char := Char.ofNat 0xfffd

/-- What the first byte of a longer character tells: how many bytes follow,
the range of the next one, and the bits it contributes itself. -/
def leadByte? (byte : Nat) : Option (Nat × Nat × Nat × Nat) :=
  if 0xc2 ≤ byte ∧ byte ≤ 0xdf then some (1, 0x80, 0xbf, byte - 0xc0)
  else if byte = 0xe0 then some (2, 0xa0, 0xbf, 0)
  else if byte = 0xed then some (2, 0x80, 0x9f, 0xd)
  else if 0xe1 ≤ byte ∧ byte ≤ 0xef then some (2, 0x80, 0xbf, byte - 0xe0)
  else if byte = 0xf0 then some (3, 0x90, 0xbf, 0)
  else if 0xf1 ≤ byte ∧ byte ≤ 0xf3 then some (3, 0x80, 0xbf, byte - 0xf0)
  else if byte = 0xf4 then some (3, 0x80, 0x8f, 4)
  else none

/-- The bytes owed to a character, the next one within the given range. -/
def decodeTail : (owed low high bits : Nat) → List UInt8 → Char × List UInt8
  | 0, _, _, bits, rest => (Char.ofNat bits, rest)
  | _ + 1, _, _, _, [] => (replacement, [])
  | owed + 1, low, high, bits, byte :: rest =>
      if low ≤ byte.toNat ∧ byte.toNat ≤ high then
        decodeTail owed 0x80 0xbf (64 * bits + (byte.toNat - 0x80)) rest
      else (replacement, byte :: rest)

/-- One character, given its first byte and what follows. -/
def decodeChar (byte : UInt8) (rest : List UInt8) : Char × List UInt8 :=
  if byte.toNat < 0x80 then (Char.ofNat byte.toNat, rest)
  else
    match leadByte? byte.toNat with
    | some (owed, low, high, bits) => decodeTail owed low high bits rest
    | none => (replacement, rest)

/-- Characters up to the end of the bytes; `found` holds those decoded
before, latest first.  Every round takes a byte at least. -/
def decodeAll : (rounds : Nat) → List UInt8 → (found : List Char) → List Char
  | 0, _, found => found.reverse
  | _ + 1, [], found => found.reverse
  | rounds + 1, byte :: rest, found =>
      let (c, rest) := decodeChar byte rest
      decodeAll rounds rest (c :: found)

def decodeUtf8 (bytes : List UInt8) : List Char :=
  decodeAll bytes.length bytes []

/-- Without the mark that may begin a file, and which may be all there is of
it. -/
def dropMark : List UInt8 → List UInt8
  | 0xef :: 0xbb :: 0xbf :: rest => rest
  | [0xef, 0xbb] => []
  | [0xef] => []
  | bytes => bytes

/-- Line ends turned into line feeds; `found` holds what comes before, latest
first. -/
def unifyFrom : List Char → (found : List Char) → List Char
  | [], found => found.reverse
  | '\r' :: '\n' :: rest, found => unifyFrom rest ('\n' :: found)
  | '\r' :: rest, found => unifyFrom rest ('\n' :: found)
  | c :: rest, found => unifyFrom rest (c :: found)

def unifyLineEnds (text : List Char) : List Char := unifyFrom text []

/-- The lines of a text, without the line feeds that end them.  A text that
ends with a line feed has no line after it. -/
def linesOf (text : List Char) : List (List Char) :=
  let pieces := text.splitOn '\n'
  if pieces.getLast? = some [] then pieces.dropLast else pieces

end NumberedBasic.Text

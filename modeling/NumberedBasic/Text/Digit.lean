import NumberedBasic.Text.Blank

/-!
# Decimal digits of all scripts

A line number typed into the line buffer, and a number read from text, may
use the decimal digits of any script.  Each script has ten consecutive code
points, so a table of the zeros is enough.  Source text proper knows the
ASCII digits only.
-/

namespace NumberedBasic.Text

/-- The digit zero of every script with decimal digits. -/
def zeroDigits : List Nat :=
  [0x30, 0x660, 0x6f0, 0x7c0, 0x966, 0x9e6, 0xa66, 0xae6, 0xb66, 0xbe6, 0xc66,
   0xce6, 0xd66, 0xde6, 0xe50, 0xed0, 0xf20, 0x1040, 0x1090, 0x17e0, 0x1810,
   0x1946, 0x19d0, 0x1a80, 0x1a90, 0x1b50, 0x1bb0, 0x1c40, 0x1c50, 0xa620,
   0xa8d0, 0xa900, 0xa9d0, 0xa9f0, 0xaa50, 0xabf0, 0xff10, 0x104a0, 0x10d30,
   0x11066, 0x110f0, 0x11136, 0x111d0, 0x112f0, 0x11450, 0x114d0, 0x11650,
   0x116c0, 0x11730, 0x118e0, 0x11950, 0x11c50, 0x11d50, 0x11da0, 0x16a60,
   0x16ac0, 0x16b50, 0x1d7ce, 0x1d7d8, 0x1d7e2, 0x1d7ec, 0x1d7f6, 0x1e140,
   0x1e2f0, 0x1e950, 0x1fbf0]

/-- Characters that stand for a digit without being decimal digits, such as
superscripts and circled digits. -/
def digitSignRanges : List (Nat × Nat) :=
  [(0xb2, 0xb3), (0xb9, 0xb9), (0x1369, 0x1371), (0x19da, 0x19da),
   (0x2070, 0x2070), (0x2074, 0x2079), (0x2080, 0x2089), (0x2460, 0x2468),
   (0x2474, 0x247c), (0x2488, 0x2490), (0x24ea, 0x24ea), (0x24f5, 0x24fd),
   (0x24ff, 0x24ff), (0x2776, 0x277e), (0x2780, 0x2788), (0x278a, 0x2792),
   (0x10a40, 0x10a43), (0x10e60, 0x10e68), (0x11052, 0x1105a),
   (0x1f100, 0x1f10a)]

/-- The value of a decimal digit of any script. -/
def digitValue? (c : Char) : Option Nat :=
  (zeroDigits.find? fun start => start ≤ c.toNat && c.toNat < start + 10).map
    (c.toNat - ·)

def isDigit (c : Char) : Bool := (digitValue? c).isSome

/-- A decimal digit, or a sign that stands for a digit. -/
def isDigitSign (c : Char) : Bool :=
  isDigit c || inRanges digitSignRanges c.toNat

def digitValue (c : Char) : Nat := (digitValue? c).getD 0

/-- The number that a numeral denotes, most significant digit first. -/
def numeralValue (digits : List Char) : Nat :=
  digits.foldl (fun value c => 10 * value + digitValue c) 0

/-- The longest numeral that is converted to a whole number; a longer one is
refused, leading zeros included. -/
def longestNumeral : Nat := 4300

/-- The whole number that a numeral denotes, if it is short enough. -/
def wholeNumber? (digits : List Char) : Option Nat :=
  if digits.length ≤ longestNumeral then some (numeralValue digits) else none

theorem digitValue?_ascii {c : Char} (h : c.isDigit = true) :
    digitValue? c = some (c.toNat - 48) := by
  simp only [Char.isDigit, Bool.and_eq_true, decide_eq_true_eq] at h
  have hlow : 48 ≤ c.toNat := h.1
  have hhigh : c.toNat ≤ 57 := h.2
  simp [digitValue?, zeroDigits, hlow, show c.toNat < 58 by omega]

theorem isDigit_ascii {c : Char} (h : c.isDigit = true) :
    isDigit c = true := by
  simp [isDigit, digitValue?_ascii h]

end NumberedBasic.Text

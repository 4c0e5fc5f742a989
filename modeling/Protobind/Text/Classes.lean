import Protobind.Text.Alphanumeric
import Protobind.Text.Digit
import Protobind.Text.IdentifierChar
import Protobind.Text.Printable

/-!
# Classes of characters

Each class joins a rule for ASCII with tables for the rest of Unicode.
-/

namespace Protobind.Text

variable (c : Char)

def isAscii : Bool := c.toNat < 128

/-- White space, the separators that end a line included. -/
def isBlank : Bool :=
  let n := c.toNat
  (9 ≤ n && n ≤ 13) || (28 ≤ n && n ≤ 32) || n == 0x85 || n == 0xa0 || n == 0x1680 ||
    (0x2000 ≤ n && n ≤ 0x200a) || n == 0x2028 || n == 0x2029 || n == 0x202f || n == 0x205f ||
    n == 0x3000

def isDigitLike : Bool :=
  if isAscii c then c.isDigit else nonAsciiDecimal.contains c || otherDigit.contains c

def decimalValue? : Option Nat :=
  if isAscii c then if c.isDigit then some (c.toNat - 48) else none
  else (nonAsciiDecimal.find? c.toNat).map fun e => (c.toNat - e.first) % 10

def isIdentifierStart : Bool :=
  if isAscii c then c.isAlpha || c == '_' else nonAsciiIdentifierStart.contains c

def isIdentifierContinue : Bool :=
  if isAscii c then c.isAlphanum || c == '_'
  else isIdentifierStart c || nonAsciiDecimal.contains c || otherIdentifierContinue.contains c

def isAlphanumeric : Bool :=
  if isAscii c then c.isAlphanum
  else (isIdentifierStart c && !nonAlphanumericStart.contains c) || isDigitLike c ||
    otherAlphanumeric.contains c

def isPrintable : Bool :=
  if isAscii c then 32 ≤ c.toNat && c.toNat < 127
  else isIdentifierContinue c || isAlphanumeric c || otherPrintable.contains c

/-- Characters that end a line, apart from a carriage return followed by a line feed, which end a
line together. -/
def isLineBreak : Bool :=
  let n := c.toNat
  (10 ≤ n && n ≤ 13) || (28 ≤ n && n ≤ 30) || n == 0x85 || n == 0x2028 || n == 0x2029

end Protobind.Text

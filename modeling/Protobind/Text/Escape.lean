import Protobind.Text.Lines
import Protobind.Wire.Bytes

/-!
# Escaped bytes

Byte strings in schemas are written with backslash escapes: a letter for a control character, up to
three octal digits, or `\x` with two hexadecimal ones. `unescape` keeps an escape that it cannot
read; `escapeOctal` writes octal escapes only.
-/

namespace Protobind.Text

def simpleEscape? : Char → Option UInt8
  | 'a' => some 0x07
  | 'b' => some 0x08
  | 'f' => some 0x0c
  | 'n' => some 0x0a
  | 'r' => some 0x0d
  | 't' => some 0x09
  | 'v' => some 0x0b
  | '\\' => some 0x5c
  | '\x22' => some 0x22
  | '\x27' => some 0x27
  | '?' => some 0x3f
  | _ => none

def octalValue? (c : Char) : Option Nat :=
  if '0' ≤ c && c ≤ '7' then some (c.toNat - 48) else none

def hexValue? (c : Char) : Option Nat :=
  if '0' ≤ c && c ≤ '9' then some (c.toNat - 48)
  else if 'a' ≤ c && c ≤ 'f' then some (c.toNat - 87)
  else if 'A' ≤ c && c ≤ 'F' then some (c.toNat - 55)
  else none

def charBytes (cs : List Char) : Bytes := Bytes.ofText (String.ofList cs)

def octalRun (most : Nat) (cs : List Char) : List Char :=
  (cs.take most).takeWhile fun c => (octalValue? c).isSome

def octalNumber (cs : List Char) : Nat :=
  cs.foldl (fun n c => 8 * n + (octalValue? c).getD 0) 0

/-- Reads the escape at the start of the text behind a backslash: the bytes it stands for, and how
many characters behind the backslash it takes. -/
def readEscape (c : Char) (cs : List Char) : Bytes × Nat :=
  match simpleEscape? c with
  | some b => ([b], 1)
  | none =>
    if c = 'x' || c = 'X' then
      match cs with
      | high :: low :: _ =>
        match hexValue? high, hexValue? low with
        | some h, some l => ([UInt8.ofNat (16 * h + l)], 3)
        | _, _ => (charBytes ['\\', c, high, low], 3)
      | _ => (charBytes ['\\', c], 1)
    else if (octalValue? c).isSome then
      let digits := octalRun 3 (c :: cs)
      let value := octalNumber digits
      if value ≤ 0xff then ([UInt8.ofNat value], digits.length)
      else (charBytes ('\\' :: digits), digits.length)
    else (charBytes ['\\'], 0)

def unescapeChars : Nat → List Char → Bytes
  | 0, _ => []
  | _, [] => []
  | _, ['\\'] => charBytes ['\\']
  | fuel + 1, '\\' :: c :: cs =>
    let (bytes, taken) := readEscape c cs
    bytes ++ unescapeChars fuel ((c :: cs).drop taken)
  | fuel + 1, c :: cs => charBytes [c] ++ unescapeChars fuel cs

def unescape (s : String) : Bytes := unescapeChars s.toList.length s.toList

def octalEscape (b : UInt8) : List Char :=
  let n := b.toNat
  ['\\', Nat.digitChar (n / 64), Nat.digitChar (n / 8 % 8), Nat.digitChar (n % 8)]

def escapeByte (b : UInt8) : List Char :=
  let n := b.toNat
  if n = 0x22 || n = 0x5c then ['\\', Char.ofNat n]
  else if n = 0x0a then ['\\', 'n']
  else if 0x20 ≤ n && n < 0x7f then [Char.ofNat n]
  else octalEscape b

def escapeOctal (bs : Bytes) : List Char := bs.flatMap escapeByte

def displayBytes (bs : Bytes) : String :=
  String.ofList ('\x22' :: escapeOctal bs ++ ['\x22'])

end Protobind.Text

import Protobind.Text.Lines
import Protobind.Wire.Bytes

/-!
# Quoted text

Texts and byte strings are shown between single quotes, or between double quotes when there is a
single one and no double one. What is not printable is escaped.
-/

namespace Protobind.Text

def hex (width n : Nat) : String :=
  let digits := Nat.toDigits 16 n
  String.ofList (List.replicate (width - digits.length) '0' ++ digits)

def hexBytes (bs : Bytes) : String := String.join (bs.map fun b => hex 2 b.toNat)

def singleQuote : Char := '\x27'

def doubleQuote : Char := '\x22'

def chooseQuote (hasSingle hasDouble : Bool) : Char :=
  if hasSingle && !hasDouble then doubleQuote else singleQuote

def quoteChar (quote c : Char) : String :=
  if c = quote || c = '\\' then String.ofList ['\\', c]
  else if c = '\n' then "\\n"
  else if c = '\r' then "\\r"
  else if c = '\t' then "\\t"
  else if isPrintable c then c.toString
  else if c.toNat ≤ 0xff then "\\x" ++ hex 2 c.toNat
  else if c.toNat ≤ 0xffff then "\\u" ++ hex 4 c.toNat
  else "\\U" ++ hex 8 c.toNat

def quote (s : String) : String :=
  let cs := s.toList
  let q := chooseQuote (singleQuote ∈ cs) (doubleQuote ∈ cs)
  q.toString ++ String.join (cs.map (quoteChar q)) ++ q.toString

def quoteByte (quote : Char) (b : UInt8) : String :=
  let c := Char.ofNat b.toNat
  if c = quote || c = '\\' then String.ofList ['\\', c]
  else if c = '\n' then "\\n"
  else if c = '\r' then "\\r"
  else if c = '\t' then "\\t"
  else if 32 ≤ b.toNat && b.toNat < 127 then c.toString
  else "\\x" ++ hex 2 b.toNat

def quoteBytes (bs : Bytes) : String :=
  let q := chooseQuote (bs.any (·.toNat == singleQuote.toNat))
    (bs.any (·.toNat == doubleQuote.toNat))
  "b" ++ q.toString ++ String.join (bs.map (quoteByte q)) ++ q.toString

def row : List String → String
  | [s] => "(" ++ s ++ ",)"
  | items => "(" ++ String.intercalate ", " items ++ ")"

def quoteRow (items : List String) : String := row (items.map quote)

end Protobind.Text

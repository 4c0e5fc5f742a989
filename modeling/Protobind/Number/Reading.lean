import Protobind.Number.Decimal
import Protobind.Text.Lines

/-!
# Reading numbers

Numbers may be surrounded by white space, use the decimal digits of any script, and have single
underscores between digits.
-/

namespace Protobind

namespace Numeral

def asciiDigits (cs : List Char) : List Char :=
  cs.map fun c => match Text.decimalValue? c with
    | some v => Nat.digitChar v
    | none => c

/-- Removes underscores that stand between two digits; `none` when one stands elsewhere. -/
def dropUnderscores? (afterDigit : Bool) : List Char → Option (List Char)
  | [] => some []
  | '_' :: rest =>
    match rest with
    | next :: _ =>
      if afterDigit && next.isDigit then dropUnderscores? false rest else none
    | [] => none
  | c :: rest => (dropUnderscores? c.isDigit rest).map (c :: ·)

def cutSign : List Char → Bool × List Char
  | '-' :: rest => (true, rest)
  | '+' :: rest => (false, rest)
  | cs => (false, cs)

/-- The number that ASCII digits spell; `none` for anything else and for no digits at all. -/
def digitsValue? (cs : List Char) : Option Nat :=
  if cs.isEmpty || !cs.all Char.isDigit then none
  else some (cs.foldl (fun n c => 10 * n + (c.toNat - 48)) 0)

/-- White space that may surround a number; the four information separators may not. -/
def isMargin (c : Char) : Bool := Text.isBlank c && !(28 ≤ c.toNat && c.toNat ≤ 31)

def trim (cs : List Char) : List Char := Text.dropEndWhile isMargin (cs.dropWhile isMargin)

def plain? (s : String) : Option (List Char) :=
  dropUnderscores? false (asciiDigits (trim s.toList))

end Numeral

/-- Why a text is no integer. -/
inductive IntegerError where
  | malformed
  | tooLong (digits : Nat)
  deriving DecidableEq

namespace IntegerError

def maxDigits : Nat := 4300

def unwritten : Nat := Nat.pow 10 maxDigits

def unwrittenMessage : String :=
  s!"Exceeds the limit ({maxDigits} digits) for integer string conversion; " ++
    "use sys.set_int_max_str_digits() to increase the limit"

def shownLength : Nat := 200

def message (source : String) : IntegerError → String
  | .malformed =>
    "invalid literal for int() with base 10: " ++ String.ofList (source.toList.take shownLength)
  | .tooLong digits =>
    s!"Exceeds the limit ({maxDigits} digits) for integer string conversion: value has {digits} " ++
      "digits; use sys.set_int_max_str_digits() to increase the limit"

end IntegerError

/-- Reads an integer. Its digits are counted before anything is said about what follows them. -/
def readInteger (s : String) : Except IntegerError Int :=
  let (negative, body) := Numeral.cutSign (Numeral.asciiDigits (Numeral.trim s.toList))
  let (marked, rest) := body.span fun c => c.isDigit || c == '_'
  match Numeral.dropUnderscores? false marked with
  | none => .error .malformed
  | some digits =>
    if IntegerError.maxDigits < digits.length then .error (.tooLong digits.length)
    else
      match Numeral.digitsValue? (digits ++ rest) with
      | some n => .ok (if negative then -(n : Int) else n)
      | none => .error .malformed

namespace Numeral

def digitValue? (base : Nat) (c : Char) : Option Nat :=
  let value? :=
    if c.isDigit then some (c.toNat - 48)
    else if 'a' ≤ c.toLower && c.toLower ≤ 'f' then some (c.toLower.toNat - 87)
    else none
  value?.filter (· < base)

/-- Removes single underscores that stand in front of digits of a base; `none` when one stands
elsewhere. -/
def dropMarks? (base : Nat) (inDigits : Bool) : List Char → Option (List Char)
  | [] => some []
  | '_' :: rest =>
    match rest with
    | next :: _ =>
      if inDigits && (digitValue? base next).isSome then dropMarks? base false rest else none
    | [] => none
  | c :: rest => (dropMarks? base true rest).map (c :: ·)

/-- The number that digits of a base spell; `none` for anything else and for no digits at all. An
underscore may stand in front of each digit. -/
def valueIn? (base : Nat) (cs : List Char) : Option Nat :=
  if cs.isEmpty then none
  else do
    let digits ← dropMarks? base true cs
    digits.foldlM (fun n c => (digitValue? base c).map (base * n + ·)) 0

def baseOfMark? (c : Char) : Option Nat :=
  if c = 'x' || c = 'X' then some 16
  else if c = 'o' || c = 'O' then some 8
  else if c = 'b' || c = 'B' then some 2
  else none

/-- The number that a literal without a sign spells. A decimal literal has no needless zero in
front. -/
def unsigned? (cs : List Char) : Option Nat :=
  match cs with
  | '0' :: mark :: ds =>
    match baseOfMark? mark with
    | some base => valueIn? base ds
    | none => do
      let digits ← dropUnderscores? true (mark :: ds)
      if digits.all (· == '0') then some 0 else none
  | cs => do digitsValue? (← dropUnderscores? false cs)

def exponentValue? (cs : List Char) : Option Int := do
  let (negative, digits) := cutSign cs
  let n ← digitsValue? digits
  pure (if negative then -(n : Int) else n)

/-- Reads the digits of a fractional number: digits with at most one point, then possibly an
exponent. At least one digit stands before the exponent. -/
def fraction? (negative : Bool) (cs : List Char) : Option Double := do
  let mantissa := cs.takeWhile fun c => c.isDigit || c == '.'
  let tail := cs.drop mantissa.length
  let exponent ← match tail with
    | [] => some 0
    | c :: rest => if c = 'e' || c = 'E' then exponentValue? rest else none
  let (whole, places) := match Text.cutAt? '.' mantissa with
    | some (whole, places) => (whole, places)
    | none => (mantissa, [])
  let n ← digitsValue? (whole ++ places)
  pure (Decimal.read negative n (exponent - places.length))

end Numeral

/-- Reads a floating-point number: digits, or the name of an infinity or of what is no number, in
any case. -/
def readDouble? (s : String) : Option Double := do
  let (negative, rest) := Numeral.cutSign (← Numeral.plain? s)
  let word := String.ofList (rest.map Char.toLower)
  if word = "inf" || word = "infinity" then pure (Double.infinity negative)
  else if word = "nan" then
    pure (if negative then Double.ofMagnitude true Double.nan.magnitude else Double.nan)
  else Numeral.fraction? negative rest

end Protobind

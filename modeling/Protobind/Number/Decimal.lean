import Protobind.Number.Double

/-!
# Numbers in decimal

The shortest form of a double has the fewest digits that read back as the same number, and among
those the nearest ones. The general form has a fixed number of significant digits, correctly
rounded, without trailing zeros. Both are laid out positionally while the exponent is small.
-/

namespace Protobind

namespace Decimal

def length (n : Nat) : Nat := (Nat.toDigits 10 n).length

/-- The decimal exponent of a positive ratio: the greatest `e` with `10 ^ e ≤ num / den`. -/
def logRatio (num den : Nat) : Int :=
  if den ≤ num then (length (num / den) : Int) - 1
  else -(length ((den + num - 1) / num - 1) : Int)

def scaled (num den : Nat) (scale : Int) : Nat × Nat :=
  if 0 ≤ scale then (num * Nat.pow 10 scale.toNat, den) else (num, den * Nat.pow 10 (-scale).toNat)

/-- Significant digits and the position of the point. -/
structure Digits where
  digits : List Char
  exponent : Int

def Digits.ofNat (n : Nat) (exponent : Int) : Digits :=
  let all := Nat.toDigits 10 n
  ⟨(all.reverse.dropWhile (· == '0')).reverse, exponent + all.length - 1⟩

def Digits.rounded (num den count : Nat) : Digits :=
  let scale := (count : Int) - 1 - logRatio num den
  let (n, d) := scaled num den scale
  Digits.ofNat (roundDiv n d) (-scale)

/-- The positive number nearest to `n * 10 ^ exponent`. Exponents far outside the range of the
format are decided by the number of digits alone. -/
def read (negative : Bool) (n : Nat) (exponent : Int) : Double :=
  if n = 0 then Double.ofMagnitude negative 0
  else
    let size := (length n : Int) + exponent
    if 400 < size then Double.infinity negative
    else if size < -400 then Double.ofMagnitude negative 0
    else
      let (num, den) := scaled n 1 exponent
      Double.nearest negative num den

/-- The digits of a positive finite number on the grid of `count` digits that read back as the
number, the nearer ones when both neighbours do. -/
def Digits.onGrid? (d : Double) (count : Nat) : Option Digits :=
  let (num, den) := d.ratio
  let scale := (count : Int) - 1 - logRatio num den
  let (n, m) := scaled num den scale
  let low := n / m
  let readsBack := fun k => (read false k (-scale)).magnitude == d.magnitude
  let nearer := roundDiv n m
  let other := if nearer = low then low + 1 else low
  if readsBack nearer then some (Digits.ofNat nearer (-scale))
  else if readsBack other then some (Digits.ofNat other (-scale))
  else none

def Digits.shortestFrom (d : Double) : List Nat → Digits
  | [] => Digits.rounded d.ratio.1 d.ratio.2 17
  | count :: counts =>
    match Digits.onGrid? d count with
    | some digits => digits
    | none => shortestFrom d counts

def Digits.shortest (d : Double) : Digits := Digits.shortestFrom d ((List.range 17).map (· + 1))

/-- Up to which exponent numbers are laid out positionally, and whether with a point. -/
structure Layout where
  high : Int
  pointZero : Bool

def exponentText (e : Int) : String :=
  let digits := Nat.toDigits 10 e.natAbs
  (if e < 0 then "e-" else "e+") ++
    String.ofList (List.replicate (2 - digits.length) '0' ++ digits)

/-- Digits with their point or exponent. Exponents below `-4` are always written out. -/
def Digits.render (layout : Layout) (x : Digits) : String :=
  if -4 ≤ x.exponent && x.exponent < layout.high then
    if x.exponent < 0 then
      "0." ++ String.ofList (List.replicate ((-x.exponent).toNat - 1) '0' ++ x.digits)
    else
      let whole := x.exponent.toNat + 1
      if x.digits.length ≤ whole then
        String.ofList (x.digits ++ List.replicate (whole - x.digits.length) '0') ++
          (if layout.pointZero then ".0" else "")
      else String.ofList (x.digits.take whole ++ '.' :: x.digits.drop whole)
  else
    String.ofList (x.digits.take 1) ++
      (if x.digits.length ≤ 1 then "" else "." ++ String.ofList (x.digits.drop 1)) ++
      exponentText x.exponent

end Decimal

namespace Double

def spell (zeroText : String) (finite : Double → String) (d : Double) : String :=
  if d.isNaN then "nan"
  else
    (if d.isNegative then "-" else "") ++
      (if d.isInfinite then "inf" else if d.isZero then zeroText else finite d)

/-- Shortest digits: an exponent from `16` on, and a whole number ends in `.0`. -/
def shortestLayout : Decimal.Layout := ⟨16, true⟩

def toText (d : Double) : String :=
  d.spell "0.0" fun d => (Decimal.Digits.shortest d).render shortestLayout

def general (count : Nat) (d : Double) : String :=
  d.spell "0" fun d =>
    (Decimal.Digits.rounded d.ratio.1 d.ratio.2 count).render ⟨count, false⟩

end Double

end Protobind

/-!
# Binary floating-point formats

The bits of a magnitude, read as a number, count the representable magnitudes below it. So rounding
can be done on ratios of natural numbers, and the carry into the exponent needs no special case.
-/

namespace Protobind

/-- `num / den` rounded to the nearest natural number; a tie goes to the even one. -/
def roundDiv (num den : Nat) : Nat :=
  let q := num / den
  let r := num % den
  if 2 * r < den then q else if den < 2 * r then q + 1 else q + q % 2

def twoPow (n : Nat) : Nat := Nat.pow 2 n

/-- A binary format. -/
structure BinaryFormat where
  fractionBits : Nat
  exponentBits : Nat

namespace BinaryFormat

def double : BinaryFormat := ⟨52, 11⟩

def single : BinaryFormat := ⟨23, 8⟩

variable (f : BinaryFormat)

def minExponent : Int := 2 - twoPow (f.exponentBits - 1) - f.fractionBits

def infinity : Nat := (twoPow f.exponentBits - 1) * twoPow f.fractionBits

def roundScaled (num den : Nat) (e : Int) : Nat :=
  if 0 ≤ e then roundDiv num (den * twoPow e.toNat) else roundDiv (num * twoPow (-e).toNat) den

/-- The greatest `e` with `2 ^ e ≤ num / den`, for positive `num` and `den`. -/
def logRatio (num den : Nat) : Int :=
  let k : Int := (num.log2 : Int) - den.log2
  let atLeast := if 0 ≤ k then den * twoPow k.toNat ≤ num else den ≤ num * twoPow (-k).toNat
  if atLeast then k else k - 1

/-- The bits of the magnitude nearest to `num / den`. They may lie beyond infinity, which means that
the ratio is too large for the format. -/
def nearest (num den : Nat) : Nat :=
  if num = 0 then 0
  else
    let e := max (logRatio num den - f.fractionBits) f.minExponent
    (e - f.minExponent).toNat * twoPow f.fractionBits + roundScaled num den e

def significand (bits : Nat) : Nat :=
  if bits < twoPow f.fractionBits then bits
  else bits % twoPow f.fractionBits + twoPow f.fractionBits

def exponent (bits : Nat) : Int :=
  f.minExponent + (bits / twoPow f.fractionBits - 1 : Nat)

def ratio (bits : Nat) : Nat × Nat :=
  let e := f.exponent bits
  if 0 ≤ e then (f.significand bits * twoPow e.toNat, 1)
  else (f.significand bits, twoPow (-e).toNat)

end BinaryFormat

end Protobind

import Protobind.Number.Binary

/-!
# Double-precision numbers

A double is its bits, a sign and a magnitude. All operations are exact arithmetic on them.
-/

namespace Protobind

/-- A double-precision number. -/
structure Double where
  bits : UInt64
  deriving DecidableEq

namespace Double

variable (d : Double)

def magnitude : Nat := d.bits.toNat % twoPow 63

def isNegative : Bool := twoPow 63 ≤ d.bits.toNat

def ofMagnitude (negative : Bool) (magnitude : Nat) : Double :=
  ⟨UInt64.ofNat (if negative then magnitude + twoPow 63 else magnitude)⟩

def isNaN : Bool := BinaryFormat.double.infinity < d.magnitude

def isInfinite : Bool := d.magnitude == BinaryFormat.double.infinity

def isZero : Bool := d.magnitude == 0

def infinity (negative : Bool) : Double := ofMagnitude negative BinaryFormat.double.infinity

def nan : Double := ofMagnitude false (BinaryFormat.double.infinity + twoPow 51)

def zero : Double := ⟨0⟩

def ratio (d : Double) : Nat × Nat := BinaryFormat.double.ratio d.magnitude

def nearest (negative : Bool) (num den : Nat) : Double :=
  ofMagnitude negative (min (BinaryFormat.double.nearest num den) BinaryFormat.double.infinity)

/-- The number nearest to an integer; `none` when the integer is too large. -/
def ofInt? (n : Int) : Option Double :=
  let bits := BinaryFormat.double.nearest n.natAbs 1
  if bits < BinaryFormat.double.infinity then some (ofMagnitude (n < 0) bits) else none

/-- Whether two numbers are equal: zero has no sign here, and what is no number equals nothing. -/
def equal (a b : Double) : Bool :=
  !a.isNaN && !b.isNaN && (a.bits == b.bits || (a.isZero && b.isZero))

def equalInt (n : Int) : Bool :=
  if d.isNaN || d.isInfinite then false
  else
    let (num, den) := d.ratio
    num == n.natAbs * den && (n == 0 || d.isNegative == decide (n < 0))

/-! ## Order -/

def signedRatio : Int × Nat :=
  let (num, den) := d.ratio
  (if d.isNegative then -(num : Int) else num, den)

def orderInt? (n : Int) : Option Ordering :=
  if d.isNaN then none
  else if d.isInfinite then some (if d.isNegative then .lt else .gt)
  else some (compare d.signedRatio.1 (n * d.signedRatio.2))

def order? (a b : Double) : Option Ordering :=
  let place (d : Double) : Int := if d.isNegative then -(d.magnitude : Int) else d.magnitude
  if a.isNaN || b.isNaN then none else some (compare (place a) (place b))

/-! ## Numbers of 32 bits -/

/-- The bits of the nearest number of 32 bits; `none` when the number is finite and too large. What
is no number keeps the upper part of its payload and becomes quiet. -/
def toSingle? : Option Nat :=
  let sign := if d.isNegative then twoPow 31 else 0
  let infinite := BinaryFormat.single.infinity
  if d.isNaN then
    let payload := (d.magnitude - BinaryFormat.double.infinity) / twoPow 29
    some (sign + infinite + (payload ||| twoPow 22))
  else if d.isInfinite then some (sign + infinite)
  else
    let bits := BinaryFormat.single.nearest d.ratio.1 d.ratio.2
    if bits < infinite then some (sign + bits) else none

/-- The number with the given 32 bits. What is no number keeps its payload and becomes quiet. -/
def ofSingle (bits : Nat) : Double :=
  let negative : Bool := twoPow 31 ≤ bits % twoPow 32
  let magnitude := bits % twoPow 31
  let infinite := BinaryFormat.single.infinity
  if infinite < magnitude then
    ofMagnitude negative
      (BinaryFormat.double.infinity + ((magnitude - infinite) * twoPow 29 ||| twoPow 51))
  else if magnitude = infinite then infinity negative
  else
    let (num, den) := BinaryFormat.single.ratio magnitude
    nearest negative num den

end Double

end Protobind

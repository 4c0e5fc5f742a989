import Protobind.Number.Double

/-!
# Arithmetic of double-precision numbers

Results are computed exactly and rounded once, with ties to even. Zeros and infinities have signs,
and what has no value is no number.
-/

namespace Protobind.Double

def isFinite (d : Double) : Bool := !d.isNaN && !d.isInfinite

def negate (d : Double) : Double := ofMagnitude (!d.isNegative) d.magnitude

def abs (d : Double) : Double := ofMagnitude false d.magnitude

def signedZero (negative : Bool) : Double := ofMagnitude negative 0

def ofRatio (num : Int) (den : Nat) : Double := nearest (num < 0) num.natAbs den

def one : Double := ofRatio 1 1

variable (a b : Double)

def add : Double :=
  if a.isNaN || b.isNaN then nan
  else if a.isInfinite then
    if b.isInfinite && a.isNegative != b.isNegative then nan else a
  else if b.isInfinite then b
  else if a.isZero && b.isZero then signedZero (a.isNegative && b.isNegative)
  else
    let (m, p) := a.signedRatio
    let (n, q) := b.signedRatio
    ofRatio (m * q + n * p) (p * q)

def sub : Double := a.add b.negate

def mul : Double :=
  let negative := a.isNegative != b.isNegative
  if a.isNaN || b.isNaN then nan
  else if a.isInfinite || b.isInfinite then
    if a.isZero || b.isZero then nan else infinity negative
  else nearest negative (a.ratio.1 * b.ratio.1) (a.ratio.2 * b.ratio.2)

def div : Double :=
  let negative := a.isNegative != b.isNegative
  if a.isNaN || b.isNaN then nan
  else if a.isInfinite then if b.isInfinite then nan else infinity negative
  else if b.isInfinite then signedZero negative
  else if b.isZero then if a.isZero then nan else infinity negative
  else nearest negative (a.ratio.1 * b.ratio.2) (a.ratio.2 * b.ratio.1)

def remainder : Double :=
  if a.isNaN || b.isNaN || a.isInfinite || b.isZero then nan
  else if b.isInfinite then a
  else
    let (m, p) := a.ratio
    let (n, q) := b.ratio
    nearest a.isNegative ((m * q) % (n * p)) (p * q)

def floor (d : Double) : Double :=
  if !d.isFinite || d.isZero then d
  else
    let (num, den) := d.signedRatio
    let whole := Int.fdiv num den
    if whole = 0 then signedZero d.isNegative else ofRatio whole 1

def modulo : Double :=
  let r := remainder a b
  if r.isNaN then r
  else if r.isZero then signedZero b.isNegative
  else if r.isNegative != b.isNegative then r.add b
  else r

def floorDivide : Double :=
  let r := remainder a b
  if r.isNaN then nan
  else
    let exact := a.sub r |>.div b
    let exact := if !r.isZero && r.isNegative != b.isNegative then exact.sub one else exact
    if exact.isZero then signedZero (a.isNegative != b.isNegative)
    else
      let down := exact.floor
      if exact.sub down |>.order? (ofRatio 1 2) |> (· == some .gt) then down.add one else down

def roundInt (d : Double) : Int :=
  let n : Int := roundDiv d.ratio.1 d.ratio.2
  if d.isNegative then -n else n

def viaFloat (f : Float → Float → Float) (a b : Double) : Double :=
  ⟨(f (Float.ofBits a.bits) (Float.ofBits b.bits)).toBits⟩

def power : Double := viaFloat Float.pow a b

def through (f : Float → Float) (d : Double) : Double := ⟨(f (Float.ofBits d.bits)).toBits⟩

def sin (d : Double) : Double := d.through Float.sin

def cos (d : Double) : Double := d.through Float.cos

def exponential (d : Double) : Double := d.through Float.exp

def logarithm (d : Double) : Double := d.through Float.log

def arcTangent (height place : Double) : Double := viaFloat Float.atan2 height place

def halfTurn : Double := ⟨4614256656552045848⟩

/-- The length of the vector to a point: the square root of a sum that is rounded only once. -/
def hypot : Double :=
  if a.isInfinite || b.isInfinite then infinity false
  else if a.isNaN || b.isNaN then nan
  else if a.isZero then b.abs
  else if b.isZero then a.abs
  else
    let (m, p) := a.ratio
    let (n, q) := b.ratio
    let num := m * m * q * q + n * n * p * p
    let den := p * p * q * q
    -- The quotient is widened so that its root has bits to spare.
    let shift := 2 * (64 + den.log2)
    let root := Nat.sqrt (num * twoPow shift / den)
    nearest false (2 * root + 1) (2 * twoPow (shift / 2))

end Protobind.Double

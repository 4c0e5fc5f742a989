import Protobind.Message.Value
import Protobind.Number.Arithmetic
import Protobind.Script.Expression

/-!
# Quantities

Integers are exact; where a floating-point number takes part, all numbers become floating-point
ones, and where a complex one does, all become complex.
-/

namespace Protobind

/-- A number. -/
inductive Quantity where
  | whole (n : Int)
  | real (d : Double)
  | complex (re im : Double)
  deriving DecidableEq

namespace Quantity

def toDouble : Quantity → Result Double
  | .real d => .ok d
  | .whole n =>
    match Double.ofInt? n with
    | some d => .ok d
    | none => .error .doubleOverflow
  | .complex .. => .error .wrongType

def toComplex : Quantity → Result (Double × Double)
  | .complex re im => .ok (re, im)
  | q => do pure (← q.toDouble, Double.zero)

def maxBits : Nat := 100000000

def ratio (m n : Int) : Result Quantity :=
  let d := Double.nearest (decide (m < 0) != decide (n < 0)) m.natAbs n.natAbs
  if d.isInfinite then .error .quotientOverflow else .ok (.real d)

/-! ## Powers -/

def wholePower (m : Int) (n : Nat) : Result Quantity :=
  if 1 < m.natAbs && maxBits < (m.natAbs.log2 + 1) * n then .error .outOfMemory
  else if m.natAbs ≤ 1 then .ok (.whole (if n = 0 then 1 else if n % 2 = 0 then m * m else m))
  else .ok (.whole (Int.pow m n))

def rootOfNegative (a b : Double) : Quantity :=
  let length := a.abs.power b
  let turn := Double.halfTurn.mul b
  .complex (length.mul turn.cos) (length.mul turn.sin)

def realPower (a b : Double) : Result Quantity :=
  if a.isZero && b.isNegative && !b.isZero && !b.isNaN then .error .zeroDivisor
  else if a.isFinite && a.isNegative && !a.isZero && b.isFinite && !(b.floor.equal b) then
    .ok (rootOfNegative a b)
  else
    let d := a.power b
    if d.isInfinite && a.isFinite && b.isFinite then .error .resultOverflow
    else .ok (.real d)

def complexProduct (a b : Double × Double) : Double × Double :=
  ((a.1.mul b.1).sub (a.2.mul b.2), (a.1.mul b.2).add (a.2.mul b.1))

def complexQuotient (a b : Double × Double) : Result (Double × Double) :=
  if b.1.isZero && b.2.isZero then .error .zeroDivisor
  else if (b.1.abs.order? b.2.abs) == some .lt then
    let r := b.1.div b.2
    let d := (b.1.mul r).add b.2
    .ok (((a.1.mul r).add a.2).div d, ((a.2.mul r).sub a.1).div d)
  else
    let r := b.2.div b.1
    let d := b.1.add (b.2.mul r)
    .ok ((a.1.add (a.2.mul r)).div d, (a.2.sub (a.1.mul r)).div d)

/-- A complex number raised to a power that is a natural number, times another one, in at most
`fuel` steps. -/
def naturalPower : Nat → Double × Double → Double × Double → Nat → Double × Double
  | 0, product, _, _ => product
  | fuel + 1, product, a, n =>
    if n = 0 then product
    else
      let product := if n % 2 = 1 then complexProduct product a else product
      naturalPower fuel product (complexProduct a a) (n / 2)

def complexPower (a b : Double × Double) : Result (Double × Double) := do
  let one := (Double.one, Double.zero)
  let small? : Option Int :=
    if b.2.isZero && b.1.isFinite && b.1.floor.equal b.1 then
      let (num, den) := b.1.ratio
      let n : Int := num / den
      if n ≤ 100 then some (if b.1.isNegative then -n else n) else none
    else none
  let p ← match small? with
    | some n =>
      let p := naturalPower 8 one a n.natAbs
      if 0 < n then pure p else complexQuotient one p
    | none =>
      if a.1.isZero && a.2.isZero then
        if !b.2.isZero || b.1.isNegative then throw .zeroDivisor
        else pure (Double.zero, Double.zero)
      else
        let size := Double.hypot a.1 a.2
        let angle := a.2.arcTangent a.1
        let length := size.power b.1
        let phase := angle.mul b.1
        let (length, phase) := if b.2.isZero then (length, phase)
          else (length.div (angle.mul b.2).exponential, phase.add (b.2.mul size.logarithm))
        pure (length.mul phase.cos, length.mul phase.sin)
  if p.1.isInfinite || p.2.isInfinite then throw (.tooLarge "complex exponentiation")
  pure p

def power (a b : Quantity) : Result Quantity :=
  match a, b with
  | .whole m, .whole n =>
    if 0 ≤ n then wholePower m n.toNat
    else if m = 0 then .error .zeroDivisor
    else do realPower (← a.toDouble) (← b.toDouble)
  | .complex .., _ | _, .complex .. => do
    let p ← complexPower (← a.toComplex) (← b.toComplex)
    pure (.complex p.1 p.2)
  | _, _ => do realPower (← a.toDouble) (← b.toDouble)

end Quantity

/-! ## Signs in front -/

def UnarySign.onQuantity (sign : UnarySign) (q : Quantity) : Result Quantity :=
  match sign, q with
  | .minus, .whole n => .ok (.whole (-n))
  | .minus, .real d => .ok (.real d.negate)
  | .minus, .complex re im => .ok (.complex re.negate im.negate)
  | .plus, q => .ok q
  | .invert, .whole n => .ok (.whole (-n - 1))
  | .invert, _ => .error .wrongType

/-! ## Signs between numbers -/

namespace BinarySign

def joinBits (f : Nat → Nat → Nat) (m n : Int) : Int :=
  -- Enough bits for both numbers and their signs.
  let width := (m.natAbs.log2 + n.natAbs.log2) + 3
  let word (k : Int) : Nat := (k % (twoPow width : Int)).toNat
  let joined := f (word m) (word n)
  if joined < twoPow (width - 1) then joined else (joined : Int) - twoPow width

def shiftedLeft (m n : Int) : Result Int :=
  if n < 0 then .error .negativeShift
  else if m = 0 then .ok 0
  else if 69175290276410818320 < n + m.natAbs.log2 then
    .error (.tooLarge "too many digits in integer")
  else if Quantity.maxBits < n.toNat then .error .outOfMemory
  else .ok (m * twoPow n.toNat)

def shiftedRight (m n : Int) : Result Int :=
  if n < 0 then .error .negativeShift
  else if (m.natAbs.log2 : Int) < n then .ok (if m < 0 then -1 else 0)
  else .ok (Int.fdiv m (twoPow n.toNat))

/-- The integer that two integers are joined to; `none` when the sign does not join integers to an
integer. -/
def onIntegers? (sign : BinarySign) (m n : Int) : Option (Result Int) :=
  match sign with
  | .or => some (.ok (joinBits Nat.lor m n))
  | .xor => some (.ok (joinBits Nat.xor m n))
  | .and => some (.ok (joinBits Nat.land m n))
  | .shiftLeft => some (shiftedLeft m n)
  | .shiftRight => some (shiftedRight m n)
  | .plus => some (.ok (m + n))
  | .minus => some (.ok (m - n))
  | .times => some (.ok (m * n))
  | .floorDivide => some (if n = 0 then .error .zeroDivisor else .ok (Int.fdiv m n))
  | .modulo => some (if n = 0 then .error .zeroDivisor else .ok (Int.fmod m n))
  | .divide | .product | .power => none

def onDoubles (sign : BinarySign) (a b : Double) : Result Double :=
  match sign with
  | .plus => .ok (a.add b)
  | .minus => .ok (a.sub b)
  | .times => .ok (a.mul b)
  | .divide => if b.isZero then .error .zeroDivisor else .ok (a.div b)
  | .floorDivide => if b.isZero then .error .zeroDivisor else .ok (a.floorDivide b)
  | .modulo => if b.isZero then .error .zeroDivisor else .ok (a.modulo b)
  | _ => .error .wrongType

def onComplex (sign : BinarySign) (a b : Double × Double) : Result (Double × Double) :=
  match sign with
  | .plus => .ok (a.1.add b.1, a.2.add b.2)
  | .minus => .ok (a.1.sub b.1, a.2.sub b.2)
  | .times => .ok (Quantity.complexProduct a b)
  | .divide => Quantity.complexQuotient a b
  | _ => .error .wrongType

def onQuantities (sign : BinarySign) (a b : Quantity) : Result Quantity :=
  match sign, a, b with
  | .power, _, _ => a.power b
  | .product, _, _ => .error .wrongType
  | .divide, .whole m, .whole n =>
    if n = 0 then .error .zeroDivisor else Quantity.ratio m n
  | _, .whole m, .whole n =>
    match sign.onIntegers? m n with
    | some result => result.map .whole
    | none => .error .wrongType
  | .or, _, _ | .xor, _, _ | .and, _, _ | .shiftLeft, _, _ | .shiftRight, _, _ => .error .wrongType
  | _, .complex .., _ | _, _, .complex .. => do
    let (re, im) ← sign.onComplex (← a.toComplex) (← b.toComplex)
    pure (.complex re im)
  | _, _, _ => do pure (.real (← sign.onDoubles (← a.toDouble) (← b.toDouble)))

end BinarySign

end Protobind

import Protobind.Message.NumberQuestion
import Protobind.Object.Arguments

/-!
# Methods of numbers

Numbers as bytes, powers by a modulus, and rounded numbers.
-/

namespace Protobind.NumberMethod

/-! ## Bytes -/

def isLittle (order? : Option Binding) : Result Bool :=
  match order? with
  | none => .ok false
  | some b => do
    match ← b.asText with
    | "little" => pure true
    | "big" => pure false
    | _ => throw (.unsuitable "byteorder must be either 'little' or 'big'")

def lowestFirst : Nat → Nat → Bytes
  | 0, _ => []
  | count + 1, n => UInt8.ofNat (n % 256) :: lowestFirst count (n / 256)

def toBytes (n : Int) (args : Arguments) : Result Binding := do
  let signed? := Dictionary.get? "signed" args.keywords
  let rest : Arguments := { args with keywords := Dictionary.erase "signed" args.keywords }
  match ← rest.slots ["length", "byteorder"] with
  | [length?, order?] =>
    let length ← Binding.optionalInt length? 1
    let little ← isLittle order?
    if length < 0 then throw (.unsuitable "length argument must be non-negative")
    let signed := (signed?.map Binding.truthy).getD false
    if n < 0 && !signed then throw .negativeBytes
    let bits := 8 * length.toNat
    if NumberQuestion.bits n.natAbs ≤ bits + 1 then pure () else throw .bytesOverflow
    let bound : Int := twoPow (if signed then bits - 1 else bits)
    let fits := if bits = 0 then n == 0 else -bound ≤ n && n < bound
    if !fits then throw .bytesOverflow
    let word := (if n < 0 then n + twoPow bits else n).toNat
    let bytes := lowestFirst length.toNat word
    pure (.value (.bytes (if little then bytes else bytes.reverse)))
  | _ => throw .wrongType

def bytesOf (b : Binding) : Result Bytes :=
  match b with
  | .value (.bytes bs) => .ok bs
  | .value (.text _) => .error .wrongType
  | _ => do (← b.items).mapM fun item => do (← item.asValue).asByte

/-! ## Powers -/

def powerModulo (modulus : Int) : Nat → Int → Nat → Int
  | 0, _, _ => Int.fmod 1 modulus
  | fuel + 1, m, n =>
    if n = 0 then Int.fmod 1 modulus
    else
      let half := powerModulo modulus fuel m (n / 2)
      let square := Int.fmod (half * half) modulus
      if n % 2 = 0 then square else Int.fmod (square * m) modulus

def reducedPower (m n modulus : Int) : Result Int := do
  if modulus = 0 then throw (.unsuitable "pow() 3rd argument cannot be 0")
  if n < 0 then throw .notShowable
  pure (powerModulo modulus (n.natAbs.log2 + 2) m n.toNat)

/-! ## Rounding -/

/-- The multiple of a power of ten that is nearest to a floating-point number; a tie goes to the
even one. -/
def roundedTo (d : Double) (places : Int) : Result Double := do
  if !d.isFinite || d.isZero || 323 < places then pure d
  else if places < -308 then pure (Double.signedZero d.isNegative)
  else
    let (num, den) := d.ratio
    let scale := Nat.pow 10 places.natAbs
    let result :=
      if 0 ≤ places then Double.nearest d.isNegative (roundDiv (num * scale) den) scale
      else Double.nearest d.isNegative (roundDiv num (den * scale) * scale) 1
    if result.isInfinite then throw (.tooLarge "rounded value too large to represent")
    pure result

def integerRoundedTo (n places : Int) : Int :=
  if 0 ≤ places then n
  else
    let scale := Nat.pow 10 places.natAbs
    let nearest : Int := (roundDiv n.natAbs scale * scale : Nat)
    if n < 0 then -nearest else nearest

def rounded (b : Binding) (places? : Option Binding) : Result Binding := do
  let places? ← match places? with
    | none | some (.value .null) => pure none
    | some p => do pure (some (← p.asInt))
  match ← b.quantity, places? with
  | .whole n, none => pure (Binding.ofInt n)
  | .whole n, some places => pure (Binding.ofInt (integerRoundedTo n places))
  | .real d, some places => do pure (.value (.float (← roundedTo d places)))
  | .real d, none =>
    if d.isNaN then throw .noIntegerPart
    if d.isInfinite then throw .infiniteInteger
    pure (Binding.ofInt d.roundInt)
  | .complex .., _ => throw .wrongType

/-! ## Methods -/

def callInt? (n : Int) (name : String) (args : Arguments) : Option (Result Binding) :=
  match name with
  | "to_bytes" => some (toBytes n args)
  | _ => (NumberQuestion.named? name).map fun question => do
    args.none
    pure (.value (← question.answer n))

end Protobind.NumberMethod

import Protobind.Dictionary
import Protobind.Message.Fault

/-!
# Values

The type of a value is known only when it is used: an attribute may hold anything, whatever the kind
of its field.
-/

namespace Protobind

/-- The number of a class. -/
abbrev ClassId := Nat

/-- An instance of a message class, over the values that its attributes hold. -/
structure Record (α : Type) where
  type : ClassId
  attrs : List (String × α)
  extensions? : Option (List (Int × Bytes)) := none
  unknown? : Option Bytes := none

/-- What an attribute may hold. -/
inductive Value where
  | null
  | bool (value : Bool)
  | int (value : Int)
  | float (value : Double)
  /-- The one object for what is not a number. Like any other such number it equals none when the
  two are compared, but a collection finds it again. -/
  | nan
  | text (value : String)
  | bytes (value : Bytes)
  | list (items : List Value)
  | map (entries : List (Value × Value))
  | enum (type : ClassId) (number : Int)
  | variant (type : ClassId) (attr : String) (held : Value)
  | discriminator (type : ClassId)
  | message (record : Record Value)

/-- A message. -/
abbrev Message := Record Value

namespace Record

variable {α : Type}

def get? (r : Record α) (attr : String) : Option α := Dictionary.get? attr r.attrs

def set (r : Record α) (attr : String) (value : α) : Record α :=
  { r with attrs := Dictionary.set attr value r.attrs }

end Record

namespace Value

mutual

/-- A bound on the depth of a value, and of everything that can be decoded from the raw records in
it: the number of its parts, with each byte counted twice. -/
def weight : Value → Nat
  | .list items => weightItems items + 1
  | .map entries => weightEntries entries + 1
  | .variant _ _ held => held.weight + 1
  | .message ⟨_, attrs, extensions?, _⟩ => weightAttrs attrs + rawWeight (extensions?.getD []) + 1
  | .bytes bs => 2 * bs.length + 1
  | _ => 1

def weightItems : List Value → Nat
  | [] => 0
  | v :: vs => v.weight + weightItems vs

def weightEntries : List (Value × Value) → Nat
  | [] => 0
  | (k, v) :: rest => k.weight + v.weight + weightEntries rest

def weightAttrs : List (String × Value) → Nat
  | [] => 0
  | (_, v) :: rest => v.weight + weightAttrs rest

def rawWeight : List (Int × Bytes) → Nat
  | [] => 0
  | (_, raw) :: rest => 2 * raw.length + rawWeight rest

end

def truthy : Value → Bool
  | .null => false
  | .bool b => b
  | .int n => n != 0
  | .float d => !d.isZero
  | .nan => true
  | .text s => !s.isEmpty
  | .bytes bs => !bs.isEmpty
  | .list items => !items.isEmpty
  | .map entries => !entries.isEmpty
  | .enum _ n => n != 0
  | .variant .. | .discriminator _ | .message _ => true

def leafSource : Value → String
  | .null => "None"
  | .bool b => if b then "True" else "False"
  | .int n => toString n
  | .float d => d.toText
  | .nan => Double.nan.toText
  | .text s => Text.quote s
  | .bytes bs => Text.quoteBytes bs
  | _ => ""

def isNull : Value → Bool
  | .null => true
  | _ => false

def asInt : Value → Result Int
  | .bool b => .ok (if b then 1 else 0)
  | .int n => .ok n
  | .enum _ n => .ok n
  | _ => .error .wrongType

/-- The integer that a value is converted to: a floating-point number loses its fraction, and text
and bytes are read as numbers. -/
def toInteger : Value → Result Int
  | .float d =>
    if d.isNaN then .error .noIntegerPart
    else if d.isInfinite then .error .infiniteInteger
    else
      let whole : Nat := d.ratio.1 / d.ratio.2
      .ok (if d.isNegative then -(whole : Int) else whole)
  | .nan => .error .noIntegerPart
  | .text s => (readInteger s).mapError (.noInteger (Text.quote s))
  | .bytes bs =>
    let digits := bs.map fun b => if b < 128 then Char.ofNat b.toNat else '?'
    (readInteger (String.ofList digits)).mapError
      (.noInteger (Text.quoteBytes (bs.take IntegerError.shownLength)))
  | v => v.asInt

def doubleBits : Value → Result Nat
  | .float d => .ok d.bits.toNat
  | .nan => .ok Double.nan.bits.toNat
  | v =>
    match v.asInt with
    | .ok n =>
      match Double.ofInt? n with
      | some d => .ok d.bits.toNat
      | none => .error .badWord
    | .error _ => .error .badWord

def singleBits : Value → Result Nat
  | .float d =>
    match d.toSingle? with
    | some bits => .ok bits
    | none => .error .singleOverflow
  | .nan =>
    match Double.nan.toSingle? with
    | some bits => .ok bits
    | none => .error .singleOverflow
  | v =>
    match v.asInt with
    | .ok n =>
      match (Double.ofInt? n).bind Double.toSingle? with
      | some bits => .ok bits
      | none => .error .badWord
    | .error _ => .error .badWord

def ofDoubleBits (bits : Int) : Result Value :=
  if 0 ≤ bits && bits < 18446744073709551616 then .ok (.float ⟨UInt64.ofNat bits.toNat⟩)
  else .error .badWord

def ofSingleBits (bits : Int) : Result Value :=
  if 0 ≤ bits && bits < 4294967296 then .ok (.float (Double.ofSingle bits.toNat))
  else .error .badWord

def lookupAttrs : List String := ["__getattribute__", "__getattr__"]

def hasOwn (v : Value) (name : String) : Bool :=
  match v with
  | .message m => (m.get? name).isSome
  | .variant _ attr _ => attr == name || lookupAttrs.contains attr
  | _ => false

/-- The fault of calling what the class of a value does not have: an attribute of that name is
found, but cannot be called. -/
def callFault (v : Value) (name : String) : Fault :=
  if v.hasOwn name then .wrongType else .missingMember

def asText : Value → Result String
  | .text s => .ok s
  | v => .error (v.callFault "encode")

def asBytes : Value → Result Bytes
  | .bytes bs => .ok bs
  | _ => .error .wrongType

def length : Value → Result Nat
  | .text s => .ok s.length
  | .bytes bs => .ok bs.length
  | .list items => .ok items.length
  | .map entries => .ok entries.length
  | _ => .error .wrongType

/-- The parts of a value, one after another: of a dictionary its keys, of a text its characters, of
a byte string its bytes. -/
def items : Value → Result (List Value)
  | .list items => .ok items
  | .map entries => .ok (entries.map (·.1))
  | .text s => .ok (s.toList.map fun c => .text c.toString)
  | .bytes bs => .ok (bs.map fun b => .int b.toNat)
  | _ => .error .wrongType

def asByte (v : Value) : Result UInt8 := do
  let n ← v.asInt
  if 0 ≤ n && n < 256 then pure (UInt8.ofNat n.toNat) else throw .noByte

def maxBytes : Nat := 34359738368

/-- The bytes that a value is converted to: a number stands for as many zeros, and what has parts
for the bytes that they stand for. No text is converted. -/
def toBytes (v : Value) : Result Bytes :=
  match v with
  | .bytes bs => .ok bs
  | .text _ => .error .wrongType
  | .list _ | .map _ => do (← v.items).mapM asByte
  | _ => do
    let n ← v.asInt
    if n < -9223372036854775808 || 9223372036854775808 ≤ n then throw .countOverflow
    if n < 0 then throw .negativeCount
    if maxBytes < n.toNat then throw .outOfMemory
    pure (List.replicate n.toNat 0)

def entries (v : Value) : Result (List (Value × Value)) :=
  if !v.truthy then .ok []
  else
    match v with
    | .map entries => .ok entries
    | _ => .error (v.callFault "items")

def isKey : Value → Bool
  | .list _ | .map _ | .variant .. | .discriminator _ | .message _ => false
  | _ => true

def sameKey : Value → Value → Bool
  | .null, .null => true
  | .nan, .nan => true
  | .text a, .text b => a == b
  | .bytes a, .bytes b => a == b
  | .float a, .float b => a.equal b
  | .float a, b =>
    match b.asInt with
    | .ok n => a.equalInt n
    | .error _ => false
  | a, .float b =>
    match a.asInt with
    | .ok n => b.equalInt n
    | .error _ => false
  | a, b =>
    match a.asInt, b.asInt with
    | .ok m, .ok n => m == n
    | _, _ => false

def setEntry (key value : Value) : List (Value × Value) → List (Value × Value)
  | [] => [(key, value)]
  | (k, v) :: rest =>
    if sameKey k key then (k, value) :: rest else (k, v) :: setEntry key value rest

def valueOf? (key : Value) : List (Value × Value) → Option Value
  | [] => none
  | (k, v) :: rest => if sameKey k key then some v else valueOf? key rest

end Value

def Record.weight (m : Message) : Nat := (Value.message m).weight

end Protobind

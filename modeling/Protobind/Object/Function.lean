import Protobind.Object.Mathematics
import Protobind.Object.Method
import Protobind.Script.Token

/-!
# Built-in functions

What every module finds without defining it, as far as it needs nothing but its arguments.
-/

namespace Protobind.Function

open Binding (ofInt ofBool)

/-! ## Numbers -/

def digitValue? (base : Nat) (c : Char) : Option Nat :=
  let value? :=
    if c.isDigit then some (c.toNat - 48)
    else if c.isAlpha then some (c.toLower.toNat - 87)
    else none
  value?.filter (· < base)

def digitsIn? (base : Nat) (cs : List Char) : Option Nat := do
  let (digits, rest) ← Token.digits? (fun c => (digitValue? base c).isSome) cs
  if digits.isEmpty || !rest.isEmpty then none
  else digits.foldlM (fun n c => (digitValue? base c).map (base * n + ·)) 0

def freeBases : List Nat := [2, 4, 8, 16, 32]

def integerIn (base : Nat) (source : String) (cs : List Char) : Result Int :=
  let (negative, body) := Numeral.cutSign (Numeral.asciiDigits (Numeral.trim cs))
  let marked? : Option (Nat × List Char) := match body with
    | '0' :: sign :: rest => (Numeral.baseOfMark? sign).map fun base => (base, rest)
    | _ => none
  let value? := match marked?.filter fun (marked, _) => base = 0 || base = marked with
    | some (marked, rest) => digitsIn? marked rest
    | none =>
      if body.head? == some '_' then none
      else if base = 0 then Numeral.unsigned? body
      else digitsIn? base body
  let count := (body.filter (· != '_')).length
  match value? with
  | some n =>
    if marked?.isNone && !freeBases.contains base && IntegerError.maxDigits < count then
      .error (.noInteger source (.tooLong count))
    else .ok (if negative then -(n : Int) else n)
  | none => .error (.noIntegerIn base source)

def toInteger (args : Arguments) : Result Int := do
  let base? := Dictionary.get? "base" args.keywords
  let rest : Arguments := { args with keywords := Dictionary.erase "base" args.keywords }
  match ← rest.between 0 2, base? with
  | [], none => pure 0
  | [b], none => (← b.asValue).toInteger
  | [b, base], none | [b], some base =>
    let base ← base.asInt
    if base < 0 || base = 1 || 36 < base then throw .badBase
    let spelled? : Option (String × List Char) := match b with
      | .value (.text s) => some (Text.quote s, s.toList)
      | .value (.bytes bs) => some (Text.quoteBytes bs, (Binding.latinText bs).toList)
      | _ => none
    match spelled? with
    | some (source, cs) =>
      integerIn base.toNat source cs
    | none => throw .wrongType
  | _, _ => throw .wrongType

def toDouble (b : Binding) : Result Value := do
  match ← b.asValue with
  | .nan => pure .nan
  | .text s =>
    match readDouble? s with
    | some d => pure (.float d)
    | none => throw (.noDouble (Text.quote s))
  | .bytes bs =>
    match (Bytes.toText? bs).bind readDouble? with
    | some d => pure (.float d)
    | none => throw (.noDouble (Text.quoteBytes bs))
  | _ => do pure (.float (← b.asDouble))

def magnitude (b : Binding) : Result Binding := do
  match ← b.quantity with
  | .whole n => pure (ofInt n.natAbs)
  | .real d => pure (.value (.float d.abs))
  | .complex re im => pure (.value (.float (Double.hypot re im)))

/-! ## Collections -/

def total (reg : Registry) (sign : BinarySign) : Binding → List Binding → Result Binding
  | sum, [] => .ok sum
  | sum, b :: bs => do total reg sign (← Binding.joined reg sign sum b) bs

def meets (test : Binding → Bool) (b : Binding) : Result Bool := do
  let w ← b.walk
  if w.items.any test then pure true
  else
    match w.fault? with
    | some fault => throw fault
    | none => pure false

def numbers (args : List Binding) : Result Binding := do
  match ← args.mapM Binding.asInt with
  | [stop] => pure (.numbers 0 stop 1)
  | [first, stop] => pure (.numbers first stop 1)
  | [first, stop, step] =>
    if step = 0 then throw (.unsuitable "range() arg 3 must not be zero")
    pure (.numbers first stop step)
  | _ => throw .wrongType

/-! ## Types -/

def typeOf (reg : Registry) (b : Binding) : Binding :=
  match b with
  | .error path _ => .builtin path
  | .range .. => .builtin "proto.ExtensionRange"
  | .field _ => .builtin "proto.Field"
  | .buffer _ => .builtin "proto.Buffer"
  | .extension _ => .builtin "proto.ExtensionDesc"
  | _ =>
    match b.value?.bind Registry.classOf? with
    | some id => .type id
    | none => .builtin (b.typeName reg)

mutual

def isInstance (reg : Registry) (b : Binding) : Binding → Result Bool
  | .type id => .ok (((b.value?).map fun v => reg.isInstance v id).getD false)
  | .builtin path =>
    if Builtin.isClass path then .ok (Method.isInstanceOf reg b path) else .error .wrongType
  | .row types => isInstanceOfAny reg b types
  | .hidden => .error .notShowable
  | _ => .error .wrongType

def isInstanceOfAny (reg : Registry) (b : Binding) : List Binding → Result Bool
  | [] => .ok false
  | type :: types => do
    if ← isInstance reg b type then pure true else isInstanceOfAny reg b types

end

/-! ## Texts -/

def toText (reg : Registry) (args : Arguments) : Result String := do
  match ← args.slots ["object", "encoding", "errors"] with
  | [none, none, none] => pure ""
  | [some b, none, none] => b.display reg
  | _ => throw .notShowable

def toBytes (args : Arguments) : Result Bytes := do
  match ← args.slots ["source", "encoding", "errors"] with
  | [none, none, none] => pure []
  | [some b, none, none] =>
    match b with
    | .value v =>
      match v with
      | .list _ | .map _ => NumberMethod.bytesOf b
      | _ => v.toBytes
    | .constant _ n _ => (Value.int n).toBytes
    | _ => do
      (← b.items).mapM fun item => do
        let n ← item.asInt
        if 0 ≤ n && n < 256 then pure (UInt8.ofNat n.toNat)
        else throw (.unsuitable "bytes must be in range(0, 256)")
  | _ => throw .notShowable

/-! ## Calls -/

def ofOne? (reg : Registry) (path : String) : Option (Binding → Result Binding) :=
  match path with
  | "abs" => some magnitude
  | "all" => some fun b => do pure (ofBool !(← meets (fun item => !item.truthy) b))
  | "any" => some fun b => do pure (ofBool (← meets Binding.truthy b))
  | "len" => some fun b => do pure (ofInt (← b.length))
  | "repr" => some fun b => do pure (Binding.ofText (← b.source reg))
  | _ => none

/-- The answer of a class or function that every module finds, as far as it needs only its
arguments. -/
def call (reg : Registry) (path : String) (args : Arguments) : Result Binding :=
  match ofOne? reg path with
  | some f => do f (← args.only)
  | none =>
    match path with
    | "bool" => do
      match ← args.between 0 1 with
      | [b] => pure (ofBool b.truthy)
      | _ => pure (ofBool false)
    | "int" => do pure (ofInt (← toInteger args))
    | "float" => do
      match ← args.between 0 1 with
      | [b] => do pure (.value (← toDouble b))
      | _ => pure (.value (.float Double.zero))
    | "str" => do pure (Binding.ofText (← toText reg args))
    | "bytes" => do pure (.value (.bytes (← toBytes args)))
    | "list" => do
      match ← args.between 0 1 with
      | [b] => do pure (Binding.ofItems (← b.items))
      | _ => pure (.value (.list []))
    | "tuple" => do
      match ← args.between 0 1 with
      | [b] => do pure (.row (← b.items))
      | _ => pure (.row [])
    | "set" => do
      match ← args.between 0 1 with
      | [b] => do Binding.ofElements reg false (← b.items)
      | _ => pure (.set [] false)
    | "dict" => do pure (Binding.ofEntries (← CollectionMethod.updated reg [] args))
    | "range" => do numbers (← args.between 1 3)
    | "round" => do
      match ← args.slots ["number", "ndigits"] with
      | [some b, places?] => NumberMethod.rounded b places?
      | _ => throw .wrongType
    | "pow" => do
      match ← args.slots ["base", "exp", "mod"] with
      | [some a, some b, none] | [some a, some b, some (.value .null)] =>
        Binding.joined reg .power a b
      | [some a, some b, some c] => do
        pure (ofInt (← NumberMethod.reducedPower (← a.asInt) (← b.asInt) (← c.asInt)))
      | _ => throw .wrongType
    | "sum" => do
      match ← args.slots ["iterable", "start"] with
      | [some b, start?] =>
        let start := start?.getD (ofInt 0)
        match start with
        | .value (.text _) | .value (.bytes _) => throw .wrongType
        | _ => total reg .plus start (← b.items)
      | _ => throw .wrongType
    | "type" =>
      match args.placed with
      | [b] => if args.keywords.isEmpty then .ok (typeOf reg b) else .error .wrongType
      | _ => .error .wrongType
    | "isinstance" => do
      match ← args.between 2 2 with
      | [b, type] => do pure (ofBool (← isInstance reg b type))
      | _ => throw .wrongType
    | "print" => .ok Binding.nothing
    | "NoneType" => do
      let _ ← args.between 0 0
      pure Binding.nothing
    | "object" => if args.placed.isEmpty then .ok .hidden else .error .wrongType
    | _ =>
      if path.startsWith "math." then Mathematics.call (Builtin.lastName path) args
      else if Builtin.isError path then .ok (.error path args.placed)
      else if Builtin.singleObjects.contains path then .error .wrongType
      else .ok .hidden

end Protobind.Function

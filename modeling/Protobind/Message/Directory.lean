import Protobind.Message.Record
import Protobind.Message.Registry

/-!
# Directories of objects

An object lists the names of its own attributes, those of its class in the order of their
definition, and those of the classes behind it, each once.
-/

namespace Protobind

namespace Directory

def ofObjects : List String :=
  ["__new__", "__repr__", "__hash__", "__str__", "__getattribute__", "__setattr__", "__delattr__",
   "__lt__", "__le__", "__eq__", "__ne__", "__gt__", "__ge__", "__init__", "__reduce_ex__",
   "__reduce__", "__getstate__", "__subclasshook__", "__init_subclass__", "__format__",
   "__sizeof__", "__dir__", "__class__", "__doc__"]

def ofIntegers : List String :=
  ["__new__", "__repr__", "__hash__", "__getattribute__", "__lt__", "__le__", "__eq__", "__ne__",
   "__gt__", "__ge__", "__add__", "__radd__", "__sub__", "__rsub__", "__mul__", "__rmul__",
   "__mod__", "__rmod__", "__divmod__", "__rdivmod__", "__pow__", "__rpow__", "__neg__", "__pos__",
   "__abs__", "__bool__", "__invert__", "__lshift__", "__rlshift__", "__rshift__", "__rrshift__",
   "__and__", "__rand__", "__xor__", "__rxor__", "__or__", "__ror__", "__int__", "__float__",
   "__floordiv__", "__rfloordiv__", "__truediv__", "__rtruediv__", "__index__", "conjugate",
   "bit_length", "bit_count", "to_bytes", "from_bytes", "as_integer_ratio", "__trunc__",
   "__floor__", "__ceil__", "__round__", "__getnewargs__", "__format__", "__sizeof__", "real",
   "imag", "numerator", "denominator", "__doc__"]

def ofNothing : List String :=
  (["__new__", "__repr__", "__bool__", "__doc__"] ++ ofObjects).eraseDups

def ofMessages : List String :=
  ["__module__", "__annotations__", "__doc__", "_fields", "_oneofs", "_compared_attributes",
   "__eq__", "__hash__", "__repr__", "__str__", "__dict__", "__weakref__"]

def ofEnums : List String :=
  ["__module__", "__doc__", "string", "__str__", "__repr__", "__dict__"] ++ ofIntegers

def ofVariants : List String :=
  ["__module__", "__doc__", "__slots__", "__eq__", "__hash__", "__repr__"]

end Directory

def MessageType.definedNames (t : MessageType) : List String :=
  let when (holds : Bool) (names : List String) : List String := if holds then names else []
  let getters := t.getters.map (·.1)
  let setNames := when t.isMessageSet ["marshal", "unmarshal"]
  let rangeNames := when (t.ranges?.isSome || t.displaced?.isSome) ["extension_range_array"]
  let oneofNames := when t.codec?.isSome ["oneof_funcs"]
  match t.form with
  | .declared =>
    ["__module__", "_fields", "_oneofs", "__init__", "reset", "string", "proto_message"] ++
      when t.descriptor?.isSome ["descriptor"] ++
      when t.wellKnown?.isSome ["xxx_well_known_type"] ++
      setNames ++ rangeNames ++ getters ++ oneofNames ++ ["__doc__"]
  | _ =>
    ["__module__", "__doc__", "_original", "_fields", "_oneofs", "__init__", "reset", "string",
     "proto_message"] ++ rangeNames ++ setNames ++ oneofNames ++ getters

def EnumType.definedNames (t : EnumType) : List String :=
  ["__module__", "string"] ++ (if t.descriptor?.isSome then ["enum_descriptor"] else []) ++
    (if t.wellKnown?.isSome then ["xxx_well_known_type"] else []) ++ ["__doc__"]

namespace Registry

variable (reg : Registry)

def namesOf (id : ClassId) : List String :=
  let discriminator (name : String) : List String := ["__module__", "__doc__", "__slots__", name]
  (match reg.class? id with
  | some (.message t) => t.definedNames ++ Directory.ofMessages
  | some (.enum t) => t.definedNames ++ Directory.ofEnums
  | some (.variant t) =>
    let base := (t.base?.map reg.className).getD ""
    ["__module__", "__slots__", "__init__", base, t.stored, "__doc__"] ++ discriminator base ++
      Directory.ofVariants
  | some (.discriminator name) => discriminator name ++ Directory.ofVariants
  | none => []) ++ Directory.ofObjects

/-- The attributes that an object keeps. What the constructor of a message stores comes first. -/
def attributesOf (v : Value) : List (String × Value) :=
  match v with
  | .message m =>
    let params := ((reg.messageType? m.type).map fun t => t.params.map (·.attr)).getD []
    let (stored, set) := m.attrs.span fun (attr, _) => params.contains attr
    let apart := [extensionsAttr, unknownAttr].filterMap fun attr =>
      if Dictionary.contains attr m.attrs then none else (m.own? attr).map fun v => (attr, v)
    if (m.get? dictionaryAttr).isSome then Record.named m.entries else stored ++ apart ++ set
  | _ => []

def directoryOf (attrs : List String) (id : ClassId) : List String :=
  (attrs ++ reg.namesOf id).eraseDups

def storageOf (v : Value) : Nat :=
  match v with
  | .message _ | .variant .. => 24
  | .enum _ n => 24 + 4 * (max 1 (((if n = 0 then 0 else n.natAbs.log2 + 1) + 29) / 30))
  | _ => 16

end Registry

end Protobind

import Protobind.Object.Function
import Protobind.Session.Basic

/-!
# Names and members

What the names of a module and the members of what they are bound to mean, and how they are bound.
-/

namespace Protobind

open Binding (ofText ofInt nothing ofBool ofEntries)

/-! ## Members of things -/

def Binding.enumValue? : Binding → Option (ClassId × Int × Dictionary String Binding)
  | .value (.enum id n) => some (id, n, [])
  | .constant id n attrs => some (id, n, attrs)
  | _ => none

def Extension.attr? (ext : Extension) (name : String) : Option Binding :=
  match name with
  | "extended_type" => some (.type ext.extended)
  | "extension_type" => some (ofText ext.kind.name)
  | "field" => some (ofInt ext.number)
  | "name" => some (ofText ext.name)
  | "tag" => some (ofText ext.tag)
  | "filename" => some (ofText ext.file)
  | "type_name" => some ((ext.typeName?.map ofText).getD nothing)
  | "_info" => some nothing
  | "info" => some (.method (.extension ext) name)
  | _ => none

def Field.attr? (f : Field) (name : String) : Option Binding :=
  let slot := f.slot
  let tag := slot.tag
  let part (field : Field) : Binding := .field field
  match name with
  | "attr" => some (ofText slot.attr)
  | "kind" => some (ofText slot.kind.name)
  | "tag" => some (ofText tag.text)
  | "type_name" => some ((slot.typeName?.map ofText).getD nothing)
  | "key" => some (match f with
    | .map _ key _ => part key
    | .plain _ => nothing)
  | "value" => some (match f with
    | .map _ _ value => part value
    | .plain _ => nothing)
  | "wire_type" => some (ofInt tag.wireType.code)
  | "number" => some (ofInt tag.number)
  | "repeated" => some (ofBool tag.repeated)
  | "required" => some (ofBool tag.required)
  | "packed" => some (ofBool tag.packed)
  | "proto3" => some (ofBool tag.proto3)
  | "oneof" => some (ofBool tag.oneof)
  | "name" => some (ofText tag.name)
  | "json_name" => some (ofText tag.jsonName)
  | "enum" => some (ofText tag.enumName)
  | "default" => some ((tag.default?.map ofText).getD nothing)
  | _ => none

def Binding.data? (b : Binding) (name : String) : Option Binding :=
  match b with
  | .extension ext => ext.attr? name
  | .field f => f.attr? name
  | .range first last =>
    match name with
    | "start" => some first
    | "end" => some last
    | "_fields" => some (.row [ofText "start", ofText "end"])
    | _ => none
  | .numbers first stop step =>
    match name with
    | "start" => some (ofInt first)
    | "stop" => some (ofInt stop)
    | "step" => some (ofInt step)
    | _ => none
  | .error _ args => if name == "args" then some (.row args) else none
  | .buffer stored =>
    match name with
    | "_index" => some (ofInt stored.cursor)
    | "_data" => some .hidden
    | _ => if (Buffer.Operation.named? name).isSome then some (.method b name) else none
  | _ =>
    match b.quantity.toOption, name with
    | some (.whole n), "real" | some (.whole n), "numerator" => some (ofInt n)
    | some (.whole _), "imag" => some (ofInt 0)
    | some (.whole _), "denominator" => some (ofInt 1)
    | some (.real _), "real" => some b
    | some (.real _), "imag" => some (.value (.float Double.zero))
    | some (.complex re _), "real" => some (.value (.float re))
    | some (.complex _ im), "imag" => some (.value (.float im))
    | _, _ => none

def Binding.common? (reg : Registry) (b : Binding) (name : String) : Option Binding :=
  let type := match b with
    | .error .. => "error"
    | .range .. => "tuple"
    | _ => b.typeName reg
  match name with
  | "__class__" => some (Function.typeOf reg b)
  | "__doc__" => some .hidden
  | _ => if MemberName.isKnown type name then some (.method b name) else none

/-! ## Support modules -/

namespace Support

def messageConstant? : String → Option Binding
  | "WIRE_VARINT" => some (ofInt 0)
  | "WIRE_FIXED64" | "_MESSAGE_SET_ITEM" => some (ofInt 1)
  | "WIRE_BYTES" | "_MESSAGE_SET_TYPE_ID" => some (ofInt 2)
  | "WIRE_START_GROUP" | "_MESSAGE_SET_MESSAGE" => some (ofInt 3)
  | "WIRE_END_GROUP" => some (ofInt 4)
  | "WIRE_FIXED32" => some (ofInt 5)
  | "_MASK32" => some (ofInt 4294967295)
  | "_MASK64" => some (ofInt 18446744073709551615)
  | "_WIRE_TYPES" =>
    let wires : List (String × Int) :=
      [("varint", 0), ("zigzag32", 0), ("zigzag64", 0), ("fixed64", 1), ("fixed32", 5),
       ("bytes", 2), ("group", 3)]
    some (ofEntries (wires.map fun (name, n) => (ofText name, ofInt n)))
  | "_UNPACKABLE_KINDS" =>
    some (.set (["string", "bytes", "message", "group", "map"].map ofText) true)
  | _ => none

def messageObjects : List String :=
  ["_ENCODERS", "_DECODERS", "_SIZERS", "_field_index", "Any", "Callable", "NamedTuple"]

def messageModules : List String := ["_LOG", "logging", "struct"]

def registered? (reg : Registry) (name : String) : Option Binding :=
  let dictionary (entries : List (String × Binding)) : Option Binding :=
    some (ofEntries (entries.map fun (k, b) => (ofText k, b)))
  match name with
  | "_message_types" => dictionary reg.messageTypes
  | "_enum_types" => dictionary reg.enumTypes
  | "_enum_values" => dictionary reg.enumValues
  | "_file_descriptors" => dictionary (reg.files.map fun (k, v) => (k, .value v))
  | "_extensions" =>
    some (ofEntries (reg.extensions.map fun (id, known) =>
      (.type id, ofEntries (known.map fun (n, ext) => (ofInt n, .extension ext)))))
  | "_message_set_types" =>
    some (ofEntries (reg.messageSetTypes.map fun (n, b, label) =>
      (ofInt n, .row [b, ofText label])))
  | _ => none

def member? (reg : Registry) (owner name : String) : Option Binding :=
  if owner != "math" && owner != "proto" then some .hidden
  else if name == "__name__" then
    some (ofText (if owner == "math" then owner else "pybuf." ++ owner))
  else if owner == "math" then
    ((Mathematics.constant? name).map .value).or
      (if Builtin.mathFunctions.contains name then some (.builtin ("math." ++ name)) else none)
  else
    ((messageConstant? name).or (registered? reg name)).or
      (if messageObjects.contains name then some .hidden
      else if messageModules.contains name then some (.support name)
      else if Builtin.messageClasses.contains name || Builtin.messageFunctions.contains name then
        some (.builtin ("proto." ++ name))
      else none)

end Support

/-! ## Names -/

namespace Session

variable (s : Session) (module : Nat)

def global (name : String) : Result Binding :=
  match (s.namesOf module).get? (Name.normal name) with
  | some b => .ok b
  | none => .error .unboundName

def lookup (name : String) : Result Binding :=
  match ((s.namesOf module).get? name).or (Builtin.named? name) with
  | some b => .ok b
  | none => .error .unboundName

def attrsOf (id : ClassId) : Namespace := (s.classAttrs.get? id).getD []

def instanceMember? (v : Value) (id : ClassId) (name : String) : Option Binding :=
  let own? : Option Binding := match v with
    | .message m => (m.own? name).map .value
    | .variant _ attr held => if attr == name then some (.value held) else none
    | _ => none
  let method? : Option Binding :=
    (s.registry.memberOf? id name).map fun _ => .method (.value v) name
  own?.or (((s.attrsOf id).get? name).or method?)

def basesOf (id : ClassId) : List Binding :=
  match s.registry.class? id with
  | some (.message _) => [.builtin "proto.Message", .builtin "object"]
  | some (.enum _) => [.builtin "proto.Enum", .builtin "int", .builtin "object"]
  | some (.variant t) =>
    (t.base?.map Binding.type).toList ++ [.builtin "proto.OneofVariant", .builtin "object"]
  | some (.discriminator _) => [.builtin "proto.OneofVariant", .builtin "object"]
  | none => []

def metaMember? (b : Binding) (name path : String) (lineage : List Binding) : Option Binding :=
  match name with
  | "__name__" | "__qualname__" => some (ofText (Builtin.lastName path))
  | "__class__" => some (.builtin "type")
  | "__mro__" => some (.row lineage)
  | "__bases__" => some (.row ((lineage.drop 1).take 1))
  | "__base__" => some ((lineage.drop 1).headD nothing)
  | "__annotations__" =>
    match b with
    | .builtin path => if path.startsWith "proto." then some .hidden else none
    | _ => some (.value (.map []))
  | _ =>
    if MemberName.isKnown "type" name then
      some (if (MemberName.word? name).any MemberName.common.contains || name == "mro" then
        .method b name else .hidden)
    else none

def classMember? (id : ClassId) (name : String) : Option Binding :=
  let set? := (s.attrsOf id).get? name
  let own? : Option Binding :=
    match s.registry.class? id, name with
    | some (.message t), "_oneofs" => some (.row (t.oneofs.map ofText))
    | some (.message t), "_fields" => some (.row (t.fields.map .field))
    | some (.message { standsFor? := some other, .. }), "_original" => some (.type other)
    | some (.variant t), "__slots__" => some (.row [ofText t.slot])
    | some (.discriminator _), "__slots__" => some (.row [])
    | _, "__module__" =>
      some (((s.registry.homes.get? id).map ofText).getD .hidden)
    | _, "__class__" => some (.builtin "type")
    | _, _ => (s.registry.memberOf? id name).map fun _ => .method (.type id) name
  set?.or (own?.or
    (metaMember? (.type id) name (s.registry.className id) (.type id :: s.basesOf id)))

def builtinMember? (path name : String) : Option Binding :=
  if Builtin.isClass path then
    let lineage := (Builtin.lineage 10 path).map Binding.builtin
    let type := if Builtin.isError path then "error"
      else if path == "proto.ExtensionRange" then "tuple"
      else if path == "proto.Enum" then "int"
      else path
    match name with
    | "__module__" =>
      some (ofText (if path.startsWith "proto." then "pybuf.proto" else "builtins"))
    | "__match_args__" =>
      if path == "proto.ExtensionRange" then
        some (.row [ofText "start", ofText "end"])
      else none
    | _ =>
      let isCommon := (MemberName.word? name).any MemberName.common.contains
      let own? : Option Binding :=
        if MemberName.isKnown type name then some (.method (.builtin path) name) else none
      let meta? := metaMember? (.builtin path) name path lineage
      -- What the instances alone have comes before what every class has.
      if isCommon then meta?.or own? else own?.or meta?
  else
    match name with
    | "__name__" | "__qualname__" => some (ofText (Builtin.lastName path))
    | _ =>
      if MemberName.isKnown "builtin_function_or_method" name then
        some (.method (.builtin path) name)
      else none

def moduleDictionary (id : Nat) : Binding :=
  ofEntries ((s.namesOf id).map fun (name, b) => (ofText name, b))

def moduleMember? (id : Nat) (name : String) : Option Binding :=
  match name with
  | "__dict__" => some (s.moduleDictionary id)
  | "__annotations__" => some (.value (.map []))
  | _ => (Binding.module id).common? s.registry name

def memberIn (b : Binding) (name : String) : Result Binding :=
  let found? : Option Binding :=
    match b with
    | .module id => ((s.namesOf id).get? name).or (s.moduleMember? id name)
    | .support owner => (Support.member? s.registry owner name).or (b.common? s.registry name)
    | .type id => s.classMember? id name
    | .constant type n attrs =>
      (Dictionary.get? name attrs).or
        ((b.data? name).or (s.instanceMember? (.enum type n) type name))
    | .builtin path => builtinMember? path name
    | .closure .. | .function .. =>
      if name == "__name__" then some .hidden else b.common? s.registry name
    | .hidden => some .hidden
    | _ =>
      match b.value?.bind fun v => (Registry.classOf? v).map fun id => (v, id) with
      | some (v, id) => (b.data? name).or (s.instanceMember? v id name)
      | none => (b.data? name).or (b.common? s.registry name)
  match found? with
  | some b => .ok b
  | none => .error .missingMember

/-! ## Binding names -/

def enumAttrFault? (attr : String) : Option Fault :=
  if Value.integerAttrs.contains attr then some .missingMember
  else if attr == "__class__" || attr == "__dict__" then some .wrongType
  else none

def setMember (owner : Binding) (name : String) (b : Binding) : Result (Session × Option Binding) :=
  match owner with
  | .module id => .ok (s.bindName id name b, none)
  | .type id =>
    let attrs := (s.attrsOf id).set name b
    .ok ({ s with classAttrs := s.classAttrs.set id attrs }, none)
  | .hidden | .support _ | .closure .. | .function .. => .ok (s, none)
  | .builtin path =>
    .error (if path.startsWith "proto." && Builtin.isClass path then .notShowable
      else if Builtin.isClass path then .wrongType else .missingMember)
  | _ =>
    match owner.enumValue? with
    | some (id, n, attrs) =>
      match enumAttrFault? name with
      | some fault => .error fault
      | none => .ok (s, some (.constant id n (attrs.set name b)))
    | none =>
      match owner, b.value? with
      | .value v, some x =>
        match Registry.classOf? v with
        | some _ => do pure (s, some (.value (← v.assign name x)))
        | none => .error .missingMember
      | .value (.message _), none => .error .notShowable
      | _, _ => .error .missingMember

/-- A thing with something else at the end of a path of members, and the session behind. -/
def setPath (owner : Binding) (b : Binding) : List String → Result (Session × Option Binding)
  | [] => .ok (s, some b)
  | [name] => s.setMember owner name b
  | name :: rest => do
    let inner ← s.memberIn owner name
    let (s, new?) ← setPath inner b rest
    match new? with
    | some new => s.setMember owner name new
    | none => pure (s, none)

/-- Binds a path of names in a module: each name belongs to what the path in front of it means. -/
def bindIn (module : Nat) (b : Binding) : List String → Result Session
  | [] => .error .unboundName
  | [name] => .ok (s.bindName module name b)
  | owner :: path =>
    match (s.namesOf module).get? owner with
    | none => .error .unboundName
    | some old => do
      let (s, new?) ← s.setPath old b path
      match new? with
      | some new => pure (s.bindName module owner new)
      | none => pure s

def bindPath (name : String) (b : Binding) : Result Session :=
  s.bindIn module b
    ((Text.splitOn '.' name.toList).map fun part => Name.normal (String.ofList part))

end Session

end Protobind

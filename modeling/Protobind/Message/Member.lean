import Protobind.Message.Directory
import Protobind.Message.Getter
import Protobind.Message.NumberQuestion
import Protobind.Message.Text

/-!
# Members

A member is found by its name, in the object first and in its class afterwards, and called without
arguments. A class answers for nothing as well: then the member is called on no object.
-/

namespace Protobind

/-- What a member does when it is called. -/
inductive Member where
  | getter (a : Accessor)
  | reset
  | construct
  | another (id : ClassId)
  | display
  | source
  | nothing
  | positions (indexes : List Nat)
  | wellKnown (name : String)
  | ranges (ranges : List FieldRange)
  | displaced (b : Result Binding)
  | oneofs (codec : OneofCodec)
  | encodeSet
  | compared
  | state
  | directory
  | storage
  | number (question : NumberQuestion)
  | data
  | unshown

def binaryMethods : List String :=
  ["__eq__", "__ne__", "__lt__", "__le__", "__gt__", "__ge__", "__setattr__", "__getattribute__",
   "__delattr__", "__format__", "__new__", "__reduce_ex__"]

/-- The names that every class binds to something that cannot be called. -/
def plainMembers : List String := ["__dict__", "__doc__", "__module__", "__hash__"] ++ binaryMethods

def commonMember? (name : String) : Option Member :=
  match name with
  | "__init_subclass__" => some .nothing
  | "__getstate__" => some .state
  | "__dir__" => some .directory
  | "__sizeof__" => some .storage
  | "__subclasshook__" => some .unshown
  | _ => if plainMembers.contains name then some .data else none

namespace MessageType

def getter? (t : MessageType) (name : String) : Option Member :=
  (t.getters.get? name).map .getter

def member? (t : MessageType) (name : String) : Option Member :=
  match name with
  | "reset" => some .reset
  | "__init__" => some .construct
  | "string" => if t.form = .given then none else some .display
  | "proto_message" => if t.form = .given then none else some .nothing
  | "descriptor" => t.descriptor?.map .positions
  | "xxx_well_known_type" => t.wellKnown?.map .wellKnown
  | "extension_range_array" => (t.ranges?.map .ranges).or (t.displaced?.map .displaced)
  | "oneof_funcs" => t.codec?.map .oneofs
  | "marshal" => if t.isMessageSet then some .encodeSet else t.getter? name
  | "unmarshal" => if t.isMessageSet then some .data else t.getter? name
  | "_compared_attributes" => some .compared
  | "__str__" => some .display
  | "__repr__" => some .source
  | "_fields" | "_oneofs" | "__annotations__" | "__weakref__" => some .data
  | "_original" => if t.standsFor?.isSome then some .data else none
  | "__reduce__" => some .unshown
  | _ => (commonMember? name).or (t.getter? name)

end MessageType

def EnumType.member? (t : EnumType) (name : String) : Option Member :=
  match name with
  | "string" | "__str__" => some .display
  | "__repr__" => some .source
  | "__init__" => some .nothing
  | "__reduce__" => some .unshown
  | "enum_descriptor" => t.descriptor?.map .positions
  | "xxx_well_known_type" => t.wellKnown?.map .wellKnown
  | _ =>
    if Value.integerAttrs.contains name || NumberQuestion.isOperation name then some .data
    else ((NumberQuestion.named? name).map .number).or (commonMember? name)

namespace Registry

variable (reg : Registry)

def memberOf? (id : ClassId) (name : String) : Option Member :=
  if name == "__class__" then some (.another id)
  else match reg.class? id with
  | some (.message t) => t.member? name
  | some (.enum t) => t.member? name
  | some (.variant t) =>
    if name == "__slots__" || name == t.stored then some .data
    else if some name == t.base?.map reg.className then some .nothing
    else if name == "__init__" then some .construct
    else shared name
  | some (.discriminator base) =>
    if name == "__slots__" then some .data
    else if name == base || name == "__init__" then some .nothing
    else shared name
  | none => none
where
  shared (name : String) : Option Member :=
    match name with
    | "__str__" => some .display
    | "__repr__" => some .source
    | "__reduce__" => some .data
    | _ => commonMember? name

def positions (indexes : List Nat) : Value := .list (indexes.map fun (i : Nat) => .int i)

def stateWith (attrs : List (String × Value)) : Value :=
  if attrs.isEmpty then .null else .map (attrs.map fun (attr, v) => (.text attr, v))

def stateOf (v : Value) : Binding :=
  match v with
  | .variant _ attr held => .row [.value .null, .value (.map [(.text attr, held)])]
  | _ => .value (stateWith (reg.attributesOf v))

def listedNames (attrs : List (String × Value)) (v : Value) : Value :=
  .list (((((classOf? v).map (reg.directoryOf (attrs.map (·.1)))).getD [])).map .text)

def callOn (v : Value) : Member → Result (Binding × Value)
  | .getter a =>
    match v with
    | .message m => do pure (← a.read reg (some m), v)
    | _ => .error .missingMember
  | .reset =>
    match v with
    | .message m => do pure (.value .null, .message (← reg.reset m))
    | _ => .error .missingMember
  | .construct =>
    match v with
    | .message m => do pure (.value .null, .message (← reg.reconstruct m))
    | .variant id .. => do pure (.value .null, ← reg.instantiate (.type id))
    | _ => .error .missingMember
  | .another id => do pure (.value (← reg.instantiate (.type id)), v)
  | .display => do pure (.value (.text (← displayText reg v)), v)
  | .source => do pure (.value (.text (← sourceForm reg v)), v)
  | .nothing => .ok (.value .null, v)
  | .positions indexes => .ok (.value (positions indexes), v)
  | .wellKnown name => .ok (.value (.text name), v)
  | .ranges ranges => .ok (.ranges ranges, v)
  | .displaced b => do pure (← b, v)
  | .oneofs _ => .error .notShowable
  | .encodeSet =>
    match v with
    | .message m =>
      match m.extensionStore? with
      | some store => do pure (.value (.bytes (← MessageSet.encodeStore store)), v)
      | none => .error .missingMember
    | _ => .error .missingMember
  | .compared =>
    match v with
    | .message m =>
      match reg.messageType? m.type with
      | some t => do
        let table ← t.tableOf m
        let names := table.map (·.slot.attr) ++ (← t.oneofsOf m) ++ [extensionsAttr]
        pure (.value (.list (names.map .text)), v)
      | none => .error .missingMember
    | _ => .error .missingMember
  | .state => .ok (reg.stateOf v, v)
  | .directory => .ok (.value (reg.listedNames (reg.attributesOf v) v), v)
  | .storage => .ok (.value (.int (storageOf v)), v)
  | .number question => do pure (.value (← question.answer (← v.asInt)), v)
  | .data => .error .wrongType
  | .unshown => .error .notShowable

/-- Calls a member of an object: what it answers, and the object behind the call. What an object has
as an attribute of its own hides the members of its class, and no attribute can be called. -/
def callMember (v : Value) (name : String) : Result (Binding × Value) :=
  let own := match v with
    | .message m => m.has name
    | _ => false
  if own then .error .wrongType
  else
    match (classOf? v).bind fun id => reg.memberOf? id name with
    | some member => reg.callOn v member
    | none => .error .missingMember

def storesAnything (id : ClassId) : Bool :=
  match reg.messageType? id with
  | some t => !t.params.isEmpty || t.hasExtensions || t.keepsUnknown
  | none => (reg.variantType? id).isSome

def handingFault? (id : ClassId) : Option Fault :=
  match reg.messageType? id with
  | some { form := .forwarding _ lost?, .. } => lost?
  | _ => none

def constructionFault? (id : ClassId) : Option Fault :=
  ((reg.messageType? id).bind (·.form.constructorFault?)).or
    (if reg.storesAnything id then some .missingMember else none)

def callOnNothing (id : ClassId) (name : String) : Result Binding :=
  let isEnum := (reg.enumType? id).isSome
  match reg.memberOf? id name with
  | none => .error .missingMember
  | some member =>
    match member with
    | .getter a => a.read reg none
    | .nothing => .ok (.value .null)
    | .reset => (reg.handingFault? id).elim (.ok (.value .null)) .error
    | .construct => (reg.constructionFault? id).elim (.ok (.value .null)) .error
    | .another _ => .error .notShowable
    | .display =>
      if isEnum && name == "string" then .error .wrongType
      else if isEnum || (reg.messageType? id).isSome then .error .missingMember
      else do pure (.value (.text (← displayText reg .null)))
    | .source => if isEnum then .error .wrongType else .error .missingMember
    | .positions indexes => .ok (.value (positions indexes))
    | .wellKnown name => .ok (.value (.text name))
    | .ranges ranges => .ok (.ranges ranges)
    | .displaced b => b
    | .oneofs _ => .error .notShowable
    | .state => .ok (.value .null)
    | .directory => .ok (.value (.list (Directory.ofNothing.map .text)))
    | .storage => if isEnum then .error .wrongType else .ok (.value (.int (storageOf .null)))
    | .encodeSet | .compared => .error .missingMember
    | .number _ | .data => .error .wrongType
    | .unshown => .error .notShowable

end Registry

end Protobind

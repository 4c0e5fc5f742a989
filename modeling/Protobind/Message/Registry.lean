import Protobind.Message.Class

/-!
# Registries

A class that forwards to another one for a public import has the same table and counts as the same
type. A registry takes whatever it is given under a name; that it is no class shows only when it is
called.
-/

namespace Protobind

/-- The classes, and what is registered under names and numbers. -/
structure Registry where
  classes : Array ClassDef := #[]
  homes : Dictionary ClassId String := []
  messageTypes : Dictionary String Binding := []
  enumTypes : Dictionary String Binding := []
  enumValues : Dictionary String Binding := []
  extensions : Dictionary ClassId (Dictionary Int Extension) := []
  messageSetTypes : Dictionary Int (Binding × String) := []
  files : Dictionary String Value := []

namespace Registry

variable (reg : Registry)

variable (id : ClassId)

def class? : Option ClassDef := reg.classes[id]?

def messageType? : Option MessageType :=
  match reg.class? id with
  | some (.message t) => some t
  | _ => none

def enumType? : Option EnumType :=
  match reg.class? id with
  | some (.enum t) => some t
  | _ => none

def variantType? : Option VariantType :=
  match reg.class? id with
  | some (.variant t) => some t
  | _ => none

def className : String :=
  match reg.class? id with
  | some c => c.name
  | none => ""

def classPath : String :=
  match reg.homes.get? id with
  | some home => home ++ "." ++ reg.className id
  | none => reg.className id

def canonical : ClassId := ((reg.messageType? id).bind (·.standsFor?)).getD id

def typeName : Value → String
  | .null => "NoneType"
  | .bool _ => "bool"
  | .int _ => "int"
  | .float _ | .nan => "float"
  | .text _ => "str"
  | .bytes _ => "bytes"
  | .list _ => "list"
  | .map _ => "dict"
  | .enum id _ | .variant id _ _ | .discriminator id => reg.className id
  | .message m => reg.className m.type

def classOf? : Value → Option ClassId
  | .enum id _ | .variant id _ _ | .discriminator id => some id
  | .message m => some m.type
  | _ => none

def isInstance (v : Value) (id : ClassId) : Bool :=
  match v with
  | .enum type _ => type == id
  | .discriminator type => type == id
  | .message m => m.type == id
  | .variant type _ _ => type == id || ((reg.variantType? type).bind (·.base?)) == some id
  | _ => false

def messageClass (name : String) : Result Binding :=
  match reg.messageTypes.get? name with
  | some b => .ok b
  | none => .error (.usage (.unknownMessageType name))

def addClass (c : ClassDef) : ClassId × Registry :=
  (reg.classes.size, { reg with classes := reg.classes.push c })

def replaceClass (c : ClassDef) : Registry :=
  { reg with classes := reg.classes.setIfInBounds id c }

def registerMessage (b : Binding) (name : String) : Registry × List String :=
  ({ reg with messageTypes := reg.messageTypes.set name b },
   if reg.messageTypes.contains name then
     [s!"proto: duplicate proto type registered: {name}"]
   else [])

/-- Registers an enum by its numbers, with its class if there is one; the warning when the name was
taken. -/
def registerEnum (name : String) (values : Binding) (type? : Option Binding) :
    Registry × List String :=
  ({ reg with
      enumValues := reg.enumValues.set name values
      enumTypes := match type? with
        | some type => reg.enumTypes.set name type
        | none => reg.enumTypes },
   if reg.enumValues.contains name then
     [s!"proto: duplicate enum registered: {name}"]
   else [])

def extensionsOf : Dictionary Int Extension :=
  (reg.extensions.get? (reg.canonical id)).getD []

def registerExtension (ext : Extension) : Registry × List String :=
  let known := reg.extensionsOf ext.extended
  ({ reg with
      extensions :=
        Dictionary.set (reg.canonical ext.extended) (known.set ext.number ext)
          reg.extensions },
   if known.contains ext.number then
     [s!"proto: duplicate extension registered: {reg.className ext.extended} {ext.number}"]
   else [])

def registerMessageSet (b : Binding) (number : Int) (name : String) : Registry :=
  { reg with messageSetTypes := reg.messageSetTypes.set number (b, name) }

def registerFile (name : String) (descriptor : Value) : Registry :=
  { reg with files := reg.files.set name descriptor }

end Registry

end Protobind

import Protobind.Message.Field
import Protobind.Module.Oneof
import Protobind.Script.Expression
import Protobind.Wire.Buffer

/-!
# Classes

What is known of classes, and what else names may be bound to. What the methods of a class refer to
is looked up when they are called, so a class keeps the fault of a name that is not there.
-/

namespace Protobind

/-- Numbers that extensions may have. -/
structure FieldRange where
  first : Int
  last : Int
  deriving DecidableEq

def inRanges (number : Int) (ranges : List FieldRange) : Bool :=
  ranges.any fun r => r.first ≤ number && number ≤ r.last

/-- The description of an extension. -/
structure Extension where
  extended : ClassId
  kind : SlotKind
  number : Int
  name : String
  tag : String
  file : String
  typeName? : Option String := none
  deriving DecidableEq

def Extension.source (ext : Extension) : String :=
  s!"ExtensionDesc({Text.quote ext.name}, {ext.number})"

/-- What a name may be bound to. -/
inductive Binding where
  | type (id : ClassId)
  | value (v : Value)
  | ranges (ranges : List FieldRange)
  | extension (ext : Extension)
  | module (id : Nat)
  | support (name : String)
  | function (owner : String) (groups : List OneofGroup)
  | constant (type : ClassId) (number : Int) (attrs : List (String × Binding))
  | row (items : List Binding)
  | list (items : List Binding)
  | set (items : List Binding) (fixed : Bool)
  | dictionary (entries : List (Binding × Binding))
  | numbers (first stop step : Int)
  | stream (items : List Binding) (fault? : Option Fault)
  | complex (real imaginary : Double)
  | range (first last : Binding)
  | field (f : Field)
  | buffer (b : Buffer)
  | error (path : String) (args : List Binding)
  | builtin (path : String)
  | method (owner : Binding) (name : String)
  | listing (form : String) (items : List Binding)
  /-- A function of a module, with the names that it has found around it in comprehensions, and the
  numbers of the functions around it, innermost first. -/
  | closure (module : Nat) (params : List (Parameter Binding)) (own : List String)
      (body : Expression) (names : List (String × Binding)) (around : List Nat)
  /-- Something of which nothing is known but that it cannot be shown. -/
  | hidden

/-! ## Messages -/

/-- A member of a oneof, with its variant class. -/
structure VariantMember where
  number : Int
  kind : Kind
  attr : String
  variant : Result Binding
  type : Result Binding := .error .unboundName

/-- A oneof of a class, and the attribute that holds it. -/
structure OneofSlot where
  attr : String
  label : String
  members : List VariantMember

/-- The functions that write and read the oneofs of a class. -/
structure OneofCodec where
  owner : String
  groups : List OneofSlot
  rebound : List String := []

/-- A parameter of a constructor, and the attribute that it sets. -/
structure Param where
  name : String
  attr : String
  default : Value := .null
  whenNull : Value := .null

/-- What a getter of a message class does: it answers with what an attribute holds, or with a
fallback. -/
inductive Accessor where
  | stored (attr : String) (fallback : Result Binding)
  | unlessNull (attr : String) (fallback : Result Binding)
  | member (group : String) (variant : Result Binding) (attr : String)
      (fallback : Result Binding)

/-- How a message class came about. -/
inductive MessageForm where
  | declared
  /-- A module defines the class to forward to another one; `captured` tells that the parameters of
  its constructor hide the module of that class, and `lost?` why no method finds that class. -/
  | forwarding (captured : Bool) (lost? : Option Fault := none)
  | given
  deriving DecidableEq

def MessageForm.constructorFault? : MessageForm → Option Fault
  | .forwarding captured lost? => if captured then some .missingMember else lost?
  | _ => none

/-- A message class. -/
structure MessageType where
  name : String
  form : MessageForm := .declared
  standsFor? : Option ClassId := none
  fields : List Field := []
  index? : Option (List Field) := none
  oneofs : List String := []
  params : List Param := []
  ranges? : Option (List FieldRange) := none
  /-- What the name of the ranges means instead, when it means no ranges. -/
  displaced? : Option (Result Binding) := none
  hasExtensions : Bool := false
  keepsUnknown : Bool := false
  isMessageSet : Bool := false
  codec? : Option OneofCodec := none
  getters : Dictionary String Accessor := []
  descriptor? : Option (List Nat) := none
  wellKnown? : Option String := none

def MessageType.ranges (t : MessageType) : List FieldRange := t.ranges?.getD []

def fieldNumbered? (number : Int) (table : List Field) : Option Field :=
  table.reverse.find? (·.number == number)

/-! ## Enums and variants -/

/-- An enum class. -/
structure EnumType where
  name : String
  labels : Result (Dictionary Int String) := .ok []
  descriptor? : Option (List Nat) := none
  wellKnown? : Option String := none

def EnumType.label (t : EnumType) (number : Int) : Result String := do
  pure (((← t.labels).get? number).getD (toString number))

/-- A class for a member of a oneof. -/
structure VariantType where
  name : String
  base? : Option ClassId
  slot : String
  stored : String
  assigned : String
  default : Value := .null

namespace VariantType

/-- Why a class cannot have instances that hold a value in its slot. The constructor assigns to the
slot by its name, so the slot must be found there and take the value. -/
def constructorFault? (t : VariantType) (held : Value) : Option Fault :=
  if t.stored ≠ t.assigned then some .missingMember
  else
    match t.slot with
    | "__new__" => some .wrongType
    | "__setattr__" | "__weakref__" => some .missingMember
    | "__dict__" =>
      match held with
      | .map _ => none
      | _ => some .wrongType
    | _ => none

def hides (t : VariantType) (method : String) : Bool := t.slot == method

/-- Why no attribute of an instance can be read: the slot takes the place of the method that reads
attributes. -/
def readingFault? (t : VariantType) : Option Fault :=
  if t.hides "__getattribute__" then some .wrongType else none

/-- Why the slot cannot be read by its declared name. A slot that is stored under another name is
not found. -/
def slotFault? (t : VariantType) : Option Fault :=
  t.readingFault?.or (if t.stored = t.slot then none else some .missingMember)

end VariantType

/-- A class. -/
inductive ClassDef where
  | message (type : MessageType)
  | enum (type : EnumType)
  | variant (type : VariantType)
  | discriminator (name : String)

def ClassDef.name : ClassDef → String
  | .message t => t.name
  | .enum t => t.name
  | .variant t => t.name
  | .discriminator name => name

end Protobind

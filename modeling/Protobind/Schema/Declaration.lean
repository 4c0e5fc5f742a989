import Protobind.Schema.Kind

/-!
# Declarations

A schema file as the compiler receives it. A property that is not mentioned is absent, which differs
from an empty value; the accessors without a question mark read it as its default.
-/

namespace Protobind

/-- How often a field occurs. -/
inductive Label where
  | optional
  | required
  | repeated
  deriving DecidableEq

/-- The options of a field. -/
structure FieldOptions where
  packed? : Option Bool := none
  deprecated? : Option Bool := none
  deriving DecidableEq

/-- A field or an extension. -/
structure FieldDecl where
  name? : Option String := none
  extendee? : Option String := none
  number? : Option Int := none
  label? : Option Label := none
  kind? : Option Kind := none
  typeName? : Option String := none
  default? : Option String := none
  oneofIndex? : Option Int := none
  jsonName? : Option String := none
  options? : Option FieldOptions := none
  proto3Optional? : Option Bool := none
  deriving DecidableEq

namespace FieldDecl

variable (f : FieldDecl)

def name : String := f.name?.getD ""
def extendee : String := f.extendee?.getD ""
def number : Int := f.number?.getD 0
def label : Label := f.label?.getD .optional
def kind : Kind := f.kind?.getD .double
def typeName : String := f.typeName?.getD ""
def default : String := f.default?.getD ""
def jsonName : String := f.jsonName?.getD ""
def oneofIndex : Int := f.oneofIndex?.getD 0
def proto3Optional : Bool := f.proto3Optional?.getD false

def isRepeated : Bool := f.label == .repeated

def namesType : Bool := f.kind.isMessage || f.kind == .enum

/-- Whether the field belongs to a declared oneof. An optional field of a proto3 file sits in a
oneof of its own, which is not declared. -/
def inOneof : Bool := f.oneofIndex?.isSome && !f.proto3Optional

/-- Whether the values of the field are written as one run. An explicit option decides; without one,
lists of numbers are packed in proto3 files. -/
def isPacked (proto3 : Bool) : Bool :=
  match f.options?.bind (·.packed?) with
  | some packed => packed
  | none => proto3 && f.isRepeated && f.kind.isNumeric

end FieldDecl

/-- A value of an enum. -/
structure EnumValueDecl where
  name? : Option String := none
  number? : Option Int := none
  deriving DecidableEq

namespace EnumValueDecl

def name (v : EnumValueDecl) : String := v.name?.getD ""
def number (v : EnumValueDecl) : Int := v.number?.getD 0

end EnumValueDecl

/-- A range of numbers. -/
structure RangeDecl where
  start? : Option Int := none
  stop? : Option Int := none
  deriving DecidableEq

namespace RangeDecl

def start (r : RangeDecl) : Int := r.start?.getD 0

def stop (r : RangeDecl) : Int := r.stop?.getD 0

end RangeDecl

/-- The options of an enum. -/
structure EnumOptions where
  allowAlias? : Option Bool := none
  deprecated? : Option Bool := none
  deriving DecidableEq

/-- An enum. -/
structure EnumDecl where
  name? : Option String := none
  values : List EnumValueDecl := []
  options? : Option EnumOptions := none
  reservedRanges : List RangeDecl := []
  reservedNames : List String := []
  deriving DecidableEq

namespace EnumDecl

def name (e : EnumDecl) : String := e.name?.getD ""

def allowAlias (e : EnumDecl) : Bool := (e.options?.bind (·.allowAlias?)).getD false

def numbers (e : EnumDecl) : List (String × Int) := e.values.map fun v => (v.name, v.number)

end EnumDecl

/-- A oneof. -/
structure OneofDecl where
  name? : Option String := none
  deriving DecidableEq

def OneofDecl.name (o : OneofDecl) : String := o.name?.getD ""

/-- The options of a message. -/
structure MessageOptions where
  messageSet? : Option Bool := none
  noStandardAccessor? : Option Bool := none
  deprecated? : Option Bool := none
  mapMark? : Option Bool := none
  deriving DecidableEq

/-- A message. -/
structure MessageDecl where
  name? : Option String := none
  fields : List FieldDecl := []
  nested : List MessageDecl := []
  enums : List EnumDecl := []
  extensionRanges : List RangeDecl := []
  extensions : List FieldDecl := []
  options? : Option MessageOptions := none
  oneofs : List OneofDecl := []
  reservedRanges : List RangeDecl := []
  reservedNames : List String := []

namespace MessageDecl

def name (m : MessageDecl) : String := m.name?.getD ""

def isMessageSet (m : MessageDecl) : Bool := (m.options?.bind (·.messageSet?)).getD false

/-- Whether the message stands for an entry of a map: it is marked so, and its fields are a key and
a value. -/
def isMapEntry (m : MessageDecl) : Bool :=
  (m.options?.bind (·.mapMark?)).getD false && m.fields.map (·.number) == [1, 2]

end MessageDecl

/-- A method of a service. -/
structure MethodDecl where
  name? : Option String := none
  inputType? : Option String := none
  outputType? : Option String := none
  clientStreaming? : Option Bool := none
  serverStreaming? : Option Bool := none
  deriving DecidableEq

/-- A service. -/
structure ServiceDecl where
  name? : Option String := none
  methods : List MethodDecl := []
  deriving DecidableEq

/-- The options of a file. -/
structure FileOptions where
  javaPackage? : Option String := none
  javaMultipleFiles? : Option Bool := none
  goPackage? : Option String := none
  deprecated? : Option Bool := none
  deriving DecidableEq

/-- A place in a file, and its comment. -/
structure Location where
  path : List Int := []
  comment? : Option String := none
  deriving DecidableEq

/-- A file. -/
structure FileDecl where
  name? : Option String := none
  package? : Option String := none
  dependencies : List String := []
  messages : List MessageDecl := []
  enums : List EnumDecl := []
  services : List ServiceDecl := []
  extensions : List FieldDecl := []
  options? : Option FileOptions := none
  locations : List Location := []
  publicDependencies : List Int := []
  weakDependencies : List Int := []
  edition? : Option String := none

namespace FileDecl

def name (f : FileDecl) : String := f.name?.getD ""
def package (f : FileDecl) : String := f.package?.getD ""

def isProto3 (f : FileDecl) : Bool := f.edition? == some "proto3"

def isWeak (f : FileDecl) (i : Nat) : Bool := f.weakDependencies.contains (i : Int)

end FileDecl

end Protobind

import Protobind.Message.Registry
import Protobind.Module.Forward
import Protobind.Schema.Comments
import Protobind.Schema.Default

/-!
# Plans of modules

A plan says what a module contains, in order; it can be printed and it can be loaded. What can have
a comment has the path by which the comments of the file name it.
-/

namespace Protobind

/-- A constant for a value of an enum. -/
structure EnumConstant where
  path : String := ""
  name : String
  label : String
  number : Int
  deriving DecidableEq

/-- The class of an enum. -/
structure EnumPlan where
  path : String := ""
  name : String
  constants : List EnumConstant
  indexes : List Nat
  wellKnown? : Option String := none
  deriving DecidableEq

namespace EnumPlan

def labelsName (e : EnumPlan) : String := e.name ++ "_name"

def numbersName (e : EnumPlan) : String := e.name ++ "_value"

end EnumPlan

/-- An entry of a field table. -/
inductive FieldEntry where
  | plain (attr : String) (kind : Kind) (tag : String) (typeName? : Option String)
  | map (attr tag : String) (key value : FieldEntry)
  deriving DecidableEq

/-- A field that lies in no oneof. -/
structure FieldPlan where
  path : String := ""
  entry : FieldEntry
  deriving DecidableEq

/-- What a parameter is when it is not given. -/
inductive ParamDefault where
  | nothing
  | zero (kind : Kind)
  | emptyList
  | emptyMap
  deriving DecidableEq

/-- A parameter of a constructor. -/
structure ParamPlan where
  attr : String
  typeHint : String
  default : ParamDefault
  deriving DecidableEq

/-- When a getter answers with what is stored. -/
inductive GetterTest where
  | stored (attr : String)
  | unlessNull (attr : String)
  | member (group variant attr : String)
  deriving DecidableEq

/-- What a getter answers with otherwise. -/
inductive Fallback where
  | nothing
  | zero (kind : Kind)
  | enum (reference : Reference)
  | default (name : String)
  deriving DecidableEq

/-- A getter. -/
structure GetterPlan where
  name : String
  typeHint : String
  test : GetterTest
  fallback : Fallback
  deriving DecidableEq

/-- A oneof. -/
structure GroupPlan where
  path : String := ""
  group : OneofGroup
  deriving DecidableEq

/-- The class of a message. -/
structure MessagePlan where
  path : String := ""
  name : String
  fields : List FieldPlan := []
  groups : List GroupPlan := []
  params : List ParamPlan := []
  ranges : List FieldRange := []
  isMessageSet : Bool := false
  keepsUnknown : Bool := false
  indexes : List Nat := []
  wellKnown? : Option String := none
  getters : List GetterPlan := []
  defaults : List (String × DefaultExpr) := []
  deriving DecidableEq

namespace MessagePlan

def hasExtensions (m : MessagePlan) : Bool := !m.ranges.isEmpty

def oneofs (m : MessagePlan) : List OneofGroup := m.groups.map (·.group)

def rangesName (m : MessagePlan) : String := "extRange_" ++ m.name

end MessagePlan

/-- The description of an extension. -/
structure ExtensionPlan where
  variableName : String
  extended : Reference
  kind : Kind
  number : Int
  name : String
  tag : String
  typeName? : Option String := none
  deriving DecidableEq

/-- An entry that a module makes in a registry when it is loaded. -/
inductive Registration where
  | message (className name : String)
  | messageSet (type? : Option Reference) (number : Int) (name : String)
  | enum (name className : String)
  | extension (variableName : String)
  deriving DecidableEq

/-- The names that a public import makes visible for one declaration. -/
structure ForwardPlan where
  name : String
  via : String
  module : String
  symbols : List Symbol
  deriving DecidableEq

/-- The import of another module. -/
inductive ImportPlan where
  | weak (path : String)
  | unused (path file : String)
  | used (path localName file : String)
  deriving DecidableEq

/-- The text at the start of a package. -/
structure PackageDoc where
  comment? : Option String := none
  files : List String
  messages : List String
  deriving DecidableEq

def supportPackage : String := "pybuf"

/-- A module. -/
structure ModulePlan where
  file : String
  packageName : String
  importPrefix : String := ""
  comments : Comments := []
  doc? : Option PackageDoc := none
  imports : List ImportPlan := []
  forwards : List ForwardPlan := []
  enums : List EnumPlan := []
  messages : List MessagePlan := []
  extensions : List ExtensionPlan := []
  registrations : List Registration := []
  variableName : String
  descriptor : Bytes
  deriving DecidableEq

/-- The plan of a module with the comments of its file. -/
def ModulePlan.annotated (comments : String → Comments) (p : ModulePlan) : ModulePlan :=
  { p with
    comments := comments p.file
    doc? := p.doc?.map fun doc => { doc with comment? := (comments p.file).package? } }

end Protobind

import Protobind.Session.Basic

/-!
# Sessions over given tables

Classes may be given directly by their field tables. They are bound in one module named `t`.
-/

namespace Protobind

/-- A field. -/
inductive FieldSpec where
  | mk (attr kind tag : String) (typeName? : Option String) (key? value? : Option FieldSpec)

/-- An enum class. -/
structure EnumSpec where
  className : String
  name : String
  values : List (String × Int)
  plain : Bool := false
  typed : Bool := true

/-- A message class. -/
structure MessageSpec where
  className : String
  name? : Option String := none
  fields : List FieldSpec := []
  keepsUnknown : Bool := false
  ranges? : Option (List FieldRange) := none
  isMessageSet : Bool := false

/-- An extension. -/
structure ExtensionSpec where
  extended : String
  kind : String
  number : Int
  name : String
  tag : String
  typeName? : Option String := none
  registered : Bool := true

/-- All that is given. -/
structure TableSpec where
  enums : List EnumSpec := []
  messages : List MessageSpec := []
  extensions : List ExtensionSpec := []
  messageSetTypes : List (String × Int × String) := []

mutual

def FieldSpec.field : FieldSpec → Result Field
  | .mk attr kind tag typeName? key? value? => do
    let key? ← FieldSpec.fieldOf? key?
    let value? ← FieldSpec.fieldOf? value?
    match Tag.parse attr tag with
    | .ok tag => pure (Field.make { attr, kind := .ofName kind, tag, typeName? } key? value?)
    | .error e => .error (.badTag e)

def FieldSpec.fieldOf? : Option FieldSpec → Result (Option Field)
  | none => .ok none
  | some spec => do pure (some (← spec.field))

end

/-- The parameter of the constructor for a field: a list and a dictionary start empty, anything else
starts as nothing. -/
def Field.parameter (f : Field) : Param where
  name := f.slot.attr
  attr := f.slot.attr
  default := if f.isMap then .map [] else if f.slot.tag.repeated then .list [] else .null

/-- A session, and the warnings so far. -/
abbrev Loading := Session × List String

namespace TableSpec

def moduleName : String := "t"

def start : Session := (({} : Session).enter moduleName []).2

def bind (s : Session) (className : String) (c : ClassDef) : ClassId × Session :=
  let (id, registry) := s.registry.addClass c
  (id, { s with registry }.bindName 0 className (.type id))

def addEnum (state : Loading) (spec : EnumSpec) : Loading :=
  let (s, warnings) := state
  let labels := if spec.plain then [] else Dictionary.ofPairs (spec.values.map fun (l, n) => (n, l))
  let (id, s) := bind s spec.className (.enum { name := spec.className, labels := .ok labels })
  let values := (Dictionary.ofPairs spec.values).map fun (l, n) => (Value.text l, Value.int n)
  let (registry, more) := s.registry.registerEnum spec.name (.value (.map values))
    (if spec.typed then some (.type id) else none)
  ({ s with registry }, warnings ++ more)

def addMessage (state : Loading) (spec : MessageSpec) : Result Loading := do
  let (s, warnings) := state
  let fields ← Display.each FieldSpec.field spec.fields
  let (id, s) := bind s spec.className <| .message
    { name := spec.className, form := .given, fields, params := fields.map Field.parameter
      ranges? := spec.ranges?, hasExtensions := spec.ranges?.isSome
      keepsUnknown := spec.keepsUnknown, isMessageSet := spec.isMessageSet }
  match spec.name? with
  | none => pure (s, warnings)
  | some name =>
    let (registry, more) := s.registry.registerMessage (.type id) name
    pure ({ s with registry }, warnings ++ more)

def addExtension (state : Loading) (spec : ExtensionSpec) : Result Loading := do
  let (s, warnings) := state
  let ext : Extension :=
    { extended := ← s.classOf spec.extended, kind := .ofName spec.kind, number := spec.number
      name := spec.name, tag := spec.tag, file := "t.proto", typeName? := spec.typeName? }
  let s := { s with extensions := s.extensions.set spec.name ext }
  if spec.registered then
    let (registry, more) := s.registry.registerExtension ext
    pure ({ s with registry }, warnings ++ more)
  else pure (s, warnings)

def addMessageSetType (state : Loading) (spec : String × Int × String) : Result Loading := do
  let (s, warnings) := state
  let (reference, number, name) := spec
  let b ← s.bindingOf reference
  pure ({ s with registry := s.registry.registerMessageSet b number name }, warnings)

def load (spec : TableSpec) : Result Loading := do
  let state : Loading := spec.enums.foldl addEnum (start, [])
  let state ← spec.messages.foldlM addMessage state
  let state ← spec.extensions.foldlM addExtension state
  spec.messageSetTypes.foldlM addMessageSetType state

end TableSpec

end Protobind

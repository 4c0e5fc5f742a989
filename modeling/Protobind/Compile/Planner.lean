import Protobind.Compile.Context
import Protobind.Module.Plan
import Protobind.Schema.FieldTag
import Protobind.Schema.Serialize

/-!
# Planning modules

Plans are made file by file. Planning a file writes to the log, and records the files that its
module refers to and the symbols that it offers. The log stays when planning fails.
-/

namespace Protobind

/-- What planning has recorded so far. -/
structure PlanState where
  log : List LogEntry := []
  exports : Dictionary (NodeId × NodeId) (List Symbol) := []
  usedFiles : List String := []
  constants : List String := []

/-- A step of planning. -/
abbrev Planner := EStateM GenerateError PlanState

namespace Planner

def ofExcept {α : Type} : Except GenerateError α → Planner α
  | .ok a => pure a
  | .error e => throw e

def ofReported {α : Type} (r : Except CompileError α) : Planner α := ofExcept (r.mapError .reported)

def write (entries : List LogEntry) : Planner Unit :=
  modify fun s => { s with log := s.log ++ entries }

def useFile (name : String) : Planner Unit :=
  modify fun s => { s with usedFiles := s.usedFiles ++ [name] }

def addConstant (name : String) : Planner Unit :=
  modify fun s => { s with constants := s.constants ++ [name] }

def offer (file node : NodeId) (symbol : Symbol) : Planner Unit :=
  modify fun s =>
    let known := (s.exports.get? (file, node)).getD []
    { s with exports := s.exports.set (file, node) (known ++ [symbol]) }

variable (ctx : Context) (file : NodeId)

def moduleOf? (node : NodeId) : Option String :=
  let provider := ctx.arena.fileOf node
  if provider = file then none else (ctx.arena.file? provider).map (·.packageName)

/-- The name of an enum, and its values. -/
def enumOf? (node : NodeId) : Option (String × List (String × Int)) :=
  let target := ctx.arena.target node
  (ctx.arena.enum? target).map fun decl => (ctx.arena.registeredName target, decl.numbers)

/-- The fields of the entries of a map, and whether they are proto3. -/
def mapEntryOf? (node : NodeId) : Option (FieldDecl × FieldDecl × Bool) := do
  let target := ctx.arena.target node
  let m ← ctx.arena.message? target
  if m.decl.isMapEntry then
    match m.decl.fields with
    | [key, value] => pure (key, value, (ctx.arena.fileDecl target).isProto3)
    | _ => none
  else none

end Planner

/-- A type that the module of a file refers to, with what plans tell about it. -/
structure TypeUse where
  reference : Reference
  provider : NodeId
  fullName : String
  constantPrefix : String
  isMessage : Bool
  isProto3 : Bool
  enum? : Option (String × List (String × Int))
  mapFields? : Option (FieldDecl × FieldDecl × Bool)

/-- The constant for a value of an enum. -/
def TypeUse.constant (t : TypeUse) (label : String) : Reference where
  module? := t.reference.module?
  name := t.constantPrefix ++ label

namespace Planner

variable (ctx : Context) (file : NodeId)

def typeUse (node : NodeId) : TypeUse :=
  let target := ctx.arena.target node
  { reference := { module? := moduleOf? ctx file node, name := ctx.arena.camelName node }
    provider := ctx.arena.fileOf node
    fullName := ctx.arena.fullName target
    constantPrefix := ctx.arena.constantPrefix target
    isMessage := (ctx.arena.message? target).isSome
    isProto3 := (ctx.arena.fileDecl target).isProto3
    enum? := enumOf? ctx node
    mapFields? := mapEntryOf? ctx node }

def typeReference (typeName : String) : Planner TypeUse := do
  let (node, entries) ← ofReported (ctx.resolve typeName file)
  write entries
  let type := typeUse ctx file node
  if type.provider ≠ file then useFile (ctx.arena.name type.provider)
  pure type

end Planner

/-! ## Fields -/

/-- A field with its names, its type and its tag. -/
structure FieldBinding where
  decl : FieldDecl
  attr : String
  getter : String
  typeHint : String
  tag : String
  type? : Option TypeUse := none
  entries? : Option (FieldEntry × FieldEntry) := none

namespace FieldBinding

def isMap (b : FieldBinding) : Bool := b.entries?.isSome

def typeName? (b : FieldBinding) : Option String :=
  let name := b.decl.typeName.toList.dropWhile (· == '.')
  if name.isEmpty then none else some (String.ofList name)

def entry (b : FieldBinding) : FieldEntry :=
  match b.entries? with
  | some (key, value) => .map b.attr b.tag key value
  | none => .plain b.attr b.decl.kind b.tag b.typeName?

/-- Whether the getter answers with nothing when there is no value: for lists, for messages, and for
bytes without a default. -/
def defaultsToNothing (b : FieldBinding) : Bool :=
  b.decl.isRepeated || b.decl.kind.isMessage ||
    (b.decl.kind == .bytes && b.decl.default?.isNone)

def isImplicit (proto3 : Bool) (b : FieldBinding) : Bool := proto3 && !b.decl.proto3Optional

def param (proto3 : Bool) (b : FieldBinding) : ParamPlan where
  attr := b.attr
  typeHint := b.typeHint
  default :=
    if b.isMap then .emptyMap
    else if b.decl.isRepeated then .emptyList
    else if b.isImplicit proto3 && !b.decl.kind.isMessage then .zero b.decl.kind
    else .nothing

end FieldBinding

namespace Planner

def fieldType? (ctx : Context) (file : NodeId) (decl : FieldDecl) : Planner (Option TypeUse) := do
  if decl.namesType then pure (some (← typeReference ctx file decl.typeName)) else pure none

def plainHint (decl : FieldDecl) (reference? : Option Reference) : String :=
  let hint := match reference? with
    | some reference => reference.source
    | none => decl.kind.valueType?.getD ""
  if decl.isRepeated then s!"list[{hint}]" else hint

/-- The tag of a field, with the values of its type if that is an enum. -/
def tagOf (proto3 : Bool) (decl : FieldDecl) (type? : Option TypeUse) :
    Except GenerateError String :=
  let enum? := type?.bind (·.enum?)
  decl.tag proto3 (enum?.map (·.1)) (enum?.map (·.2))

def bindAs (proto3 : Bool) (decl : FieldDecl) (attr getter typeHint : String)
    (type? : Option TypeUse) (entries? : Option (FieldEntry × FieldEntry)) :
    Planner FieldBinding := do
  let tag ← ofExcept (tagOf proto3 decl type?)
  pure { decl, attr, getter, typeHint, tag, type?, entries? }

/-- Computes the names, the type and the tag of a field; maps may be nested `depth` levels deep. A
map that is its own value has no end. -/
def bindField (ctx : Context) (file : NodeId) :
    Nat → Bool → FieldDecl → String → String → Planner FieldBinding
  | 0, _, _, _, _ => throw (.fatal .endlessMap)
  | depth + 1, proto3, decl, attr, getter => do
    let type? ← fieldType? ctx file decl
    match type?.bind (·.mapFields?) with
    | some (key, value, entryProto3) => do
      let key ← bindField ctx file depth entryProto3 key "key" ""
      let value ← bindField ctx file depth entryProto3 value "value" ""
      bindAs proto3 decl attr getter s!"dict[{key.typeHint}, {value.typeHint}]" type?
        (some (key.entry, value.entry))
    | none => bindAs proto3 decl attr getter (plainHint decl (type?.map (·.reference))) type? none

def defaultConstant (className : String) (b : FieldBinding) :
    Planner (Option (String × DefaultExpr)) := do
  if b.decl.default.isEmpty then pure none
  else
    let enum? := b.type?.filter (·.enum?.isSome)
    if b.decl.kind == .enum && enum?.isNone then do
      write [.warning s!"don't know how to generate constant for {b.decl.name}"]
      pure none
    else do
      let module? := enum?.bind (·.reference.module?)
      let constantPrefix := (enum?.map (·.constantPrefix)).getD ""
      match ← ofExcept (b.decl.defaultExpr module? constantPrefix) with
      | none => pure none
      | some e => do
        let name := Name.unique s!"Default_{className}_{Name.camel b.decl.name}" (← get).constants
        addConstant name
        pure (some (name, e))

/-- What the getter of a field answers with when the field holds no value. An enum falls back to its
first value. -/
def fallback (b : FieldBinding) : Fallback :=
  match b.decl.kind with
  | .message | .group | .bytes => .nothing
  | .enum =>
    match b.type?.bind fun t => t.enum?.bind fun e => e.2.head?.map fun v => t.constant v.1 with
    | some constant => .enum constant
    | none => .zero .enum
  | kind => .zero kind

end Planner

end Protobind

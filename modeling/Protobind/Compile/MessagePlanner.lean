import Protobind.Compile.Planner

/-!
# Planning enums and messages
-/

namespace Protobind.Planner

variable (ctx : Context) (file : NodeId)

def wellKnownPackage : String := "google.protobuf"

def wellKnownMessages : List String :=
  ["Any", "Duration", "Empty", "Struct", "Timestamp", "Value", "ListValue", "DoubleValue",
   "FloatValue", "Int64Value", "UInt64Value", "Int32Value", "UInt32Value", "BoolValue",
   "StringValue", "BytesValue"]

def wellKnownEnums : List String := ["NullValue"]

def wellKnown? (names : List String) (node : NodeId) : Option String :=
  let name := ctx.arena.name node
  if (ctx.arena.fileDecl node).package == wellKnownPackage && names.contains name then some name
  else none

def withPositions {α : Type} (items : List α) : List (Nat × α) :=
  (List.range items.length).zip items

/-! ## Enums -/

def planEnum (node : NodeId) : Planner (Option EnumPlan) := do
  match ctx.arena.enum? node with
  | none => pure none
  | some decl => do
    let name := ctx.arena.camelName node
    let path := ctx.arena.path node
    offer file node (.enum name)
    let constants ← (withPositions decl.values).mapM fun (i, v) => do
      let constant := ctx.arena.constantPrefix node ++ v.name
      offer file node (.const constant)
      pure { path := s!"{path},{Arena.valuePath},{i}"
             name := constant, label := v.name, number := v.number : EnumConstant }
    pure (some
      { path, name, constants, indexes := ctx.arena.indexes node
        wellKnown? := wellKnown? ctx wellKnownEnums node })

/-! ## Members of a message -/

def allocate (a : Name.Allocator) (batch : List String) : Planner (List String × Name.Allocator) :=
  match a.allocate batch with
  | .ok result => pure result
  | .error e => throw (.fatal (.duplicateNames e.batch))

def allocateMember (a : Name.Allocator) (name : String) :
    Planner (String × String × Name.Allocator) := do
  match ← allocate a [name, "get_" ++ name] with
  | ([attr, getter], a) => pure (attr, getter, a)
  | (_, a) => pure (name, "get_" ++ name, a)

def bindFields (proto3 : Bool) :
    Name.Allocator → List FieldDecl → Planner (List FieldBinding × Name.Allocator)
  | a, [] => pure ([], a)
  | a, decl :: decls => do
    let (attr, getter, a) ← allocateMember a decl.name
    let b ← bindField ctx file (ctx.arena.size + 1) proto3 decl attr getter
    let (bs, a) ← bindFields proto3 a decls
    pure (b :: bs, a)

/-- The oneofs of a message, by index. -/
abbrev Groups := Dictionary Int OneofGroup

def groupAt (className : String) (decls : List OneofDecl) (groups : Groups)
    (a : Name.Allocator) (index : Int) : Planner (OneofGroup × Name.Allocator) := do
  match groups.get? index with
  | some group => pure (group, a)
  | none =>
    match indexed? decls index with
    | none => throw (.fatal .indexOutOfRange)
    | some decl => do
      let (attr, getter, a) ← allocateMember a decl.name
      pure ({ name := decl.name, attr, getter
              discriminator := s!"is{className}_{Name.camel attr}" }, a)

/-- Sorts fields into the oneofs of a message. The names of variant classes differ from each other
and from the names in `taken`. -/
def groupFields (className : String) (decls : List OneofDecl) :
    List String → Groups → Name.Allocator → List FieldBinding → Planner Groups
  | _, groups, _, [] => pure groups
  | taken, groups, a, b :: bs => do
    if b.decl.inOneof then do
      let (group, a) ← groupAt className decls groups a b.decl.oneofIndex
      let variant := Name.unique s!"{className}_{Name.camel b.attr}" taken
      let member : OneofMember :=
        { name := b.decl.name, number := b.decl.number, kind := b.decl.kind, attr := b.attr
          variant, type? := b.type?.map (·.reference), typeHint := b.typeHint }
      let group := { group with members := group.members ++ [member] }
      groupFields className decls (taken ++ [variant])
        (groups.set b.decl.oneofIndex group) a bs
    else groupFields className decls taken groups a bs

def paramPlans (proto3 : Bool) (groups : Groups) : List Int → List FieldBinding → List ParamPlan
  | _, [] => []
  | seen, b :: bs =>
    if b.decl.inOneof then
      let index := b.decl.oneofIndex
      match if seen.contains index then none else groups.get? index with
      | some g =>
        { attr := g.attr, typeHint := g.discriminator, default := .nothing } ::
          paramPlans proto3 groups (index :: seen) bs
      | none => paramPlans proto3 groups seen bs
    else b.param proto3 :: paramPlans proto3 groups seen bs

def defaultConstants (className : String) :
    Dictionary Int (String × DefaultExpr) → List FieldBinding →
      Planner (Dictionary Int (String × DefaultExpr))
  | defaults, [] => pure defaults
  | defaults, b :: bs => do
    match ← defaultConstant className b with
    | none => defaultConstants className defaults bs
    | some d => defaultConstants className (defaults.set b.decl.number d) bs

def variantsByNumber (groups : Groups) : Dictionary Int String :=
  Dictionary.ofPairs <| groups.flatMap fun (_, g) => g.members.map fun m => (m.number, m.variant)

/-! ## Getters -/

def optionalHint (typeHint : String) : String := typeHint ++ " | None"

def groupGetter (g : OneofGroup) : GetterPlan where
  name := g.getter
  typeHint := optionalHint g.discriminator
  test := .stored g.attr
  fallback := .nothing

def fieldGetter (proto3 : Bool) (groups : Groups) (variants : Dictionary Int String)
    (defaults : Dictionary Int (String × DefaultExpr)) (b : FieldBinding) : GetterPlan :=
  let group? := if b.decl.inOneof then groups.get? b.decl.oneofIndex else none
  let mayBeMissing := b.defaultsToNothing || (group?.isSome && b.decl.kind == .bytes)
  let typeHint := if mayBeMissing then optionalHint b.typeHint else b.typeHint
  let otherwise := match defaults.get? b.decl.number with
    | some (name, _) => .default name
    | none => fallback b
  match group? with
  | some g =>
    let variant := (variants.get? b.decl.number).getD "None"
    { name := b.getter, typeHint, test := .member g.attr variant b.attr, fallback := otherwise }
  | none =>
    if b.defaultsToNothing then
      { name := b.getter, typeHint, test := .stored b.attr, fallback := .nothing }
    else if b.isImplicit proto3 then
      { name := b.getter, typeHint, test := .stored b.attr, fallback := otherwise }
    else { name := b.getter, typeHint, test := .unlessNull b.attr, fallback := otherwise }

/-- The getter of a field as a public import may forward it. Getters of groups are never forwarded;
getters that return messages or enums only when the type is defined next to the message. -/
def forwardableGetter? (provider : NodeId) (b : FieldBinding) (typeHint : String) :
    Option GetterSymbol :=
  let symbol : GetterSymbol := { name := b.getter, typeHint, typeName := b.decl.typeName }
  match b.decl.kind with
  | .group => none
  | .message | .enum =>
    match b.type? with
    | some t => if t.provider = provider then some { symbol with isLocalType := true } else none
    | none => none
  | _ => some symbol

/-! ## Messages -/

def extensionRanges (decl : MessageDecl) : List FieldRange :=
  decl.extensionRanges.map fun r => { first := r.start, last := r.stop - 1 }

def planMessage (node : NodeId) (m : MessageNode) : Planner MessagePlan := do
  let name := ctx.arena.camelName node
  let path := ctx.arena.path node
  let proto3 := (ctx.arena.fileDecl node).isProto3
  let (bindings, a) ← bindFields ctx file proto3 {} m.decl.fields
  let taken := (m.nested ++ m.enums).map ctx.arena.camelName
  let groups ← groupFields name m.decl.oneofs taken [] a bindings
  let defaults ← defaultConstants name [] bindings
  let ranges := extensionRanges m.decl
  let isMessageSet := !ranges.isEmpty && m.decl.isMessageSet
  let groupGetters := groups.map fun (_, g) => groupGetter g
  let variants := variantsByNumber groups
  let fieldGetters := bindings.map fun b =>
    (b, fieldGetter proto3 groups variants defaults b)
  let symbols :=
    groupGetters.map (fun g => { name := g.name, typeHint := g.typeHint : GetterSymbol }) ++
      fieldGetters.filterMap fun (b, g) => forwardableGetter? (ctx.arena.fileOf node) b g.typeHint
  if !m.isGroup then
    offer file node <| .message
      { name, hasExtensions := !ranges.isEmpty, isMessageSet, hasOneof := !groups.isEmpty
        getters := symbols }
  defaults.forM fun (_, constant, _) => offer file node (.const constant)
  pure
    { path
      name
      fields := (withPositions bindings).filterMap fun (i, b) =>
        if b.decl.inOneof then none
        else some { path := s!"{path},{Arena.fieldPath},{i}", entry := b.entry }
      groups := groups.map fun (index, group) =>
        { path := s!"{path},{Arena.oneofPath},{index}", group }
      params := paramPlans proto3 groups [] bindings
      ranges
      isMessageSet
      keepsUnknown := !proto3
      indexes := ctx.arena.indexes node
      wellKnown? := wellKnown? ctx wellKnownMessages node
      getters := groupGetters ++ fieldGetters.map (·.2)
      defaults := defaults.map (·.2) }

end Protobind.Planner

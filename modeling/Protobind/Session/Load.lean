import Protobind.Module.Statement
import Protobind.Module.WellFormed
import Protobind.Session.Execution
import Protobind.Session.Tables

/-!
# Loading modules

What a statement refers to is looked up when it is performed, but what the methods of a class refer
to when all modules are loaded. So a class is added first and settled in the end. A module
can import only those entered before, or itself; entered again, it starts anew.
-/

namespace Protobind

open Name

def Kind.zero : Kind → Value
  | .double | .float => .float Double.zero
  | .bool => .bool false
  | .string => .text ""
  | .bytes => .bytes []
  | .message | .group => .null
  | _ => .int 0

/-! ## Classes -/

def attributeIn (className name : String) : String := mangled className (normal name)

def FieldEntry.field : FieldEntry → Result Field
  | .plain attr kind tag typeName? =>
    match Tag.parse attr tag with
    | .ok tag => .ok (Field.make { attr, kind := .ofName kind.name, tag, typeName? } none none)
    | .error e => .error (.badTag e)
  | .map attr tag key value => do
    let key ← key.field
    let value ← value.field
    match Tag.parse attr tag with
    | .ok tag =>
      pure (Field.make { attr, kind := .ofName SlotKind.mapName, tag, typeName? := none }
        (some key) (some value))
    | .error e => .error (.badTag e)

def ParamPlan.param (className : String) (p : ParamPlan) : Param :=
  let attr := attributeIn className p.attr
  match p.default with
  | .nothing => { name := attr, attr }
  | .zero kind => { name := attr, attr, default := kind.zero }
  | .emptyList => { name := attr, attr, whenNull := .list [] }
  | .emptyMap => { name := attr, attr, whenNull := .map [] }

def MessagePlan.type (m : MessagePlan) : Result MessageType := do
  let name := normal m.name
  let fields ← Display.each (fun f => f.entry.field) m.fields
  pure
    { name
      fields
      oneofs := m.oneofs.map (·.attr)
      params := m.params.map (ParamPlan.param name)
      hasExtensions := m.hasExtensions
      keepsUnknown := m.keepsUnknown
      isMessageSet := m.isMessageSet
      descriptor? := some m.indexes
      wellKnown? := m.wellKnown? }

def MessageType.forwarded (name : String) (captured : Bool) (original : ClassId) (r : MessageType) :
    MessageType where
  name
  form := .forwarding captured
  standsFor? := some original
  fields := r.fields
  oneofs := r.oneofs
  params := r.params
  hasExtensions := r.hasExtensions
  keepsUnknown := r.keepsUnknown

def OneofMember.type (base? : Option ClassId) (m : OneofMember) : VariantType :=
  let name := normal m.variant
  { name
    base?
    slot := m.attr
    stored := mangled name m.attr
    assigned := attributeIn name m.attr
    default := m.kind.zero }

/-! ## Names that cannot be bound -/

def canBeParameters (names : List String) : Bool :=
  decide ("self" :: names).Nodup && !names.contains Expression.constantName

/-- Whether a message class has a constructor that can be compiled, and so do the variants of its
oneofs. -/
def MessagePlan.compiles (m : MessagePlan) : Bool :=
  canBeParameters (m.params.map fun p => attributeIn (normal m.name) p.attr) &&
    m.oneofs.all fun g =>
      g.members.all fun x => canBeParameters [attributeIn (normal x.variant) x.attr]

def ModulePlan.compiles (p : ModulePlan) : Bool :=
  ((Program.ofSource? (p.render none)).map (·.compiles)).getD false &&
    p.messages.all MessagePlan.compiles

def ModulePlan.documentation (p : ModulePlan) : Value :=
  match Program.ofSource? (Source.render p.headLines) with
  | some { instructions := .evaluate (.text t) :: _, .. } => .text t
  | _ => .null

/-! ## Settling classes -/

namespace Session

variable (s : Session) (module : Nat)

def resolve (r : Reference) : Result Binding := s.evaluateSource module id r.source

/-- What a reference in the body of a class means: there a name that belongs to the class is spelled
with the name of the class in front. -/
def resolveIn (className : String) (r : Reference) : Result Binding :=
  s.evaluateSource module (mangled className) r.source

def builtins : List String := ["isinstance", "len", "type"]

def rebound : List String := builtins.filter fun name => (s.global module name).toOption.isSome

def readerParams : List String := ["m", "tag", "wire", "b"]

def readerVariable : String := "x"

/-- What a reference means in a function that reads oneofs, whose parameters and variables hide
modules and classes. -/
def resolveInReader (r : Reference) : Result Binding :=
  let first := normal (r.module?.getD r.name)
  if first == readerVariable then .error .unassignedName
  else if readerParams.contains first then
    if r.module?.isSome then .error .missingMember else .ok Binding.nothing
  else s.resolve module r

def codec (owner : String) (groups : List OneofGroup) : OneofCodec where
  owner
  groups := groups.map fun g =>
    { attr := normal g.attr
      label := g.attr
      members := g.members.map fun m =>
        { number := m.number, kind := m.kind, attr := normal m.attr
          variant := s.global module m.variant
          type := match m.type? with
            | some r => s.resolveInReader module r
            | none => .error .unboundName } }
  rebound := s.rebound module

def fallback (className : String) : Fallback → Result Binding
  | .nothing => .ok (.value .null)
  | .zero kind => .ok (.value kind.zero)
  | .enum reference => s.resolveIn module className reference
  | .default name => s.resolveIn module className { name }

def accessor (className : String) (g : GetterPlan) : Accessor :=
  let fallback := s.fallback module className g.fallback
  let own := attributeIn className
  match g.test with
  | .stored attr => .stored (own attr) fallback
  | .unlessNull attr => .unlessNull (own attr) fallback
  | .member group variant attr =>
    let variant :=
      if (s.rebound module).contains "isinstance" then .error .wrongType
      else s.global module (own variant)
    .member (own group) variant (own attr) fallback

def rangeOf? : Binding → Option FieldRange
  | .range (.value (.int first)) (.value (.int last)) => some { first, last }
  | _ => none

def rangesOf? : Binding → Option (List FieldRange)
  | .ranges ranges => some ranges
  | .list items => items.mapM rangeOf?
  | .value (.list []) => some []
  | _ => none

def labelsOf (entries : List (Value × Value)) : Dictionary Int String :=
  entries.filterMap fun
    | (.int n, .text label) => some (n, label)
    | _ => none

def settleEnum (e : EnumPlan) (t : EnumType) : EnumType :=
  { t with
    labels := do
      match ← s.global module e.labelsName with
      | .value (.map entries) => pure (labelsOf entries)
      | _ => .error .missingMember }

def settleMessage (m : MessagePlan) (t : MessageType) : MessageType :=
  let bound := s.global module m.rangesName
  let ranges? := bound.toOption.bind rangesOf?
  { t with
    ranges? := if m.hasExtensions then ranges? else none
    displaced? := if m.hasExtensions && ranges?.isNone then some bound else none
    codec? :=
      if m.groups.isEmpty then none
      else
        match s.global module (Oneof.writerName m.name) with
        | .ok (.function owner groups) => some (s.codec module owner groups)
        | _ => none
    getters := Dictionary.ofPairs (m.getters.map fun g =>
      (attributeIn t.name g.name, s.accessor module t.name g)) }

def forwardParams : List String := ["args", "kwargs"]

/-- Whether the parameters of the constructor of a forwarding class hide a module. -/
def captures (className : String) (remote : Reference) : Bool :=
  forwardParams.contains (attributeIn className (remote.module?.getD ""))

def settleForward (reg : Registry) (remote : Reference) (symbol : MessageSymbol) (t : MessageType) :
    MessageType :=
  let captured := captures t.name remote
  let lost (fault : Fault) : MessageType := { t with form := .forwarding captured (some fault) }
  match s.resolveIn module t.name remote with
  | .ok (.type id) =>
    match reg.messageType? id with
    | none => lost .missingMember
    | some r =>
      { t with
        form := match r.form with
          | .forwarding inner lost? => .forwarding (captured || inner) lost?
          | _ => .forwarding captured
        ranges? := if symbol.hasExtensions then r.ranges? else none
        displaced? := if symbol.hasExtensions then r.displaced? else none
        isMessageSet := symbol.hasExtensions && symbol.isMessageSet && r.isMessageSet
        codec? := if symbol.hasOneof then r.codec? else none
        getters := symbol.getters.filterMap fun g =>
          let name := attributeIn t.name g.name
          (r.getters.get? name).map fun a => (name, a) }
  | .ok _ => lost .missingMember
  | .error fault => lost fault

def settle (reg : Registry) : Nat × ClassId × Unsettled → Registry
  | (module, id, u) =>
    match reg.class? id, u with
    | some (.enum t), .enum e => reg.replaceClass id (.enum (s.settleEnum module e t))
    | some (.message t), .message m => reg.replaceClass id (.message (s.settleMessage module m t))
    | some (.message t), .forward remote symbol =>
      reg.replaceClass id (.message (s.settleForward module reg remote symbol t))
    | _, _ => reg

/-- Settles classes in their order, so that a class is settled before those that forward to it. -/
def settleAll (classes : List (Nat × ClassId × Unsettled)) : Session :=
  { s with registry := classes.foldl s.settle s.registry }

def resettled : Session := s.settleAll s.classes

def defaultBinding : DefaultExpr → Result Binding
  | .truth b => .ok (.value (.bool b))
  | .text t => .ok (.value (.text t))
  | .bytes bs => .ok (.value (.bytes bs))
  | e => s.evaluateSource module id e.source

def descriptorValue (data : Bytes) : Result Value :=
  match s.global module "bytes" with
  | .ok b => s.registry.apply b (.list (data.map fun byte => .int byte.toNat))
  | .error _ => .ok (.bytes data)

end Session

/-! ## Loading -/

/-- The classes are kept beside the session, as nothing but a definition adds one. -/
structure LoadState where
  session : Session := {}
  classes : Array ClassDef := #[]
  warnings : List String := []
  unsettled : List (Nat × ClassId × Unsettled) := []

def LoadState.current (st : LoadState) : Session :=
  { st.session with registry := { st.session.registry with classes := st.classes } }

/-- The session behind all modules. No class of it is settled. -/
def LoadState.finished (st : LoadState) : Session := { st.current with classes := st.unsettled }

/-- A step of loading. -/
abbrev Loader := StateT LoadState Result

/-- What a forwarding class calls the class that it forwards to. -/
def MessageSymbol.reference (symbol : MessageSymbol) (module : String) : Reference where
  module? := some module
  name := symbol.name

namespace Loader

def ask {α : Type} (question : Session → Result α) : Loader α := do
  StateT.lift (question (← get).current)

def change (f : Registry → Registry × List String) : Loader Unit :=
  modify fun st =>
    let (registry, more) := f st.current.registry
    { st with
      session := { st.session with registry }
      warnings := st.warnings ++ more }

def bindName (module : Nat) (name : String) (b : Binding) : Loader Unit := do
  let session ← ask fun s => s.bindPath module name b
  modify fun st => { st with session }

def define (module : Nat) (c : ClassDef) (unsettled? : Option Unsettled) : Loader Unit := do
  let id := (← get).classes.size
  modify fun st =>
    let registry := st.session.registry
    -- The class belongs to the module by the name that the module goes by at this moment.
    let homes := match (st.session.namesOf module).get? "__name__" with
      | some (.value (.text home)) => registry.homes.set id home
      | _ => registry.homes
    { st with
      session := { st.session with registry := { registry with homes } }
      classes := st.classes.push c
      unsettled := st.unsettled ++ (unsettled?.map fun u => (module, id, u)).toList }
  bindName module c.name (.type id)

variable (module : Nat)

/-- Checks that a name still means the module that supports all modules. -/
def requireSupport : Loader Unit := do
  match ← ask fun s => s.global module "proto" with
  | .support _ => pure ()
  | _ => throw .missingMember

def register : Registration → Loader Unit
  | .message className name => do
    let b ← ask fun s => s.global module className
    change fun reg => reg.registerMessage b name
  | .messageSet type? number name => do
    let b ← ask fun s => s.resolve module (type?.getD { name := "" })
    change fun reg => (reg.registerMessageSet b number name, [])
  | .enum name className => do
    let values ← ask fun s => s.global module (className ++ "_value")
    let b ← ask fun s => s.global module className
    change fun reg => reg.registerEnum name values (some b)
  | .extension variableName => do
    match ← ask fun s => s.resolve module { name := variableName } with
    | .extension ext => change fun reg => reg.registerExtension ext
    | _ => throw .missingMember

/-- The names that the body of a forwarding class binds before it mentions the module for the last
time. -/
def forwardMembers : List String :=
  ["__module__", "__qualname__", "__doc__", "_original", "_fields"]

def forwardClass (other : String) (symbol : MessageSymbol) : Loader Unit := do
  let name := normal symbol.name
  if forwardMembers.contains (attributeIn name other) then throw .missingMember
  let remote := symbol.reference other
  match ← ask fun s => s.resolveIn module name remote with
  | .type id =>
    let reg := (← get).current.registry
    match reg.messageType? id with
    | none => throw .missingMember
    | some r =>
      let t := MessageType.forwarded name (Session.captures name remote) (reg.canonical id) r
      define module (.message t) (some (.forward remote symbol))
  | _ => throw .missingMember

def classMembers (discriminator : String) : List String :=
  ["__module__", "__slots__", "__init__", discriminator]

def variantClass (discriminator : String) (member : OneofMember) : Loader Unit := do
  match ← ask fun s => s.global module discriminator with
  | .type base =>
    let t := member.type (some base)
    if !spellsIdentifier t.slot.toList then throw .wrongType
    if (classMembers (normal discriminator)).contains t.stored then
      throw (.slotConflict t.stored)
    define module (.variant t) none
  | _ => throw .wrongType

/-- Runs a program. The methods that are called meanwhile find what is bound so far. -/
def runProgram (p : Program) : Loader Unit := do
  let st ← get
  let settled := st.current.settleAll st.unsettled
  let (answer, session, warnings) :=
    settled.evaluating module (Execution.performAll Machine.full p.instructions)
  set { st with session, warnings := st.warnings ++ warnings }
  StateT.lift (answer.map fun _ => ())

def perform (file : String) : Statement → Loader Unit
  | .support name => bindName module name (.support name)
  | .importModule localName path => do
    match (← get).session.paths.get? (normal path) with
    | some other => bindName module localName (.module other)
    | none => throw .missingModule
  | .package name => bindName module "_PACKAGE" (.value (.text name))
  | .forward other name => do
    bindName module name (← ask fun s => s.resolve module { module? := some other, name })
  | .forwardClass other symbol => do
    requireSupport module
    forwardClass module other symbol
  | .enumClass e => do
    requireSupport module
    define module
      (.enum
        { name := normal e.name, descriptor? := some e.indexes, wellKnown? := e.wellKnown? })
      (some (.enum e))
  | .enumConstant className c => do
    let type ← ask fun s => s.global module className
    bindName module c.name (.value (← ask fun s => s.registry.apply type (.int c.number)))
  | .labels e =>
    let first := Dictionary.ofFirst (e.constants.map fun c => (c.number, c.label))
    bindName module e.labelsName (.value (.map (first.map fun (n, l) => (.int n, .text l))))
  | .numbers e =>
    let last := Dictionary.ofPairs (e.constants.map fun c => (c.label, c.number))
    bindName module e.numbersName (.value (.map (last.map fun (l, n) => (.text l, .int n))))
  | .messageClass m => do
    requireSupport module
    define module (.message (← StateT.lift m.type)) (some (.message m))
  | .ranges name ranges => do
    requireSupport module
    bindName module name (.ranges ranges)
  | .default name e => do bindName module name (← ask fun s => s.defaultBinding module e)
  | .discriminator name => do
    requireSupport module
    define module (.discriminator (normal name)) none
  | .variant discriminator member => variantClass module discriminator member
  | .functions owner groups => do
    bindName module (Oneof.writerName owner) (.function owner groups)
    bindName module (Oneof.readerName owner) (.function owner groups)
    bindName module (Oneof.sizerName owner) (.function owner groups)
  | .extension e => do
    requireSupport module
    match ← ask fun s => s.resolve module e.extended with
    | .type extended =>
      bindName module e.variableName <| .extension
        { extended, kind := .ofName e.kind.name, number := e.number, name := e.name, tag := e.tag
          file, typeName? := e.typeName? }
    | _ => throw .missingMember
  | .register entry => do
    requireSupport module
    register module entry
  | .descriptor name data => do
    let v ← ask fun s => s.descriptorValue module data
    bindName module name (.value v)
    requireSupport module
    change fun reg => (reg.registerFile file v, [])

def lineOf? : Statement → Option String
  | .default name e => some s!"{name} = {e.source}"
  | _ => none

def isVerbatim : Statement → Bool
  | .default _ (.verbatim _) => true
  | _ => false

/-- The program that some lines spell, together with as many of the following defaults as it takes;
and the statements behind them. -/
def programOf (source : String) : List Statement → Option (Program × List Statement)
  | [] => (program? source).map fun p => (p, [])
  | st :: rest =>
    match program? source, lineOf? st with
    | some p, _ => some (p, st :: rest)
    | none, some line => programOf (source ++ "\n" ++ line) rest
    | none, none => none
where
  /-- The program that some lines spell, as they stand in a module: in front of an empty line, which
  a line may be continued by. -/
  program? (source : String) : Option Program :=
    Program.ofSource? (Source.render (ModulePlan.resplit (source ++ "\n\n")))

def performAll (file : String) : Nat → List Statement → Loader Unit
  | _, [] => pure ()
  | 0, _ => pure ()
  | fuel + 1, st :: sts => do
    match if isVerbatim st then lineOf? st else none with
    | some line =>
      match programOf line sts with
      | some (p, rest) =>
        runProgram module p
        performAll file fuel rest
      | none => throw .badBinding
    | none =>
      perform module file st
      performAll file fuel sts

def moduleNames (p : ModulePlan) : Namespace :=
  [("__name__", .value (.text (modulePath p.file))), ("__doc__", .value p.documentation),
   ("__package__", .value .null), ("__loader__", .value .null), ("__spec__", .value .null),
   ("__builtins__", .hidden)]

def load (file : String) (p : ModulePlan) : Loader Unit := do
  let (module, session) := (← get).session.enter file (moduleNames p)
  let paths := session.paths.set (modulePath p.file) module
  modify fun st => { st with session := { session with paths } }
  if !p.compiles then throw .badBinding
  if !p.importPrefix.isEmpty then throw .missingModule
  performAll module p.file (p.statements.length + 1) p.statements

def loadAll (modules : List (String × ModulePlan)) : Loader Unit :=
  modules.forM fun (file, p) => load file p

end Loader

/-- The session over the modules of some plans, with the warnings of the registries. -/
def Session.ofPlans (files : List String) (plans : List ModulePlan) : Result Loading := do
  let written := Dictionary.ofPairs (plans.map fun p => (outputFile p.file, p))
  let found (file : String) : Option (String × ModulePlan) :=
    (written.get? (outputFile file)).map fun p => (file, p)
  let (_, st) ← (Loader.loadAll (files.filterMap found)).run {}
  pure (st.finished.resettled, st.warnings)

end Protobind

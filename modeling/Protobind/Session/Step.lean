import Protobind.Message.Portrait
import Protobind.Message.Visit
import Protobind.Session.Load

/-!
# Steps of a session

Steps that change a variable also answer with what it holds afterwards, whether they succeed or not.
-/

namespace Protobind

/-- A step of a session. `on` names a variable. -/
inductive Step where
  | new (on type : String) (args : List (String × Literal))
  | set (on attr : String) (v : Literal)
  | get (on getter : String)
  | getOfNothing (type getter : String)
  | encode (on : String)
  | size (on : String)
  | text (on : String)
  | string (on : String)
  | display (on : String)
  | source (on : String)
  | decode (on : String) (data : Bytes)
  | merge (on : String) (data : Bytes)
  | reset (on : String)
  | sourceOf (v : Literal)
  | displayOf (v : Literal)
  | equal (on other : String)
  | equalValues (a b : Literal)
  | hasExtension (on ext : String)
  | getExtension (on ext : String)
  | clearExtension (on ext : String)
  | setExtension (on ext : String) (v : Literal)
  | registeredExtensions (on : String)
  | messageType (name : String)
  | enumValues (name : String)
  | enumLabel (names : List (Literal × Literal)) (n : Literal)
  | messageSetType (id : Literal)
  | fileDescriptor (name : String)
  | descriptor (on : String)
  | enumDescriptor (v : Literal)
  | wellKnown (on : String)
  | const (reference : String)
  | canonicalType (type : String)
  | slots (type : String)
  | bases (type : String)
  | names (file : String)
  | tags (type : String)
  | oneofs (type : String)
  | oneofSize (on : String)
  | oneofVariants (on : String)
  | ranges (on : String)

/-- What a step answers with. -/
inductive Answer where
  | value (v : Value)
  | type (id : ClassId)
  | builtin (name : String)
  | ranges (ranges : List FieldRange)
  | extension (ext : Extension)
  | list (items : List Answer)
  | map (entries : List (Answer × Answer))

/-- The reply to a step: an answer or a fault and, for a step that changes a variable, what the
variable holds afterwards. -/
structure Reply where
  result : Result Answer
  state? : Option Value := none

namespace Session

def insertName (name : String) : List String → List String
  | [] => [name]
  | n :: rest => if name ≤ n then name :: n :: rest else n :: insertName name rest

def publicNames (names : Namespace) : List String :=
  (names.filterMap fun (name, b) =>
    match b with
    | .module _ | .support _ => none
    | _ => if name.startsWith "_" then none else some name).foldr insertName []

mutual

def present (reg : Registry) : Binding → Result Answer
  | .type id => .ok (.type id)
  | .value v => do pure (.value (← reg.visible v))
  | .constant type n _ => .ok (.value (.enum type n))
  | .ranges ranges => .ok (.ranges ranges)
  | .extension ext => .ok (.extension ext)
  | .row items => do pure (.list (← presentAll reg items))
  | .list items => do pure (.list (← presentAll reg items))
  | .dictionary entries => do pure (.map (← presentEntries reg entries))
  | .range first last => do
    let first ← present reg first
    let last ← present reg last
    pure (.list [first, last])
  | .builtin path =>
    if Builtin.isClass path then .ok (.builtin (Builtin.lastName path)) else .error .notShowable
  | _ => .error .notShowable

def presentAll (reg : Registry) : List Binding → Result (List Answer)
  | [] => .ok []
  | b :: bs => do
    let answer ← present reg b
    let answers ← presentAll reg bs
    pure (answer :: answers)

def presentEntries (reg : Registry) : List (Binding × Binding) → Result (List (Answer × Answer))
  | [] => .ok []
  | (k, b) :: rest => do
    let key ← present reg k
    let answer ← present reg b
    let answers ← presentEntries reg rest
    pure ((key, answer) :: answers)

end

def baseNames (reg : Registry) : ClassDef → List String
  | .message _ => ["Message"]
  | .enum _ => ["Enum", "int"]
  | .variant t => (t.base?.map reg.className).toList ++ ["OneofVariant"]
  | .discriminator _ => ["OneofVariant"]

def slotNames : ClassDef → Result (List String)
  | .variant t => .ok [t.slot]
  | .discriminator _ => .ok []
  | _ => .error .missingMember

def variantNames (reg : Registry) (codec : OneofCodec) : Result (List String) :=
  Display.each
    (fun member => do
      match ← member.variant with
      | .type id => pure (reg.className id)
      | _ => throw .missingMember)
    (codec.groups.flatMap (·.members))

def texts (items : List String) : Answer := .value (.list (items.map .text))

variable (s : Session)

def definitionOf (reference : String) : Result ClassDef := do
  match s.registry.class? (← s.classOf reference) with
  | some c => pure c
  | none => throw .missingMember

def messageClassOf (reference : String) : Result MessageType := do
  match ← s.definitionOf reference with
  | .message t => pure t
  | _ => throw .missingMember

def extensionNamed (reference : String) : Result Extension := do
  match ← s.extensionOf reference with
  | .extension ext => pure ext
  | _ => throw .missingMember

def callMemberOf (b : Binding) (name : String) (args : List Binding) :
    Result Called := do
  let f ← s.memberIn b name
  if name == "__doc__" then throw .wrongType
  s.callBinding 0 f { placed := args }

def afterCall (reference name : String) : Session :=
  let changed? : Option Session := do
    let (file, bound) ← splitReference? reference
    let module ← (s.moduleOf file).toOption
    let b ← (s.memberOf module bound).toOption
    match b with
    | .type _ => none
    | _ =>
      let called ← (s.callMemberOf b name [Binding.nothing]).toOption
      let new ← called.owner?
      pure (s.bindName module bound new).resettled
  changed?.getD s

/-- What a member of the object in a variable answers when it is called, and the object behind the
call. -/
def callOf (on name : String) : Result (Binding × Value) :=
  if s.hides on name then .error .wrongType
  else
    match s.variableValue on, name with
    | .null, _ => do pure ((← s.callMemberOf Binding.nothing name []).answer, .null)
    | .enum id n, "__getstate__" =>
      .ok (.value (Registry.stateWith (s.enumAttrsOf on)), .enum id n)
    | .enum id n, "__dir__" =>
      .ok (.value (s.registry.listedNames (s.enumAttrsOf on) (.enum id n)), .enum id n)
    | v, _ => s.registry.callMember v name

def callOnNothing (s : Session) (id : ClassId) (name : String) : Result Binding :=
  if (s.registry.memberOf? id name).isSome then s.registry.callOnNothing id name
  else
    match name with
    | "__instancecheck__" => .ok (Binding.ofBool false)
    | "__prepare__" => .ok (.value (.map []))
    | "__call__" => do pure (.value (← s.registry.apply (.type id) .null))
    | "__or__" | "__ror__" => .error .notShowable
    | "__abstractmethods__" => .error .missingMember
    | _ =>
      match (s.attrsOf id).get? name with
      | some f => do pure (← s.callBinding 0 f { placed := [Binding.nothing] }).answer
      | none => .error (if MemberName.isKnown "type" name then .wrongType else .missingMember)

def ask (on method : String) : Result Answer := do
  present s.registry (← s.callOf on method).1

def codecIn (on : String) : Result (Message × OneofCodec) := do
  let (m, t) ← s.messageIn on
  if m.has "oneof_funcs" then throw .wrongType
  match t.codec? with
  | some codec => pure (m, codec)
  | none => throw .missingMember

def inspect : Step → Result Answer
  | .getOfNothing type getter => do
    match ← s.bindingOf type with
    | .type id => do present s.registry (← s.callOnNothing id getter)
    | b => do present s.registry (← s.callMemberOf b getter [Binding.nothing]).answer
  | .encode on => do
    let (m, _) ← s.messageIn on
    pure (.value (.bytes (← Protobind.encode s.registry m)))
  | .size on =>
    match s.variableValue on with
    | .null => .error (.unencodable .noMessage)
    | _ => do
      let (m, _) ← s.messageIn on
      pure (.value (.int (← encodedSize s.registry m)))
  | .text on => do
    let (m, _) ← s.messageIn on
    pure (.value (.text (← compactText s.registry m)))
  | .string on => s.ask on "string"
  | .display on => do
    if s.hides on "string" then throw .wrongType
    pure (.value (.text (← displayText s.registry (s.variableValue on))))
  | .source on => do
    pure (.value (.text (← sourceForm s.registry (s.variableValue on))))
  | .sourceOf v => do pure (.value (.text (← sourceForm s.registry (← s.eval v))))
  | .displayOf v => do pure (.value (.text (← displayText s.registry (← s.eval v))))
  | .equal on other => do
    let a := s.variableValue on
    let b := s.variableValue other
    pure (.value (.bool (← Protobind.equalValues s.registry (on == other) a b)))
  | .equalValues a b => do
    let a ← s.eval a
    let b ← s.eval b
    pure (.value (.bool (← Protobind.equalValues s.registry false a b)))
  | .hasExtension on ext => do
    let ext ← s.extensionNamed ext
    pure (.value (.bool (← Protobind.hasExtension (s.variableValue on) ext)))
  | .getExtension on ext => do
    let ext ← s.extensionNamed ext
    present s.registry (.value (← Protobind.getExtension s.registry (s.variableValue on) ext))
  | .registeredExtensions on =>
    let known := match Registry.classOf? (s.variableValue on) with
      | some id => sortByNumber (s.registry.extensionsOf id)
      | none => []
    .ok (.value (.list (known.map fun (n, ext) => .list [.int n, .text ext.name])))
  | .messageType name => do present s.registry (← s.registry.messageClass name)
  | .enumValues name =>
    match s.registry.enumValues.get? name with
    | none => .ok (.value .null)
    | some (.value (.map entries)) =>
      .ok (.value (.list (entries.map fun (label, n) => .list [label, n])))
    | some _ => .error .missingMember
  | .enumLabel names n => do
    let names ← s.evalEntries [] names
    let n ← (← s.eval n).toInteger
    match Value.valueOf? (.int n) names with
    | some .null | none => pure (.value (.text (toString n)))
    | some v => present s.registry (.value v)
  | .messageSetType id => do
    let id ← s.eval id
    if !id.isKey then throw .wrongType
    match s.registry.messageSetTypes.find? fun (n, _) => Value.sameKey (.int n) id with
    | none => pure (.value .null)
    | some (_, type, name) => pure (.list [← present s.registry type, .value (.text name)])
  | .fileDescriptor name =>
    match s.registry.files.get? name with
    | none => .ok (.value .null)
    | some data => present s.registry (.value data)
  | .descriptor on => s.ask on "descriptor"
  | .enumDescriptor v => do
    let v ← s.eval v
    present s.registry (← s.registry.callMember v "enum_descriptor").1
  | .wellKnown on => s.ask on "xxx_well_known_type"
  | .const reference => do
    match splitReference? reference with
    | some (file, name) => do
      present s.registry (← s.memberIn (.module (← s.moduleOf file)) name)
    | none => do present s.registry (← s.bindingOf reference)
  | .canonicalType type => do
    match Support.answer? s.registry "original_type" [some (← s.bindingOf type)] with
    | some answer => do present s.registry (← answer)
    | none => throw .missingMember
  | .slots type => do pure (texts (← slotNames (← s.definitionOf type)))
  | .bases type => do pure (texts (baseNames s.registry (← s.definitionOf type)))
  | .names file => do pure (texts (publicNames (s.namesOf (← s.moduleOf file))))
  | .tags type => do
    let t ← s.messageClassOf type
    pure (.value (.list (t.fields.map fun f =>
      let slot := f.slot
      .list [.text slot.attr, .text slot.kind.name, .text slot.tag.text,
        (slot.typeName?.map Value.text).getD .null])))
  | .oneofs type => do pure (texts (← s.messageClassOf type).oneofs)
  | .oneofSize on => do
    let (m, codec) ← s.codecIn on
    pure (.value (.int (← Size.oneofs s.registry (sizeMessage s.registry m.weight) codec m)))
  | .oneofVariants on => do
    let (_, codec) ← s.codecIn on
    pure (texts (← variantNames s.registry codec))
  | .ranges on => s.ask on "extension_range_array"
  | _ => .error .wrongType

def mergeInto (on : String) (m : Message) (data : Bytes) : Session × Result Unit :=
  let settled := { s with registry := s.registry.afterMerge m data }
  match Protobind.merge s.registry m data with
  | .done m _ => (settled.assign on (.message m), .ok ())
  | .failed fault m => (settled.assign on (.message m), .error fault)

def update (on : String) (v : Result Value) : Session × Result Unit :=
  match v with
  | .ok v => (s.assign on v, .ok ())
  | .error fault => (s, .error fault)

def setAttribute (on attr : String) (v : Result Value) : Session × Result Unit :=
  match v with
  | .error fault => (s, .error fault)
  | .ok v =>
    let old := s.variableValue on
    match old, old.assign attr v with
    | _, .error fault => (s, .error fault)
    | .enum .., .ok _ => (s.setEnumAttr on attr v, .ok ())
    | _, .ok new => (s.assign on new, .ok ())

def resetMessage (on : String) : Result Message := do
  if s.hides on "reset" then throw .wrongType
  s.registry.reset (← s.messageIn on).1

def change (on : String) : Step → Session × Result Unit
  | .new _ type args =>
    match s.eval (.call type args) with
    | .ok v => (s.assignNew on v, .ok ())
    | .error fault => (s, .error fault)
  | .set _ attr v => s.setAttribute on attr (s.eval v)
  | .decode _ data =>
    match s.resetMessage on with
    | .ok m => s.mergeInto on m data
    | .error fault => (s, .error fault)
  | .merge _ data =>
    match s.messageIn on with
    | .ok (m, _) => s.mergeInto on m data
    | .error fault => (s, .error fault)
  | .reset _ => s.update on do pure (.message (← s.resetMessage on))
  | .clearExtension _ ext =>
    match s.extensionNamed ext with
    | .ok ext =>
      match s.assignments.get? on with
      | some v => s.update on (Protobind.clearExtension v ext)
      | none => (s, .ok ())
    | .error fault => (s, .error fault)
  | .setExtension _ ext v => s.update on do
    let ext ← s.extensionOf ext
    let v ← s.eval v
    match ext with
    | .extension ext => Protobind.setExtension s.registry (s.variableValue on) ext v
    | _ => throw .missingMember
  | _ => (s, .ok ())

def changed? : Step → Option String
  | .new on _ _ | .set on _ _ | .decode on _ | .merge on _ | .reset on | .clearExtension on _
  | .setExtension on _ _ => some on
  | _ => none

def callIn (on getter : String) : Session × Result Answer :=
  match s.callOf on getter with
  | .error fault => (s, .error fault)
  | .ok (b, v) => (s.assign on v, present s.registry b)

def textMethods : List String := ["string", "__str__", "__repr__"]

def after : Step → Session
  | .getExtension on ext =>
    match s.extensionNamed ext with
    | .ok ext => { s with registry := s.registry.afterExtension (s.variableValue on) ext }
    | .error _ => s
  | .text on | .string on | .display on | .source on =>
    { s with registry := s.registry.afterText (s.variableValue on) }
  | .get on getter =>
    if textMethods.contains getter then
      { s with registry := s.registry.afterText (s.variableValue on) }
    else s
  | .getOfNothing type getter => s.afterCall type getter
  | _ => s

def step (st : Step) : Result (Session × Reply) :=
  match changed? st with
  | some on => do
    let (s, result) := s.change on st
    let state ← s.registry.visible (s.variableValue on)
    pure (s, { result := result.map fun _ => .value .null, state? := some state })
  | none =>
    match st with
    | .get on getter =>
      let (s, result) := (s.after st).callIn on getter
      .ok (s, { result })
    | _ => .ok (s.after st, { result := s.inspect st })

def run (s : Session) : List Step → Result (List Reply × Session)
  | [] => .ok ([], s)
  | st :: rest => do
    let (s, reply) ← s.step st
    let (replies, s) ← s.run rest
    pure (reply :: replies, s)

end Session

end Protobind

import Protobind.Message.Equality
import Protobind.Message.ExtensionAccess
import Protobind.Message.Getter
import Protobind.Message.Size
import Protobind.Message.Text
import Protobind.Module.Plan

/-!
# Sessions

A session holds loaded modules and variables. Values are given as literals, which name classes by
the module they are bound in, or by the name they are registered under.
-/

namespace Protobind

/-- What names are bound to. -/
abbrev Namespace := Dictionary String Binding

/-- How a value is given. -/
inductive Literal where
  | null
  | bool (value : Bool)
  | int (value : Int)
  | float (value : Double)
  | nan
  | text (value : String)
  | bytes (value : Bytes)
  | list (items : List Literal)
  | map (entries : List (Literal × Literal))
  | call (type : String) (args : List (String × Literal))
  | apply (type : String) (argument : Literal)

/-- What a class is settled from. -/
inductive Unsettled where
  | enum (plan : EnumPlan)
  | message (plan : MessagePlan)
  | forward (remote : Reference) (symbol : MessageSymbol)

/-- The state of a session. -/
structure Session where
  registry : Registry := {}
  loaded : Array Namespace := #[]
  frames : Array Namespace := #[]
  modules : Dictionary String Nat := []
  paths : Dictionary String Nat := []
  extensions : Dictionary String Extension := []
  classAttrs : Dictionary ClassId Namespace := []
  /-- The classes of the modules, in the order in which they were defined, and what their methods
  depend on. -/
  classes : List (Nat × ClassId × Unsettled) := []
  assignments : Dictionary String Value := []
  enumAttrs : Dictionary String (Dictionary String Value) := []

namespace Session

variable (s : Session)

def namesOf (module : Nat) : Namespace := (s.loaded[module]?).getD []

def moduleOf (file : String) : Result Nat :=
  match s.modules.get? file with
  | some module => .ok module
  | none => .error .unknownEntry

def memberOf (module : Nat) (name : String) : Result Binding :=
  match (s.namesOf module).get? name with
  | some b => .ok b
  | none => .error .missingMember

def splitReference? (reference : String) : Option (String × String) :=
  (Text.cutAt? ':' reference.toList).map fun (file, name) =>
    (String.ofList file, String.ofList name)

def bindingOf (reference : String) : Result Binding :=
  match splitReference? reference with
  | none => s.registry.messageClass reference
  | some (file, name) => do s.memberOf (← s.moduleOf file) name

def classOf (reference : String) : Result ClassId := do
  match ← s.bindingOf reference with
  | .type id => pure id
  | _ => throw .missingMember

/-- The extension that a reference means: one that is known by its own name, or else what the
reference is bound to. -/
def extensionOf (reference : String) : Result Binding :=
  match s.extensions.get? reference with
  | some ext => .ok (.extension ext)
  | none => s.bindingOf reference

mutual

def eval : Literal → Result Value
  | .null => .ok .null
  | .bool b => .ok (.bool b)
  | .int n => .ok (.int n)
  | .float d => .ok (.float d)
  | .nan => .ok .nan
  | .text t => .ok (.text t)
  | .bytes bs => .ok (.bytes bs)
  | .list items => do pure (.list (← evalItems items))
  | .map entries => do pure (.map (← evalEntries [] entries))
  | .call type args => do
    let b ← s.bindingOf type
    s.registry.call b none (← evalArgs args)
  | .apply type argument => do
    let b ← s.bindingOf type
    s.registry.apply b (← eval argument)

def evalItems : List Literal → Result (List Value)
  | [] => .ok []
  | l :: ls => do
    let v ← eval l
    let vs ← evalItems ls
    pure (v :: vs)

def evalEntries (known : List (Value × Value)) :
    List (Literal × Literal) → Result (List (Value × Value))
  | [] => .ok known
  | (k, v) :: rest => do
    let k ← eval k
    let v ← eval v
    if k.isKey then evalEntries (Value.setEntry k v known) rest else .error .wrongType

def evalArgs : List (String × Literal) → Result (Dictionary String Value)
  | [] => .ok []
  | (name, l) :: rest => do
    let v ← eval l
    let more ← evalArgs rest
    pure ((name, v) :: more)

end

def variableValue (name : String) : Value := (s.assignments.get? name).getD .null

def messageIn (name : String) : Result (Message × MessageType) :=
  match s.variableValue name with
  | .message m =>
    match s.registry.messageType? m.type with
    | some t => .ok (m, t)
    | none => .error .missingMember
  | _ => .error .missingMember

def assign (name : String) (v : Value) : Session :=
  { s with assignments := s.assignments.set name v }

def assignNew (name : String) (v : Value) : Session :=
  { s.assign name v with enumAttrs := s.enumAttrs.erase name }

def enumAttrsOf (name : String) : Dictionary String Value :=
  (s.enumAttrs.get? name).getD []

def hides (on name : String) : Bool := (s.enumAttrsOf on).contains name

def setEnumAttr (on attr : String) (v : Value) : Session :=
  let attrs := match attr, v with
    | "__dict__", .map entries =>
      entries.filterMap fun
        | (.text name, v) => some (name, v)
        | _ => none
    | _, _ => (s.enumAttrsOf on).set attr v
  { s with enumAttrs := s.enumAttrs.set on attrs }

def bindName (module : Nat) (name : String) (b : Binding) : Session :=
  { s with loaded := s.loaded.modify module (Dictionary.set name b) }

/-- Enters a new module for a file, in which some names are bound already; a module that the file
had before is not reached by its name any more. -/
def enter (file : String) (names : Namespace) : Nat × Session :=
  let module := s.loaded.size
  (module, { s with
    loaded := s.loaded.push names
    modules := s.modules.set file module })

end Session

end Protobind

import Protobind.Message.Record
import Protobind.Message.Registry

/-!
# Calls

Calling a class makes an instance of it. A call has at most one argument by position, and arguments
by keyword.
-/

namespace Protobind

def attributeFault? (attr : String) (v : Value) : Option Fault :=
  match attr with
  | "__class__" => some .wrongType
  | "__weakref__" => some .missingMember
  | "__dict__" =>
    match v with
    | .map _ => none
    | _ => some .wrongType
  | _ => none

/-- What the constructor stores: each argument goes to the first parameter of its keyword, and a
parameter without an argument takes its default. -/
def bindArguments : List Param → Dictionary String Value → List (String × Value)
  | [], _ => []
  | p :: ps, args =>
    let v := (args.get? p.name).getD p.default
    (p.attr, if v.isNull then p.whenNull else v) ::
      bindArguments ps (args.erase p.name)

namespace MessageType

def takes (t : MessageType) (args : Dictionary String Value) : Bool :=
  args.all fun (k, _) => t.params.any (·.name == k)

/-- The keyword that no constructor takes, since it is the name of the message itself. -/
def ownName : String := "self"

def callFault? (t : MessageType) (args : Dictionary String Value) : Option Fault :=
  let stored? := (bindArguments t.params args).findSome? fun (attr, v) => attributeFault? attr v
  if args.contains ownName then some .wrongType
  else
    t.form.constructorFault?.or <|
      if t.form = .given then stored?.or (if t.takes args then none else some .unexpectedArgument)
      else if t.takes args then stored? else some .wrongType

/-- The arguments by keyword that an argument by position and those by keyword amount to: it is the
argument of the first parameter. -/
def keywords (t : MessageType) (positional? : Option Value) (args : Dictionary String Value) :
    Result (Dictionary String Value) :=
  match positional?, t.params with
  | none, _ => .ok args
  | some v, p :: _ =>
    if t.form = .given || args.contains p.name then .error .wrongType
    else .ok ((p.name, v) :: args)
  | some _, [] => .error .wrongType

end MessageType

/-- A variant that holds a value, or the default of its class. The keyword of the value is the
attribute that the constructor assigns to. -/
def VariantType.call (t : VariantType) (id : ClassId) (positional? : Option Value)
    (args : Dictionary String Value) : Result Value := do
  let held ← match positional?, args with
    | none, [] => pure t.default
    | some v, [] => pure v
    | none, [(name, v)] => if name == t.assigned then pure v else throw .wrongType
    | _, _ => throw .wrongType
  match t.constructorFault? held with
  | some fault => throw fault
  | none => pure (.variant id t.stored held)

namespace Registry

variable (reg : Registry)

/-- What the constructor of a class makes of a message: it stores each argument and then, if the
class keeps them, no extensions and no unknown records. Everything else stays. -/
def initialized (t : MessageType) (args : Dictionary String Value) (m : Message) : Message :=
  let m := m.storeAll (bindArguments t.params args)
  let m := if t.hasExtensions then m.store extensionsAttr (.map []) else m
  if t.keepsUnknown then m.store unknownAttr (.bytes []) else m

def constructOn (m : Message) (args : Dictionary String Value) : Result Message :=
  match reg.messageType? m.type with
  | none => .error .wrongType
  | some t =>
    match t.callFault? args with
    | some fault => .error fault
    | none => .ok (initialized t args m)

def construct (id : ClassId) (args : Dictionary String Value) : Result Message :=
  reg.constructOn { type := id, attrs := [] } args

def fresh (id : ClassId) : Result Message := reg.construct id []

/-- A message after another call of its constructor: what the constructor stores is replaced, and
everything else stays. -/
def reconstruct (m : Message) : Result Message := reg.constructOn m []

/-- A message with everything unset again. An attribute that takes the place of the constructor, or
of the method that calls it, makes this fail. -/
def reset (m : Message) : Result Message :=
  if (m.get? "reset").isSome || (m.get? "__init__").isSome then .error .wrongType
  else reg.reconstruct m

def call (b : Binding) (positional? : Option Value) (args : Dictionary String Value) :
    Result Value :=
  match b with
  | .type id =>
    match reg.class? id with
    | some (.message t) => do
      pure (.message (← reg.construct id (← t.keywords positional? args)))
    | some (.enum _) =>
      match positional?, args with
      | none, [] => .ok (.enum id 0)
      | some v, [] => do pure (.enum id (← v.toInteger))
      | _, _ => .error .wrongType
    | some (.variant t) => t.call id positional? args
    | some (.discriminator _) =>
      match positional?, args with
      | none, [] => .ok (.discriminator id)
      | _, _ => .error .wrongType
    | none => .error .wrongType
  | _ => .error .wrongType

def apply (b : Binding) (v : Value) : Result Value := reg.call b (some v) []

def instantiate (b : Binding) : Result Value := reg.call b none []

def enumValue (typeName? : Option String) (number : Int) : Result Value :=
  match typeName?.bind fun name => reg.enumTypes.get? name with
  | some b => reg.apply b (.int number)
  | none => .ok (.int number)

end Registry

end Protobind

import Protobind.Message.BufferCall
import Protobind.Message.Member
import Protobind.Object.CollectionMethod
import Protobind.Object.MemberName
import Protobind.Object.NumberMethod

/-!
# Methods of things

A method is found by its name and the type of its owner. A class finds the methods of its instances
as well; they take the instance as their first argument then.
-/

namespace Protobind.Method

variable (reg : Registry)

def callNumber? (n : Int) (name : String) (args : Arguments) : Option (Result Effect) :=
  (NumberMethod.callInt? n name args).map fun answer => answer.map Effect.pure

/-- The answer of a method that things of all types have, by the word between the underscores; `none`
for other methods. -/
def callCommon? (owner : Binding) (word : String) (args : Arguments) : Option (Result Effect) :=
  let alone (answer : Result Binding) : Option (Result Effect) := some do
    args.none
    pure (.pure (← answer))
  match word with
  | "bool" => alone (.ok (Binding.ofBool owner.truthy))
  | "repr" => alone do pure (Binding.ofText (← owner.source reg))
  | "str" => alone do pure (Binding.ofText (← owner.display reg))
  | "getstate" => alone (.ok Binding.nothing)
  | "init" | "init_subclass" => some (.ok (.pure Binding.nothing))
  | _ => none

def callObject? (v : Value) (id : ClassId) (name : String) (args : Arguments) :
    Option (Result Effect) :=
  (reg.memberOf? id name).map fun member =>
    if args.placed.isEmpty && args.keywords.isEmpty then do
      let (answer, new) ← reg.callMember v name
      let owner? : Option Binding := match new with
        | .message _ | .variant .. => some (.value new)
        | _ => none
      pure { answer, owner? }
    else
      match v, args.placed, name with
      | .enum _ n, _, _ =>
        (callNumber? n name args).getD
          (if (MemberName.word? name).isSome then .ok (.pure .hidden) else .error .wrongType)
      | _, [other], "__eq__" => do
        pure (.pure (Binding.ofBool (← Binding.equal reg (.value v) other)))
      | _, [other], "__ne__" => do
        pure (.pure (Binding.ofBool !(← Binding.equal reg (.value v) other)))
      | _, _, _ =>
        match member with
        | .data | .unshown => .ok (.pure .hidden)
        | _ => .error .wrongType

def callText? (s name : String) (args : Arguments) : Option (Result Binding) :=
  let spelled (f : Char → Char) : Option (Result Binding) :=
    if s.toList.all fun c => c.toNat < 128 then some do
      args.none
      pure (Binding.ofText (String.ofList (s.toList.map f)))
    else none
  match name with
  | "upper" => spelled Char.toUpper
  | "lower" => spelled Char.toLower
  | _ => none

def callBuffer? (b : Buffer) (name : String) (args : Arguments) : Option (Result Effect) :=
  (Buffer.Operation.named? name).map fun op => do
    match op, args.placed with
    | .action .writeMessage, [.value (.message m)] => do
      pure (.become (.buffer (b.append (writeRun (← encode reg m)))))
    | .action .writeFields, [.value (.message m)] => do
      pure (.become (.buffer (b.append (← encode reg m))))
    | _, _ =>
      if !args.keywords.isEmpty then throw .wrongType
      let (answer, b) := b.call op (← args.placed.mapM Binding.asValue)
      pure { answer := .value (← answer), owner? := some (.buffer b) }

def callOwn? (owner : Binding) (name : String) (args : Arguments) : Option (Result Effect) :=
  let plain (answer? : Option (Result Binding)) : Option (Result Effect) :=
    answer?.map fun answer => answer.map Effect.pure
  match owner.view with
  | .value (.text s) => plain (callText? s name args)
  | .list items => CollectionMethod.callList? reg items name args
  | .row items => CollectionMethod.callRow? reg items name args
  | .range first last => CollectionMethod.callRow? reg [first, last] name args
  | .dictionary entries => CollectionMethod.callDictionary? reg entries name args
  | .buffer b => callBuffer? reg b name args
  | .value v =>
    match Registry.classOf? v with
    | some id => callObject? reg v id name args
    | none =>
      match v.asInt with
      | .ok n => callNumber? n name args
      | .error _ => none
  | _ => none

def callOn (owner : Binding) (name : String) (args : Arguments) : Result Effect :=
  let common? := (MemberName.word? name).bind fun word => callCommon? reg owner word args
  ((callOwn? reg owner name args).or common?).getD (.ok (.pure .hidden))

/-! ## Methods of classes -/

def isInstanceOf (b : Binding) (path : String) : Bool :=
  let type := b.typeName reg
  path == "object" || type == path ||
    match b with
    | .error error _ => Builtin.belongsTo error path
    | .range .. => path == "tuple" || path == "proto.ExtensionRange"
    | .field _ => path == "proto.Field"
    | .buffer _ => path == "proto.Buffer"
    | .extension _ => path == "proto.ExtensionDesc"
    | .value (.bool _) => path == "int"
    | .value (.enum ..) | .constant .. => path == "int" || path == "proto.Enum"
    | .value (.message _) => path == "proto.Message"
    | .value (.variant ..) | .value (.discriminator _) => path == "proto.OneofVariant"
    | _ => false

def callOfClass (path name : String) (args : Arguments) : Result Binding :=
  match args.placed with
  | owner :: rest =>
    if isInstanceOf reg owner path then do
      pure (← callOn reg owner name { args with placed := rest }).answer
    else .error .wrongType
  | [] => .error .wrongType

def callOfType (id : ClassId) (name : String) (args : Arguments) : Result Binding :=
  match args.placed with
  | [.value .null] => reg.callOnNothing id name
  | owner :: rest =>
    match owner.value?.bind Registry.classOf? with
    | some type =>
      if type == id then do
        pure (← callOn reg owner name { args with placed := rest }).answer
      else .ok .hidden
    | none => .ok .hidden
  | [] => .error .wrongType

end Protobind.Method

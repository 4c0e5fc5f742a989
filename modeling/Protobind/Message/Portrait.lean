import Protobind.Message.Member
import Protobind.Number.Hexadecimal

/-!
# Portraits

A portrait is what can be seen of a message from outside. A value can be seen when everything in it
can: a variant by the declared name of its slot, a message by its portrait.
-/

namespace Protobind

def Value.hexText : Value → Result String
  | .bytes bs => .ok (Text.hexBytes bs)
  | .float d => .ok d.hexText
  | .nan => .ok Double.nan.hexText
  | v => .error (v.callFault "hex")

/-- What can be seen of a message. -/
structure Portrait where
  name : String
  fields : List (String × Value)
  oneofs : List (String × Value)
  /-- The extensions in ascending order of their numbers, each as digits in base sixteen. -/
  extensions? : Option (List (Value × String))
  unknown? : Option String

namespace Registry

variable (reg : Registry)

def seen (t : MessageType) (m : Message) (attr : String) : Result Value :=
  match m.own? attr with
  | some v => .ok v
  | none =>
    match attr with
    | "_fields" => if t.fields.isEmpty then .ok (.list []) else .error .notShowable
    | "_oneofs" => .ok (.list (t.oneofs.map .text))
    | "__hash__" | "__weakref__" => .ok .null
    | _ => .error (if (reg.memberOf? m.type attr).isSome then .notShowable else .missingMember)

def seenExtensions : ExtensionStore → Result (List (Value × String))
  | .records extensions =>
    .ok ((sortByNumber extensions).map fun (number, raw) => (.int number, Text.hexBytes raw))
  | .other v => do
    (← Value.sorted (← v.items)).mapM fun key => do pure (key, ← (← v.part key).hexText)

def portraitWith (check : Value → Result Unit) (m : Message) : Result Portrait :=
  match reg.messageType? m.type with
  | none => .error .missingMember
  | some t => do
    let entry (attr : String) : Result (String × Value) := do
      let v ← reg.seen t m attr
      check v
      pure (attr, v)
    let fields ← (← t.tableOf m).mapM fun f => entry f.slot.attr
    let oneofs ← match m.get? "_oneofs" with
      | some v => if v.truthy then t.oneofsOf m else pure []
      | none => pure t.oneofs
    let oneofs ← oneofs.mapM entry
    let extensions? ← m.extensionStore?.mapM seenExtensions
    let unknown? ← m.unknownValue?.mapM Value.hexText
    pure { name := t.name, fields, oneofs, extensions?, unknown? }

def portrait (m : Message) : Result Portrait := reg.portraitWith (fun _ => .ok ()) m

def checkVisible : Nat → Value → Result Unit
  | 0, _ => .ok ()
  | fuel + 1, v =>
    match v with
    | .list items => items.forM (checkVisible fuel)
    | .map entries => entries.forM fun (k, v) => do
      checkVisible fuel k
      checkVisible fuel v
    | .variant type _ held =>
      match reg.variantType? type with
      | some t =>
        match t.slotFault? with
        | none => checkVisible fuel held
        | some fault => .error fault
      | none => .error .missingMember
    | .message m => do
      let _ ← reg.portraitWith (checkVisible fuel) m
    | _ => .ok ()

def visible (v : Value) : Result Value := do
  reg.checkVisible (v.weight + 1) v
  pure v

end Registry

end Protobind

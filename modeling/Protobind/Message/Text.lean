import Protobind.Message.Decode
import Protobind.Text.Escape

/-!
# Messages as text

The compact text of a message names its set fields on one line. The source form of a value is the
expression that would build it.
-/

namespace Protobind

namespace Display

def each {α β : Type} (f : α → Result β) : List α → Result (List β)
  | [] => .ok []
  | a :: as => do
    let b ← f a
    let bs ← each f as
    pure (b :: bs)

def readableSlot (reg : Registry) (type : ClassId) : Result String :=
  match reg.variantType? type with
  | some t =>
    match t.slotFault? with
    | none => .ok t.slot
    | some fault => .error fault
  | none => .error .missingMember

def hides (reg : Registry) (type : ClassId) (method : String) : Bool :=
  ((reg.variantType? type).map (·.hides method)).getD false

mutual

def source (reg : Registry) (nested : Message → Result String) : Value → Result String
  | .list items => do pure ("[" ++ ", ".intercalate (← sources reg nested items) ++ "]")
  | .map entries => do
    pure ("\x7b" ++ ", ".intercalate (← entrySources reg nested entries) ++ "\x7d")
  | .enum type n => .ok s!"{reg.className type}({n})"
  | .variant type _ held => do
    if hides reg type "__repr__" then throw .wrongType
    let slot ← readableSlot reg type
    let value ← source reg nested held
    pure s!"{reg.className type}({slot}={value})"
  | .discriminator type => .ok s!"{reg.className type}()"
  | .message m => do
    let text ← nested m
    pure s!"{reg.className m.type}({text})"
  | v => .ok v.leafSource

def sources (reg : Registry) (nested : Message → Result String) : List Value → Result (List String)
  | [] => .ok []
  | v :: vs => do
    let s ← source reg nested v
    let rest ← sources reg nested vs
    pure (s :: rest)

def entrySources (reg : Registry) (nested : Message → Result String) :
    List (Value × Value) → Result (List String)
  | [] => .ok []
  | (k, v) :: rest => do
    let key ← source reg nested k
    let value ← source reg nested v
    let more ← entrySources reg nested rest
    pure (s!"{key}: {value}" :: more)

end

def named (reg : Registry) (nested : Message → Result String) : String → Value → Result String
  | name, .message m => do
    let text ← nested m
    pure s!"{name}:<{text}>"
  | _, .variant type _ held =>
    match readableSlot reg type with
    | .ok slot => named reg nested slot held
    | .error fault => .error fault
  | _, .discriminator _ => .error .missingPosition
  | name, .text s => .ok s!"{name}:{Text.displayBytes (Bytes.ofText s)}"
  | name, .bytes bs => .ok s!"{name}:{Text.displayBytes bs}"
  | name, .bool b => .ok s!"{name}:{b}"
  | name, .enum type n =>
    match reg.enumType? type with
    | some t => do
      let label ← t.label n
      pure s!"{name}:{label}"
    | none => .error .missingMember
  | name, v => do
    let value ← source reg nested v
    pure s!"{name}:{value}"

def field (reg : Registry) (nested : Message → Result String) (f : Field) (v : Value) :
    Result (List String) :=
  let slot := f.slot
  let name := slot.tag.name
  if v.isNull then .ok []
  else if f.isMap then
    match v with
    | .map entries =>
      each
        (fun (k, item) => do
          let key ← named reg nested "key" k
          let value ← named reg nested "value" item
          pure s!"{name}:<{key} {value}>")
        entries
    | _ => .error (v.callFault "items")
  else if slot.tag.repeated then do each (named reg nested name) (← v.items)
  else if slot.tag.proto3 && !v.truthy && !slot.kind.isMessage then .ok []
  else do pure [← named reg nested name v]

def member (reg : Registry) (nested : Message → Result String) (id : Value)
    (raw : Result Bytes) : Result (List String) :=
  match reg.messageSetTypes.find? fun (number, _) => Value.sameKey (.int number) id with
  | none => .ok []
  | some (_, type, name) => do
    let raw ← raw
    let (_, rest) ← Decode.ofReader Varint.read raw
    let v ← reg.instantiate type
    let (data, _) ← Decode.ofReader readRun rest
    let (v, _) ← Decode.outcomeParse (Decode.into (merge reg) v data)
    match v with
    | .message m => do
      let text ← nested m
      pure [s!"[{name}]:<{text}>"]
    | _ => throw .missingMember

def members (reg : Registry) (nested : Message → Result String) :
    ExtensionStore → Result (List (List String))
  | .records extensions =>
    each (fun (number, raw) => member reg nested (.int number) (.ok raw)) (sortByNumber extensions)
  | .other v => do
    let raw (id : Value) : Result Bytes := do (← v.part id).toBytes
    each (fun id => member reg nested id (raw id)) (← Value.sorted (← v.items))

def message (reg : Registry) (nested : Message → Result String) (m : Message) : Result String :=
  match reg.messageType? m.type with
  | none => .error .missingMember
  | some t => do
    let fields ←
      each (fun f => field reg nested f ((m.own? f.slot.attr).getD .null)) (← t.tableOf m)
    let oneofs ← each
      (fun attr =>
        let v := (m.own? attr).getD .null
        if v.isNull then .ok [] else do pure [← named reg nested attr v])
      (← t.oneofsOf m)
    let members ←
      if t.isMessageSet then members reg nested (m.extensionStore?.getD (.records []))
      else pure []
    pure (" ".intercalate (fields ++ oneofs ++ members).flatten)

def bounded (reg : Registry) : Nat → Message → Result String
  | 0, _ => .ok ""
  | fuel + 1, m => message reg (bounded reg fuel) m

end Display

def compactText (reg : Registry) (m : Message) : Result String :=
  Display.bounded reg m.weight m

def sourceForm (reg : Registry) (v : Value) : Result String :=
  Display.source reg (Display.bounded reg v.weight) v

/-- A value as text: a text is itself, an enum value its name, a message its compact text, anything
else its source form. -/
def displayText (reg : Registry) (v : Value) : Result String :=
  match v with
  | .text s => .ok s
  | .enum type n =>
    match reg.enumType? type with
    | some t => t.label n
    | none => .error .missingMember
  | .message m => compactText reg m
  | .variant type _ _ =>
    if Display.hides reg type "__str__" then .error .wrongType else sourceForm reg v
  | v => sourceForm reg v

end Protobind

import Protobind.Message.Encode

/-!
# Sizes

The number of bytes of an encoding, without encoding anything but message sets.
-/

namespace Protobind

namespace Size

def run (length : Nat) : Nat := Varint.size length + length

variable (nested : Message → Result Nat)

def body : Value → Result Nat
  | .null => .error (.unencodable .noMessage)
  | .message m => nested m
  | _ => .error .missingMember

def value (kind : SlotKind) (v : Value) : Result Nat :=
  match kind with
  | .other _ => .error .unknownKind
  | .known kind =>
    match kind with
    | .double | .fixed64 | .sfixed64 => .ok 8
    | .float | .fixed32 | .sfixed32 => .ok 4
    | .int64 | .uint64 | .int32 | .uint32 | .enum => do pure (Varint.size (← v.asInt))
    | .bool => .ok 1
    | .string => do pure (run (Bytes.ofText (← v.asText)).length)
    | .bytes => do pure (run (← v.length))
    | .message => do pure (run (← body nested v))
    | .sint32 => do pure (Varint.size (zigzag32 (← v.asInt)))
    | .sint64 => do pure (Varint.size (zigzag64 (← v.asInt)))
    | .group => .error .unknownKind

def key (number : Int) (wire : WireType) : Nat := Varint.size (recordKey number wire)

def single (slot : Slot) (v : Value) : Result Nat :=
  let number := slot.tag.number
  if slot.kind = .known .group then do
    pure (key number .startGroup + (← body nested v) + key number .endGroup)
  else do pure (key number slot.tag.wireType + (← value nested slot.kind v))

def each {α : Type} (size : α → Result Nat) : List α → Result Nat
  | [] => .ok 0
  | a :: as => do
    let head ← size a
    let tail ← each size as
    pure (head + tail)

def field (nested : Message → Result Nat) : Field → Bool → Value → Result Nat
  | .map slot key' val, _, v => do
    each
      (fun (k, item) => do
        let entry := (← field nested key' true k) + (← field nested val true item)
        pure (key slot.tag.number .bytes + run entry))
      (← v.entries)
  | .plain slot, always, v =>
    if slot.kind.isMap then .error .incompleteField
    else if slot.tag.repeated then
      if !v.truthy then .ok 0
      else if slot.tag.packed then do
        let packed ← each (value nested slot.kind) (← v.items)
        pure (key slot.tag.number .bytes + run packed)
      else do each (single nested slot) (← v.items)
    else if v.isNull then
      if slot.tag.required then .error (.unencodable (.requiredUnset slot.tag.name)) else .ok 0
    else if slot.tag.proto3 && !always && !slot.kind.isMessage && !v.truthy then .ok 0
    else single nested slot v

/-! ## Oneofs -/

def sizeStep (rebound : List String) (number : Int)
    (held : Value) : SizeStep → Result Nat
  | .bytes count => .ok count
  | .varint => do pure (Varint.size (← held.asInt))
  | .zigzag32 => do pure (Varint.size (zigzag32 (← held.asInt)))
  | .zigzag64 => do pure (Varint.size (zigzag64 (← held.asInt)))
  | .text => do
    let s ← held.asText
    if rebound.contains "len" then .error .wrongType else pure (run (Bytes.ofText s).length)
  | .run => if rebound.contains "len" then .error .wrongType else do pure (run (← held.length))
  | .message => do pure (run (← body nested held))
  | .fields => body nested held
  | .endKey => .ok (key number .endGroup)

def oneofCase (rebound : List String) (c : OneofCase)
    (number : Int) (held : Value) : Result Nat := do
  let steps ← each (sizeStep nested rebound number held) c.size
  pure (key number c.wireType + steps)

def oneofValue (reg : Registry) (codec : OneofCodec) (group : OneofSlot)
    (nested : Message → Result Nat) (v : Value) : Result Nat :=
  if v.isNull then .ok 0
  else do
    let held ← reg.heldMember codec group (.unencodable (.foreignSize (reg.typeName v))) v
    oneofCase nested codec.rebound (.ofKind held.1.kind) held.1.number held.2

def oneof (reg : Registry) (nested : Message → Result Nat) (codec : OneofCodec)
    (m : Message) (group : OneofSlot) : Result Nat := do
  oneofValue reg codec group nested (← m.require group.attr)

def oneofs (reg : Registry) (nested : Message → Result Nat) (codec : OneofCodec)
    (m : Message) : Result Nat :=
  each (oneof reg nested codec m) codec.groups

def fields (m : Message) (table : List Field) : Result Nat :=
  each (fun f => do field nested f false (← m.require f.slot.attr)) table

def members (reg : Registry) (nested : Message → Result Nat) (m : Message) :
    Option OneofCodec → Result Nat
  | none => .ok 0
  | some codec => oneofs reg nested codec m

def message (reg : Registry) (nested : Message → Result Nat) (m : Message) : Result Nat :=
  match reg.messageType? m.type with
  | none => .error .missingMember
  | some t =>
    if t.isMessageSet then
      match m.extensionStore? with
      | none => .error .missingMember
      | some store => do pure (← MessageSet.encodeStore store).length
    else do
      let plain ← fields nested m (← t.tableOf m)
      let oneofs ← members reg nested m (← t.codecOf m)
      let extensions ← m.extensionsSize
      pure (plain + oneofs + extensions + (← m.unknownSize))

end Size

def sizeMessage (reg : Registry) : Nat → Message → Result Nat
  | 0, _ => .error (.unencodable .noMessage)
  | fuel + 1, m => Size.message reg (sizeMessage reg fuel) m

def encodedSize (reg : Registry) (m : Message) : Result Nat := sizeMessage reg m.weight m

end Protobind

import Protobind.Message.MessageSet

/-!
# Encoding

A message is written field by field in the order of its table, then its oneofs, its extensions in
ascending order of their numbers, and last the unknown records it kept.

Every function takes the writer for the messages inside a value as its argument `nested`; only
`encodeMessage` ties the knot, and it spends one unit of its fuel for each level of nesting.
-/

namespace Protobind

namespace Encode

variable (nested : Message → Result Bytes)

def body : Value → Result Bytes
  | .null => .error (.unencodable .noMessage)
  | .message m => nested m
  | _ => .error .missingMember

def value (kind : SlotKind) (v : Value) : Result Bytes :=
  match kind with
  | .other _ => .error .unknownKind
  | .known kind =>
    match kind with
    | .double => do pure (writeFixed64 (← v.doubleBits))
    | .float => do pure (writeFixed32 (← v.singleBits))
    | .int64 | .uint64 | .int32 | .uint32 | .enum => do pure (Varint.write (← v.asInt))
    | .fixed64 | .sfixed64 => do pure (writeFixed64 (← v.asInt))
    | .fixed32 | .sfixed32 => do pure (writeFixed32 (← v.asInt))
    | .bool => .ok (Varint.write (if v.truthy then 1 else 0))
    | .string => do pure (writeText (← v.asText))
    | .bytes => do pure (writeRun (← v.asBytes))
    | .message => do pure (writeRun (← body nested v))
    | .sint32 => do pure (writeZigzag32 (← v.asInt))
    | .sint64 => do pure (writeZigzag64 (← v.asInt))
    | .group => .error .unknownKind

def single (slot : Slot) (v : Value) : Result Bytes :=
  let number := slot.tag.number
  if slot.kind = .known .group then do
    pure (writeKey number .startGroup ++ (← body nested v) ++ writeKey number .endGroup)
  else do pure (writeKey number slot.tag.wireType ++ (← value nested slot.kind v))

def each {α : Type} (write : α → Result Bytes) : List α → Result Bytes
  | [] => .ok []
  | a :: as => do
    let head ← write a
    let tail ← each write as
    pure (head ++ tail)

/-- Writes the value of a field. Nothing is written for a value that is not set; with `always`, a
zero value of an implicit field is written too. -/
def field (nested : Message → Result Bytes) : Field → Bool → Value → Result Bytes
  | .map slot key val, _, v => do
    each
      (fun (k, item) => do
        let entry := (← field nested key true k) ++ (← field nested val true item)
        pure (writeKey slot.tag.number .bytes ++ writeRun entry))
      (← v.entries)
  | .plain slot, always, v =>
    if slot.kind.isMap then .error .incompleteField
    else if slot.tag.repeated then
      if !v.truthy then .ok []
      else if slot.tag.packed then do
        let packed ← each (value nested slot.kind) (← v.items)
        pure (writeKey slot.tag.number .bytes ++ writeRun packed)
      else do each (single nested slot) (← v.items)
    else if v.isNull then
      if slot.tag.required then .error (.unencodable (.requiredUnset slot.tag.name)) else .ok []
    else if slot.tag.proto3 && !always && !slot.kind.isMessage && !v.truthy then .ok []
    else single nested slot v

/-! ## Oneofs -/

def operand (held : Value) : Operand → Result Int
  | .held => held.asInt
  | .doubleBits => do pure (← held.doubleBits)
  | .singleBits => do pure (← held.singleBits)
  | .truth => .ok (if held.truthy then 1 else 0)

def writeStep (number : Int) (held : Value) :
    WriteStep → Result Bytes
  | .varint op => do pure (Varint.write (← operand held op))
  | .fixed64 op => do pure (writeFixed64 (← operand held op))
  | .fixed32 op => do pure (writeFixed32 (← operand held op))
  | .zigzag32 => do pure (writeZigzag32 (← held.asInt))
  | .zigzag64 => do pure (writeZigzag64 (← held.asInt))
  | .text => do pure (writeText (← held.asText))
  | .run => do pure (writeRun (← held.asBytes))
  | .message => do pure (writeRun (← body nested held))
  | .fields => body nested held
  | .endKey => .ok (writeKey number .endGroup)

def oneofCase (c : OneofCase) (number : Int)
    (held : Value) : Result Bytes := do
  let steps ← each (writeStep nested number held) c.write
  pure (writeKey number c.wireType ++ steps)

end Encode

/-- The member of a oneof whose variant an object is an instance of: the first one that matches.
A member whose variant is not bound, or is no class, is a fault when it is tested. -/
def Registry.findMember (reg : Registry) (v : Value) :
    List VariantMember → Result (Option VariantMember)
  | [] => .ok none
  | member :: members => do
    match ← member.variant with
    | .type id => if reg.isInstance v id then pure (some member) else reg.findMember v members
    | _ => throw .wrongType

/-- The member that an object sets, and what it holds. An object of no member is the fault
`foreign`. -/
def Registry.heldMember (reg : Registry) (codec : OneofCodec) (group : OneofSlot) (foreign : Fault)
    (v : Value) : Result (VariantMember × Value) :=
  if codec.rebound.contains "isinstance" then .error .wrongType
  else do
    match ← reg.findMember v group.members with
    | some member => pure (member, ← reg.member v member.attr)
    | none => if codec.rebound.contains "type" then .error .wrongType else .error foreign

/-- What is written of a oneof that holds a value. -/
def Encode.oneofValue (reg : Registry) (codec : OneofCodec) (group : OneofSlot)
    (nested : Message → Result Bytes) (v : Value) : Result Bytes :=
  if v.isNull then .ok []
  else do
    let held ← reg.heldMember codec group
      (.unencodable (.foreignVariant codec.owner group.label (reg.typeName v))) v
    oneofCase nested (.ofKind held.1.kind) held.1.number held.2

/-- An attribute of a message and what is written of its values: a field or a oneof. -/
structure Part where
  attr : String
  /-- What is written of a value, with a writer for the messages inside. -/
  write : (Message → Result Bytes) → Value → Result Bytes

/-- What is written of one part of a message. -/
def Part.of (part : Part) (nested : Message → Result Bytes) (m : Message) : Result Bytes := do
  part.write nested (← m.require part.attr)

/-- A field as a part of messages. -/
def Field.part (f : Field) : Part where
  attr := f.slot.attr
  write := fun nested => Encode.field nested f false

/-- A oneof as a part of messages. -/
def OneofSlot.part (reg : Registry) (codec : OneofCodec) (group : OneofSlot) : Part where
  attr := group.attr
  write := Encode.oneofValue reg codec group

namespace Encode

def oneof (reg : Registry) (nested : Message → Result Bytes) (codec : OneofCodec)
    (m : Message) (group : OneofSlot) : Result Bytes :=
  (group.part reg codec).of nested m

def fields (nested : Message → Result Bytes) (m : Message) (table : List Field) : Result Bytes :=
  each (fun f => f.part.of nested m) table

/-- What is written of the oneofs of a message by the functions for them, if there are any. -/
def members (reg : Registry) (nested : Message → Result Bytes) (m : Message) :
    Option OneofCodec → Result Bytes
  | none => .ok []
  | some codec => each (oneof reg nested codec m) codec.groups

def message (reg : Registry) (nested : Message → Result Bytes) (m : Message) : Result Bytes :=
  match reg.messageType? m.type with
  | none => .error .missingMember
  | some t =>
    if t.isMessageSet then
      match m.extensionStore? with
      | none => .error .missingMember
      | some store => MessageSet.encodeStore store
    else do
      let plain ← fields nested m (← t.tableOf m)
      let oneofs ← members reg nested m (← t.codecOf m)
      let extensions ← m.writtenExtensions
      pure (plain ++ oneofs ++ extensions ++ (← m.writtenUnknown))

end Encode

/-- Writes a message with at most `fuel` levels of nesting. -/
def encodeMessage (reg : Registry) : Nat → Message → Result Bytes
  | 0, _ => .error (.unencodable .noMessage)
  | fuel + 1, m => Encode.message reg (encodeMessage reg fuel) m

def encode (reg : Registry) (m : Message) : Result Bytes := encodeMessage reg m.weight m

end Protobind

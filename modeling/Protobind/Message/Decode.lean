import Protobind.Message.Encode

/-!
# Decoding

Reading merges records into a message: a list grows, a message inside the message is merged, a
oneof is replaced, and everything else is overwritten. What was merged before a fault stays merged,
so an outcome carries the state reached also when it is a failure.

The functions for one level take the readers for the messages inside as their argument `nested`;
`mergeRecords` ties the knot. Each record and each level of nesting has a key of at least one byte,
so the length of the data is a sufficient fuel.
-/

namespace Protobind

open Varint

/-- How reading ends, and the state that it reaches. -/
inductive Outcome (σ : Type) where
  | done (state : σ) (rest : Bytes)
  | failed (fault : Fault) (state : σ)

def Outcome.map {σ τ : Type} (f : σ → τ) : Outcome σ → Outcome τ
  | .done s rest => .done (f s) rest
  | .failed fault s => .failed fault (f s)

def Outcome.state {σ : Type} : Outcome σ → σ
  | .done s _ => s
  | .failed _ s => s

namespace Decode

/-- Reads something from the front of some data. -/
abbrev Parse (α : Type) := Bytes → Result (α × Bytes)

def ofReader {α : Type} (r : Reader α) : Parse α := fun bs =>
  match r bs with
  | .ok a rest => .ok (a, rest)
  | .error e _ => .error (.malformed e)

def mapParse {α β : Type} (f : α → β) (p : Parse α) : Parse β := fun bs => do
  let (a, rest) ← p bs
  pure (f a, rest)

section

variable {α σ : Type}

/-- An outcome with other data behind it. -/
def withRest (rest : Bytes) : Outcome σ → Outcome σ
  | .done s _ => .done s rest
  | .failed fault s => .failed fault s

/-- Reads with a parser and goes on with what was read, whatever stands behind it. -/
def reading (s : σ) (p : Parse α) (next : α → Outcome σ) (bs : Bytes) : Outcome σ :=
  match p bs with
  | .ok (a, rest) => withRest rest (next a)
  | .error fault => .failed fault s

/-- The outcome of a computation that leaves a state as it is when it fails. -/
def ofResult (s : σ) : Result σ → Outcome σ
  | .ok s => .done s []
  | .error fault => .failed fault s

end

/-- The readers for messages inside a message. -/
structure Nested where
  message : Message → Bytes → Outcome Message
  group : Message → Bytes → Outcome Message

variable (reg : Registry)

def scalar (slot : Slot) : Parse Value :=
  match slot.kind with
  | .other _ => fun _ => .error .unknownKind
  | .known kind =>
    match kind with
    | .double => mapParse (fun n => .float ⟨UInt64.ofNat n⟩) (ofReader readFixed64)
    | .float => mapParse (fun n => .float (Double.ofSingle n)) (ofReader readFixed32)
    | .int64 => mapParse (fun n => .int (signed64 n)) (ofReader read)
    | .uint64 => mapParse (fun n => .int n) (ofReader read)
    | .int32 => mapParse (fun n => .int (signed32 n)) (ofReader read)
    | .uint32 => mapParse (fun n => .int (word32 n)) (ofReader read)
    | .enum => fun bs => do
      let (n, rest) ← ofReader read bs
      pure (← reg.enumValue slot.typeName? (signed32 n), rest)
    | .fixed64 => mapParse (fun n => .int n) (ofReader readFixed64)
    | .sfixed64 => mapParse (fun n => .int (signed64 n)) (ofReader readFixed64)
    | .fixed32 => mapParse (fun n => .int n) (ofReader readFixed32)
    | .sfixed32 => mapParse (fun n => .int (signed32 n)) (ofReader readFixed32)
    | .bool => mapParse (fun n => .bool (n != 0)) (ofReader read)
    | .string => mapParse .text (ofReader readText)
    | .bytes => mapParse .bytes (ofReader readRun)
    | .sint32 => mapParse .int (ofReader readZigzag32)
    | .sint64 => mapParse .int (ofReader readZigzag64)
    | .message | .group => fun _ => .error .unknownKind

def into (merge : Message → Bytes → Outcome Message) (v : Value) (bs : Bytes) : Outcome Value :=
  match v with
  | .message m => (merge m bs).map .message
  | v => .failed .missingMember v

def embedded (nested : Nested) (isGroup : Bool) (v : Value) (bs : Bytes) : Outcome Value :=
  if isGroup then into nested.group v bs
  else reading v (ofReader readRun) (into nested.message v) bs

def newMessage (slot : Slot) : Result Value :=
  match slot.typeName? with
  | none => .error .incompleteField
  | some name => do reg.instantiate (← reg.messageClass name)

/-- Reads one value of a field. A message is merged into the current value; a new message that
cannot be read leaves nothing behind. -/
def single (nested : Nested) (slot : Slot) (current : Value) (bs : Bytes) :
    Outcome Value :=
  if slot.kind.isMessage then
    if slot.typeName?.isNone then .failed .incompleteField current
    else if current.isNull then
      match newMessage reg slot with
      | .error fault => .failed fault current
      | .ok v =>
        match embedded nested (slot.kind = .known .group) v bs with
        | .done v rest => .done v rest
        | .failed fault _ => .failed fault current
    else embedded nested (slot.kind = .known .group) current bs
  else
    match scalar reg slot bs with
    | .ok (v, rest) => .done v rest
    | .error fault => .failed fault current

/-- Reads values up to the end of a run, at most `fuel` of them: those read, and the fault that
stopped the reading. -/
def unpack (read : Parse Value) : Nat → Bytes → List Value × Option Fault
  | _, [] => ([], none)
  | 0, _ :: _ => ([], some (.malformed .unexpectedEnd))
  | fuel + 1, b :: bs =>
    match read (b :: bs) with
    | .error fault => ([], some fault)
    | .ok (v, rest) =>
      let (vs, fault?) := unpack read fuel rest
      (v :: vs, fault?)

def zero (reg : Registry) (slot : Slot) : Result Value :=
  match slot.kind with
  | .known .message | .known .group => newMessage reg slot
  | .known .string => .ok (.text "")
  | .known .bytes => .ok (.bytes [])
  | .known .bool => .ok (.bool false)
  | .known .double | .known .float => .ok (.float Double.zero)
  | _ => .ok (.int 0)

/-- Reads the members of a map entry, at most `fuel` of them; the last key and the last value
count. -/
def entry (readKey readValue : Nat → Parse Value) :
    Nat → Value → Value → Bytes → Result (Value × Value)
  | _, key, value, [] => .ok (key, value)
  | 0, _, _, _ :: _ => .error (.malformed .endInVarint)
  | fuel + 1, key, value, b :: bs => do
    let (tag, rest) ← ofReader read (b :: bs)
    let wire := tag % 8
    if tag / 8 = 1 then do
      let (key, rest) ← readKey wire rest
      entry readKey readValue fuel key value rest
    else if tag / 8 = 2 then do
      let (value, rest) ← readValue wire rest
      entry readKey readValue fuel key value rest
    else do
      let (_, rest) ← ofReader (skipValue wire) rest
      entry readKey readValue fuel key value rest

/-- A key or value of a map entry, or what stands for a missing one. -/
def orZero (slot : Slot) (v : Value) : Result Value := if v.isNull then zero reg slot else .ok v

def addEntry (current key value : Value) : Result Value :=
  (if current.isNull then .map [] else current).setPart key value

/-- Reads one entry of a map and adds it to a dictionary. -/
def readEntry (key val : Slot) (readKey readValue : Nat → Parse Value) (current : Value)
    (run : Bytes) : Result Value := do
  let e ← entry readKey readValue run.length .null .null run
  addEntry current (← orZero reg key e.1) (← orZero reg val e.2)

def outcomeParse (o : Outcome Value) : Result (Value × Bytes) :=
  match o with
  | .done v rest => .ok (v, rest)
  | .failed fault _ => .error fault

def appendTo (current : Value) (vs : List Value) : Result Value :=
  match current with
  | .null => .ok (.list vs)
  | .list items => .ok (.list (items ++ vs))
  | _ => .error (current.callFault "append")

def badWireType (slot : Slot) (wire : Nat) (expected : WireType) : Fault :=
  .malformed (.badWireType slot.tag.number wire expected.code)

/-- Why nothing can be added to a value, before anything is read. -/
def appendFault? (current : Value) : Option Fault :=
  match appendTo current [] with
  | .error .missingMember => some .missingMember
  | _ => none

/-- The outcome of adding values to a list: those that were read, and the fault that stopped the
reading. Values read before a fault stay in a list that was there before. -/
def added (current : Value) (vs : List Value) (fault? : Option Fault) : Outcome Value :=
  if vs.isEmpty then .failed (fault?.getD (.malformed .unexpectedEnd)) current
  else
    match fault?, appendTo current vs with
    | _, .error fault => .failed fault current
    | none, .ok v => .done v []
    | some fault, .ok v => .failed fault (if current.isNull then current else v)

/-- Adds the values in a run to a list. -/
def addedRun (nested : Nested) (slot : Slot) (current : Value) : Bytes → Outcome Value
  | [] => .done (if current.isNull then .list [] else current) []
  | run =>
    match appendFault? current with
    | some fault => .failed fault current
    | none =>
      let (vs, fault?) :=
        unpack (fun bs => outcomeParse (single reg nested slot .null bs)) run.length run
      added current vs fault?

def repeated (nested : Nested) (slot : Slot) (wire : Nat) (current : Value)
    (bs : Bytes) : Outcome Value :=
  if wire = WireType.bytes.code && slot.kind.isPackable then
    reading current (ofReader readRun) (addedRun reg nested slot current) bs
  else if wire ≠ slot.tag.wireType.code then
    .failed (badWireType slot wire slot.tag.wireType) current
  else
    match appendFault? current with
    | some fault => .failed fault current
    | none =>
      reading current (fun bs => outcomeParse (single reg nested slot .null bs))
        (fun v => added current [v] none) bs

def field (reg : Registry) (nested : Nested) : Field → Nat → Value → Bytes → Outcome Value
  | .map slot key val, wire, current, bs =>
    if wire ≠ WireType.bytes.code then .failed (badWireType slot wire .bytes) current
    else
      let read := readEntry reg key.slot val.slot
        (fun wire bs => outcomeParse (field reg nested key wire .null bs))
        (fun wire bs => outcomeParse (field reg nested val wire .null bs)) current
      reading current (ofReader readRun) (fun run => ofResult current (read run)) bs
  | .plain slot, wire, current, bs =>
    if slot.kind.isMap then
      if wire ≠ WireType.bytes.code then .failed (badWireType slot wire .bytes) current
      else .failed .incompleteField current
    else if slot.tag.repeated then repeated reg nested slot wire current bs
    else if wire ≠ slot.tag.wireType.code then
      .failed (badWireType slot wire slot.tag.wireType) current
    else single reg nested slot current bs

/-! ## Oneofs -/

def readSource : ReadSource → Parse Value
  | .varint => mapParse (fun n => .int n) (ofReader read)
  | .fixed64 => mapParse (fun n => .int n) (ofReader readFixed64)
  | .fixed32 => mapParse (fun n => .int n) (ofReader readFixed32)
  | .zigzag32 => mapParse .int (ofReader readZigzag32)
  | .zigzag64 => mapParse .int (ofReader readZigzag64)
  | .text => mapParse .text (ofReader readText)
  | .run => mapParse .bytes (ofReader readRun)

/-- What a conversion makes of a value; `construct` makes a value of the enum type of the member. -/
def convert (construct : Value → Result Value) (v : Value) : Conversion → Result Value
  | .keep => .ok v
  | .signed32 => do pure (.int (signed32 (← v.asInt)))
  | .signed64 => do pure (.int (signed64 (← v.asInt)))
  | .unsigned32 => do pure (.int (word32 (← v.asInt)))
  | .truth => do pure (.bool ((← v.asInt) != 0))
  | .double => do Value.ofDoubleBits (← v.asInt)
  | .single => do Value.ofSingleBits (← v.asInt)
  | .enum => do construct (.int (signed32 (← v.asInt)))

/-- Runs the step that reads a member. The type of the member is looked up before anything is
read. -/
def readStep (nested : Nested) (type : Result Binding) (bs : Bytes) :
    ReadStep → Result (Value × Bytes)
  | .scalar source .enum => do
    let type ← type
    let (v, rest) ← readSource source bs
    pure (← convert (reg.apply type) v .enum, rest)
  | .scalar source conversion => do
    let (v, rest) ← readSource source bs
    pure (← convert .ok v conversion, rest)
  | .message => do
    outcomeParse (embedded nested false (← reg.instantiate (← type)) bs)
  | .group => do
    outcomeParse (embedded nested true (← reg.instantiate (← type)) bs)

def oneofCase (nested : Nested) (c : OneofCase) (number : Int)
    (type : Result Binding) (wire : Nat) (bs : Bytes) : Result (Value × Bytes) :=
  if wire ≠ c.wireType.code then
    .error (.malformed (.badWireType number wire c.wireType.code))
  else readStep reg nested type bs c.read

def findByNumber? (number : Int) : List OneofSlot → Option (OneofSlot × VariantMember)
  | [] => none
  | group :: groups =>
    match group.members.find? (·.number == number) with
    | some member => some (group, member)
    | none => findByNumber? number groups

def wrap (member : VariantMember) (v : Value) : Result Value := do
  reg.apply (← member.variant) v

/-! ## Records -/

/-- Keeps a record that no field takes: as part of an extension, as an unknown record, or not at
all. -/
def keep (ranges : List FieldRange) (m : Message) (number : Int) (raw : Bytes) : Result Message :=
  if inRanges number ranges then
    match m.extensionStore? with
    | none => .error .missingMember
    | some store => do pure (m.withStore (← store.add number raw))
  else m.addUnknown raw

def mergeField (nested : Nested) (m : Message) (f : Field) (wire : Nat)
    (rest : Bytes) : Outcome Message :=
  match m.own? f.slot.attr with
  | none => .failed .missingMember m
  | some current => (field reg nested f wire current rest).map (m.store f.slot.attr)

def mergeMember (nested : Nested) (m : Message) (group : OneofSlot)
    (member : VariantMember) (wire : Nat) (rest : Bytes) : Outcome Message :=
  let read := do
    let (v, rest) ←
      oneofCase reg nested (OneofCase.ofKind member.kind) member.number member.type wire rest
    pure (← wrap reg member v, rest)
  match read with
  | .ok (v, rest) => .done (m.store group.attr v) rest
  | .error fault => .failed fault m

/-- What the records of a message are read by. -/
structure Layout where
  table : List Field
  codec? : Option OneofCodec
  ranges : List FieldRange

def layout (m : Message) : Result Layout :=
  match reg.messageType? m.type with
  | none => .error .missingMember
  | some t => do
    let table ← t.indexOf m
    let codec? ← t.codecOf m
    let ranges ← t.rangesOf m
    pure { table, codec?, ranges }

/-- Merges one record. `start` is the data from the key on, `rest` the data behind the key. -/
def mergeRecord (nested : Nested) (l : Layout) (m : Message) (number : Nat)
    (wire : Nat) (start rest : Bytes) : Outcome Message :=
  match fieldNumbered? number l.table with
  | some f => mergeField reg nested m f wire rest
  | none =>
    match l.codec?.bind fun codec => findByNumber? number codec.groups with
    | some (group, member) => mergeMember reg nested m group member wire rest
    | none =>
      match skipValue wire rest with
      | .error e _ => .failed (.malformed e) m
      | .ok _ rest' =>
        match keep l.ranges m number (start.take (start.length - rest'.length)) with
        | .ok m => .done m rest'
        | .error fault => .failed fault m

def mergeSet (m : Message) (bs : Bytes) : Outcome Message :=
  match m.extensionStore? with
  | none => .failed .missingMember m
  | some store =>
    let (store, fault?) := MessageSet.decodeStore store bs
    match fault? with
    | none => .done (m.withStore store) []
    | some fault => .failed fault (m.withStore store)

/-- Takes the end of a group from the front of some data, or a record, behind which `next` goes on. -/
def step (nested : Nested) (next : Message → Bytes → Outcome Message) (inGroup : Bool) (l : Layout)
    (m : Message) (bs : Bytes) : Outcome Message :=
  match read bs with
  | .error e _ => .failed (.malformed e) m
  | .ok tag rest =>
    let number := tag / 8
    let wire := tag % 8
    if wire = WireType.endGroup.code then
      if inGroup then .done m rest else .failed (.malformed .unexpectedEndGroup) m
    else if number = 0 then .failed (.malformed (.illegalTag number)) m
    else
      match mergeRecord reg nested l m number wire bs rest with
      | .done m rest => next m rest
      | .failed fault m => .failed fault m

end Decode

open Decode in
/-- Merges records into a message of a layout, at most `fuel` of them: up to the end of the data,
or up to the end of the group. -/
def mergeRecords (reg : Registry) : Nat → Bool → Layout → Message → Bytes → Outcome Message
  | _, inGroup, _, m, [] => if inGroup then .failed (.malformed .endInGroup) m else .done m []
  | 0, _, _, m, _ :: _ => .failed (.malformed .endInVarint) m
  | fuel + 1, inGroup, l, m, b :: bs =>
    let records (inGroup : Bool) (m : Message) (bs : Bytes) : Outcome Message :=
      match layout reg m with
      | .error fault => .failed fault m
      | .ok l => mergeRecords reg fuel inGroup l m bs
    let nested : Nested :=
      { message := fun m bs =>
          if ((reg.messageType? m.type).map (·.isMessageSet)).getD false then mergeSet m bs
          else records false m bs
        group := records true }
    step reg nested (mergeRecords reg fuel inGroup l) inGroup l m (b :: bs)

def mergeFrom (reg : Registry) (fuel : Nat) (inGroup : Bool) (m : Message) (bs : Bytes) :
    Outcome Message :=
  match Decode.layout reg m with
  | .error fault => .failed fault m
  | .ok l => mergeRecords reg fuel inGroup l m bs

def merge (reg : Registry) (m : Message) (bs : Bytes) : Outcome Message :=
  if ((reg.messageType? m.type).map (·.isMessageSet)).getD false then Decode.mergeSet m bs
  else mergeFrom reg bs.length false m bs

def decode (reg : Registry) (type : ClassId) (bs : Bytes) : Result (Outcome Message) := do
  let m ← reg.fresh type
  pure (merge reg m bs)

/-- The readers for messages in data of at most `fuel` bytes. -/
def Decode.nestedReaders (reg : Registry) (fuel : Nat) : Decode.Nested where
  message := merge reg
  group := mergeFrom reg fuel true

end Protobind

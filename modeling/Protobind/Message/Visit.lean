import Protobind.Message.ExtensionAccess
import Protobind.Message.Text

/-!
# Tables that reading settles

The first message of a class that data is read into settles the table that all its messages are read
by from then on, also when it stands inside others.
-/

namespace Protobind

/-- A class, and the table that it is read by. -/
abbrev Visit := ClassId × List Field

namespace Visit

/-- Messages in a message, each with the data that is read into it. -/
abbrev Inner := List (Value × Bool × Bytes)

variable (reg : Registry)

def ofSlot (slot : Slot) (current : Value) (wire : Nat) (bs : Bytes) : Inner :=
  if !slot.kind.isMessage || wire ≠ slot.tag.wireType.code then []
  else
    let isGroup := decide (slot.kind = .known .group)
    let target? := if current.isNull || slot.tag.repeated then (Decode.newMessage reg slot).toOption
      else some current
    match target?, isGroup, readRun bs with
    | some target, true, _ => [(target, true, bs)]
    | some target, false, .ok payload _ => [(target, false, payload)]
    | _, _, _ => []

def ofEntry (value : Slot) : Nat → Bytes → Inner
  | 0, _ => []
  | fuel + 1, bs =>
    match Varint.read bs with
    | .error .. => []
    | .ok tag rest =>
      let inner := if tag / 8 = 2 then ofSlot reg value .null (tag % 8) rest else []
      match skipValue ((tag % 8 : Nat) : Int) rest with
      | .ok _ rest => inner ++ ofEntry value fuel rest
      | .error .. => inner

def ofField (f : Field) (current : Value) (wire : Nat) (bs : Bytes) : Inner :=
  match f with
  | .plain slot => ofSlot reg slot current wire bs
  | .map _ _ value =>
    match readRun bs with
    | .ok run _ => if wire = WireType.bytes.code then ofEntry reg value.slot run.length run else []
    | .error .. => []

def ofMember (member : VariantMember) (wire : Nat) (bs : Bytes) : Inner :=
  let c := OneofCase.ofKind member.kind
  if wire ≠ c.wireType.code then []
  else
    match member.type with
    | .error _ => []
    | .ok type =>
      match reg.instantiate type, c.read, readRun bs with
      | .ok target, .group, _ => [(target, true, bs)]
      | .ok target, .message, .ok payload _ => [(target, false, payload)]
      | _, _, _ => []

def ofRecord (l : Decode.Layout) (m : Message) (number wire : Nat) (bs : Bytes) : Inner :=
  match fieldNumbered? number l.table with
  | some f =>
    match m.own? f.slot.attr with
    | some current => ofField reg f current wire bs
    | none => []
  | none =>
    match l.codec?.bind fun codec => Decode.findByNumber? number codec.groups with
    | some (_, member) => ofMember reg member wire bs
    | none => []

def ofMessage : Nat → Bool → Message → Bytes → List Visit
  | 0, _, _, _ => []
  | fuel + 1, inGroup, m, bs =>
    if !inGroup && ((reg.messageType? m.type).map (·.isMessageSet)).getD false then []
    else
      match Decode.layout reg m with
      | .error _ =>
        match reg.messageType? m.type with
        | some t => ((t.indexOf m).toOption.map fun table => (m.type, table)).toList
        | none => []
      | .ok l => (m.type, l.table) :: records fuel l m bs
where
  records : Nat → Decode.Layout → Message → Bytes → List Visit
    | 0, _, _, _ => []
    | _, _, _, [] => []
    | fuel + 1, l, m, b :: bs =>
      match Varint.read (b :: bs) with
      | .error .. => []
      | .ok tag rest =>
        let number := tag / 8
        let wire := tag % 8
        if wire = WireType.endGroup.code || number = 0 then []
        else
          let inner := (ofRecord reg l m number wire rest).flatMap fun (v, inGroup, data) =>
            match v with
            | .message m => ofMessage fuel inGroup m data
            | _ => []
          let nested := Decode.nestedReaders reg (b :: bs).length
          match Decode.mergeRecord reg nested l m number wire (b :: bs) rest with
          | .done m rest => inner ++ records fuel l m rest
          | .failed .. => inner

def ofData (inGroup : Bool) (v : Value) (bs : Bytes) : List Visit :=
  match v with
  | .message m => ofMessage reg (2 * bs.length + 2) inGroup m bs
  | _ => []

def ofExtension (f : Field) : Nat → Bytes → List Visit
  | 0, _ => []
  | fuel + 1, bs =>
    match Varint.read bs with
    | .error .. => []
    | .ok tag rest =>
      let inner := (ofField reg f .null (tag % 8) rest).flatMap fun (v, inGroup, data) =>
        ofData reg inGroup v data
      match skipValue ((tag % 8 : Nat) : Int) rest with
      | .ok _ rest => inner ++ ofExtension f fuel rest
      | .error .. => inner

def ofSet (m : Message) : List Visit :=
  match (reg.messageType? m.type).map (·.isMessageSet), m.extensions? with
  | some true, some extensions =>
    (sortByNumber extensions).flatMap fun (number, raw) =>
      match reg.messageSetTypes.get? number, Varint.read raw with
      | some (type, _), .ok _ rest =>
        match reg.instantiate type, readRun rest with
        | .ok v, .ok data _ => ofData reg false v data
        | _, _ => []
      | _, _ => []
  | _, _ => []

end Visit

namespace Registry

def settled (reg : Registry) : List Visit → Registry
  | [] => reg
  | (id, table) :: rest =>
    match reg.messageType? id with
    | some t =>
      if t.index?.isSome then settled reg rest
      else settled (reg.replaceClass id (.message { t with index? := some table })) rest
    | none => settled reg rest

def afterMerge (reg : Registry) (m : Message) (bs : Bytes) : Registry :=
  reg.settled (Visit.ofData reg false (.message m) bs)

def afterExtension (reg : Registry) (v : Value) (ext : Extension) : Registry :=
  match reg.checkExtendable v ext, v.extensionStore?, ext.field with
  | .ok _, some store, .ok f =>
    match store.get? ext.number with
    | .ok (some (.bytes raw)) => reg.settled (Visit.ofExtension reg f raw.length raw)
    | _ => reg
  | _, _, _ => reg

def afterText (reg : Registry) (v : Value) : Registry :=
  match v with
  | .message m => reg.settled (Visit.ofSet reg m)
  | _ => reg

end Registry

end Protobind

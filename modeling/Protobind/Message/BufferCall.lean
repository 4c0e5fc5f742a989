import Protobind.Message.Text

/-!
# Calls on buffers

The operations of a buffer take arguments of any type, and notice only when they use one that it is
of the wrong type. What was done before stays done.
-/

namespace Protobind.Buffer

/-- An operation that reads. -/
inductive Query where
  | varint
  | fixed64
  | fixed32
  | zigzag32
  | zigzag64
  | run
  | text
  | contents
  | position
  | atEnd
  deriving DecidableEq

/-- An operation that takes an argument. -/
inductive Action where
  | writeVarint
  | writeFixed64
  | writeFixed32
  | writeZigzag32
  | writeZigzag64
  | writeRun
  | writeText
  | writeBytes
  | writeMessage
  | writeFields
  | take
  | skip
  | readMessage
  | readGroup
  deriving DecidableEq

/-- An operation of a buffer. -/
inductive Operation where
  | query (q : Query)
  | action (a : Action)
  /-- Starts anew with the bytes that something is converted to, or with none. -/
  | restart
  | data
  deriving DecidableEq

def actions : List (String × Action) :=
  [("encode_varint", .writeVarint), ("encode_fixed64", .writeFixed64),
   ("encode_fixed32", .writeFixed32), ("encode_zigzag32", .writeZigzag32),
   ("encode_zigzag64", .writeZigzag64), ("encode_raw_bytes", .writeRun),
   ("encode_string_bytes", .writeText), ("encode_message", .writeMessage),
   ("marshal", .writeFields), ("write", .writeBytes), ("_take", .take), ("skip_field", .skip),
   ("decode_message", .readMessage), ("decode_group", .readGroup)]

def queries : List (String × Query) :=
  [("decode_varint", .varint), ("decode_fixed64", .fixed64), ("decode_fixed32", .fixed32),
   ("decode_zigzag32", .zigzag32), ("decode_zigzag64", .zigzag64), ("decode_raw_bytes", .run),
   ("decode_string_bytes", .text), ("bytes", .contents), ("index", .position), ("eof", .atEnd)]

def Operation.named? (name : String) : Option Operation :=
  match name with
  | "__init__" => some .restart
  | "_data" | "_index" => some .data
  | _ => ((actions.lookup name).map .action).or ((queries.lookup name).map .query)

/-- What a call answers with, and what it leaves. -/
abbrev Called := Result Value × Buffer

variable (b : Buffer)

def readValue {α : Type} (reader : Reader α) (f : α → Value) : Called :=
  match b.read reader with
  | (.ok a, b) => (.ok (f a), b)
  | (.error e, b) => (.error (.malformed e), b)

def writeValue (bs : Result Bytes) : Called :=
  match bs with
  | .ok bs => (.ok .null, b.append bs)
  | .error fault => (.error fault, b)

def answer : Query → Called
  | .varint => b.readValue Varint.read fun n => .int n
  | .fixed64 => b.readValue readFixed64 fun n => .int n
  | .fixed32 => b.readValue readFixed32 fun n => .int n
  | .zigzag32 => b.readValue readZigzag32 .int
  | .zigzag64 => b.readValue readZigzag64 .int
  | .run => b.readValue readRun .bytes
  | .text => b.readValue readText .text
  | .contents => (.ok (.bytes b.data), b)
  | .position => (.ok (.int b.cursor), b)
  | .atEnd => (.ok (.bool b.atEnd), b)

def countOf? (d : Double) : Option Nat :=
  if d.isNaN then some 0
  else if d.isInfinite || (d.isNegative && !d.isZero) then none
  else some ((d.ratio.1 + d.ratio.2 - 1) / d.ratio.2)

/-- Reads a number of bytes. A number that is no integer is compared with the bytes that are left
before it is found to be no integer. -/
def takeValue (v : Value) : Called :=
  let outOfReach (count? : Option Nat) : Bool :=
    match count? with
    | some count => decide (b.data.length < b.cursor + count)
    | none => true
  match v with
  | .float d =>
    (.error (if outOfReach (countOf? d) then .malformed .unexpectedEnd else .wrongType), b)
  | .nan => (.error .wrongType, b)
  | _ =>
    match v.asInt with
    | .error fault => (.error fault, b)
    | .ok n =>
      if n < 0 then (.error (.malformed .unexpectedEnd), b)
      else b.readValue (takeBytes n.toNat) .bytes

def wireTypeOf? (v : Value) : Option Nat :=
  [0, 1, 2, 3, 5].find? fun (wire : Nat) => Value.sameKey (.int wire) v

def skipValueOf (v : Value) : Called :=
  match wireTypeOf? v with
  | some wire =>
    b.readValue (skipValue wire) fun _ => .null
  | none =>
    match displayText {} v with
    | .ok text => (.error (.noWireType text), b)
    | .error fault => (.error fault, b)

def act (v : Value) : Action → Called
  | .writeVarint => b.writeValue do pure (Varint.write (← v.asInt))
  | .writeFixed64 => b.writeValue do pure (writeFixed64 (← v.asInt))
  | .writeFixed32 => b.writeValue do pure (writeFixed32 (← v.asInt))
  | .writeZigzag32 => b.writeValue do pure (writeZigzag32 (← v.asInt))
  | .writeZigzag64 => b.writeValue do pure (writeZigzag64 (← v.asInt))
  | .writeRun =>
    match v.length, v.asBytes with
    | .ok _, .ok bs => (.ok .null, b.append (writeRun bs))
    | .ok length, .error fault => (.error fault, b.append (Varint.write length))
    | .error fault, _ => (.error fault, b)
  | .writeText => b.writeValue do pure (writeText (← v.asText))
  | .writeBytes => b.writeValue v.asBytes
  | .writeMessage | .writeFields =>
    (.error (if v.isNull then .unencodable .noMessage else .missingMember), b)
  | .take => b.takeValue v
  | .skip => b.skipValueOf v
  | .readMessage =>
    match b.read readRun with
    | (.ok _, b) => (.error .missingMember, b)
    | (.error e, b) => (.error (.malformed e), b)
  | .readGroup => (.error .missingMember, b)

def call (op : Operation) (args : List Value) : Called :=
  match op, args with
  | .query q, [] => b.answer q
  | .action a, [v] => b.act v a
  | .restart, [] => (.ok .null, {})
  | .restart, [v] =>
    match v.toBytes with
    | .ok data => (.ok .null, { data })
    | .error fault => (.error fault, b)
  | _, _ => (.error .wrongType, b)

end Protobind.Buffer

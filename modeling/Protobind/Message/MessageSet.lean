import Protobind.Message.ExtensionStore

/-!
# The message set format

A message set is a sequence of items, groups that hold a type id and a message. An item stands for
the extension with that number, whose raw record is a length-delimited one.
-/

namespace Protobind.MessageSet

def item : Int := 1

def typeId : Int := 2

def payload : Int := 3

/-- Reads the first record of an extension, whose number is given as text, and gives its payload, if
it is length-delimited. -/
def readMember (number : String) (raw : Bytes) : Result Bytes :=
  match Varint.read raw with
  | .error e _ => .error (.malformed e)
  | .ok key rest =>
    if key % 8 ≠ WireType.bytes.code then .error (.unencodable (.memberNoMessage number))
    else
      match readRun rest with
      | .error e _ => .error (.malformed e)
      | .ok data _ => .ok data

def writeItem (number : Int) (data : Bytes) : Bytes :=
  writeKey item .startGroup ++ writeKey typeId .varint ++ Varint.write number ++
    writeKey payload .bytes ++ writeRun data ++ writeKey item .endGroup

def writeItems : List (Int × Bytes) → Result Bytes
  | [] => .ok []
  | (number, raw) :: rest => do
    let data ← readMember (toString number) raw
    let more ← writeItems rest
    pure (writeItem number data ++ more)

def writePart (v key : Value) : Result Bytes := do
  let name := match key with
    | .text s => s
    | _ => key.leafSource
  let data ← readMember name (← (← v.part key).toBytes)
  pure (writeItem (← key.asInt) data)

variable (extensions : Dictionary Int Bytes)

def encode : Result Bytes :=
  writeItems (sortByNumber extensions)

def encodeStore : ExtensionStore → Result Bytes
  | .records extensions => encode extensions
  | .other v => do pure (← (← Value.sorted (← v.items)).mapM (writePart v)).flatten

def rawRecord (number : Int) (data : Bytes) : Bytes := writeKey number .bytes ++ writeRun data

/-- Reads the members of an item up to its end, at most `fuel` of them: the type id and the
message, the last of each. -/
def readItem : Nat → Option Nat → Option Bytes → Reader (Option Nat × Option Bytes)
  | 0, _, _ => throw .endInVarint
  | fuel + 1, id?, data? => do
    let key ← Varint.read
    if key = recordKey item .endGroup then pure (id?, data?)
    else if key = recordKey typeId .varint then do
      let id ← Varint.read
      readItem fuel (some id) data?
    else if key = recordKey payload .bytes then do
      let data ← readRun
      readItem fuel id? (some data)
    else do
      skipValue (key % 8 : Nat)
      readItem fuel id? data?

def readEntry : Reader (Dictionary Int Bytes) := do
  let key ← Varint.read
  if key = recordKey item .startGroup then do
    let fuel := (← get).length
    match ← readItem fuel none none with
    | (some id, some data) => pure (extensions.set (id : Int) (rawRecord id data))
    | _ => throw .incompleteItem
  else do
    skipValue (key % 8 : Nat)
    pure extensions

/-- Reads the entries of a message set, at most `fuel` of them. The extensions read before a fault
are kept. -/
def decodeEntries : Nat → Dictionary Int Bytes → Bytes →
    Dictionary Int Bytes × Option DecodeError
  | _, extensions, [] => (extensions, none)
  | 0, extensions, _ :: _ => (extensions, some .endInVarint)
  | fuel + 1, extensions, b :: bs =>
    match readEntry extensions (b :: bs) with
    | .ok extensions rest => decodeEntries fuel extensions rest
    | .error e _ => (extensions, some e)

/-- Reads a message set into raw extensions. Every entry has a key of at least one byte, so the
number of bytes bounds the number of entries. -/
def decode (bs : Bytes) :
    Dictionary Int Bytes × Option DecodeError :=
  decodeEntries bs.length extensions bs

def decodeStore (store : ExtensionStore) (bs : Bytes) : ExtensionStore × Option Fault :=
  match store with
  | .records extensions =>
    let (extensions, error?) := decode extensions bs
    (.records extensions, error?.map .malformed)
  | .other _ =>
    let (items, error?) := decode [] bs
    let (store, fault?) := store.setAll items
    (store, fault?.or (error?.map .malformed))

end Protobind.MessageSet

import Protobind.Message.Decode

/-!
# Extensions

Setting an extension encodes a value into raw records; getting it decodes all that are there.
-/

namespace Protobind

/-- The table entry of an extension. It is read from the tag when a value is encoded or decoded. -/
def Extension.field (ext : Extension) : Result Field :=
  match Tag.parse "value" ext.tag with
  | .ok tag => .ok (.plain { attr := "value", kind := ext.kind, tag, typeName? := ext.typeName? })
  | .error e => .error (.badTag e)

def Registry.rangesOf (reg : Registry) : Value → Result (List FieldRange)
  | .message m =>
    match reg.messageType? m.type with
    | some t => t.rangesOf m
    | none => .ok []
  | _ => .ok []

/-- Checks that a value can have an extension: it is of the extended type, and the number of the
extension lies in its ranges. -/
def Registry.checkExtendable (reg : Registry) (v : Value) (ext : Extension) : Result Unit := do
  if (Registry.classOf? v).map reg.canonical ≠ some (reg.canonical ext.extended) then
    throw (.usage (.badExtendedType (reg.className ext.extended) (reg.typeName v)))
  else if !inRanges ext.number (← reg.rangesOf v) then
    throw (.usage (.badExtensionNumber ext.number))

def Value.extensionStore? : Value → Option ExtensionStore
  | .message m => m.extensionStore?
  | _ => none

def hasExtension (v : Value) (ext : Extension) : Result Bool :=
  match v.extensionStore? with
  | some store => store.contains ext.number
  | none => .ok false

def clearExtension (v : Value) (ext : Extension) : Result Value :=
  match v with
  | .message m =>
    match m.extensionStore? with
    | some store => do pure (.message (m.withStore (← store.erase ext.number)))
    | none => .ok v
  | _ => .ok v

def readRecords (reg : Registry) (nested : Decode.Nested) (f : Field) :
    Nat → Value → Bytes → Result Value
  | _, current, [] => .ok current
  | 0, _, _ :: _ => .error (.malformed .endInVarint)
  | fuel + 1, current, b :: bs => do
    let (key, rest) ← Decode.ofReader Varint.read (b :: bs)
    let (v, rest) ← Decode.outcomeParse (Decode.field reg nested f (key % 8) current rest)
    readRecords reg nested f fuel v rest

def getExtension (reg : Registry) (v : Value) (ext : Extension) : Result Value := do
  reg.checkExtendable v ext
  match v.extensionStore? with
  | none => .error .missingMember
  | some store =>
    match ← store.get? ext.number with
    | none => pure .null
    | some raw => do
      let f ← ext.field
      let raw ← raw.toBytes
      readRecords reg (Decode.nestedReaders reg raw.length) f raw.length .null raw

def setExtension (reg : Registry) (target : Value) (ext : Extension) (v : Value) :
    Result Value := do
  reg.checkExtendable target ext
  if v.isNull then .error (.usage .nullExtension)
  else do
    let raw ← Encode.field (encodeMessage reg v.weight) (← ext.field) true v
    match target with
    | .message m =>
      match m.extensionStore? with
      | none => .error .missingMember
      | some store => do pure (.message (m.withStore (← store.set ext.number raw)))
    | _ => .error .missingMember

end Protobind

import Protobind.Wire.Reader

/-!
# Records

A record is a key and a value. The key holds the field number and the wire type, which is enough to
find the end of the value.
-/

namespace Protobind

/-- How the end of a value is found. -/
inductive WireType where
  | varint
  | fixed64
  | bytes
  | startGroup
  | endGroup
  | fixed32
  deriving DecidableEq

def WireType.code : WireType → Nat
  | .varint => 0
  | .fixed64 => 1
  | .bytes => 2
  | .startGroup => 3
  | .endGroup => 4
  | .fixed32 => 5

def recordKey (number : Int) (wire : WireType) : Int := number * 8 + wire.code

def writeKey (number : Int) (wire : WireType) : Bytes := Varint.write (recordKey number wire)

/-- Skips a value of the wire type with the given code; `group` skips the rest of a group. -/
def skipValueWith (group : Reader Unit) (wire : Int) : Reader Unit :=
  if wire = WireType.varint.code then Varint.read *> pure ()
  else if wire = WireType.fixed64.code then takeBytes 8 *> pure ()
  else if wire = WireType.bytes.code then readRun *> pure ()
  else if wire = WireType.fixed32.code then takeBytes 4 *> pure ()
  else if wire = WireType.startGroup.code then group
  else throw (.illegalWireType wire)

/-- Skips records up to the key that ends the current group, at most `fuel` of them, those inside
nested groups included. -/
def skipGroup : Nat → Reader Unit
  | 0 => throw .endInVarint
  | fuel + 1 => do
    let key ← Varint.read
    if key % 8 = WireType.endGroup.code then pure ()
    else
      skipValueWith (skipGroup fuel) (key % 8 : Nat)
      skipGroup fuel

/-- Skips the value of a record whose key was just read. Every record has a key of at least one
byte, so the number of bytes left bounds the number of records in a group. -/
def skipValue (wire : Int) : Reader Unit := fun bs =>
  skipValueWith (skipGroup bs.length) wire bs

end Protobind

import Protobind.Wire.Bytes

/-!
# Gzip members

Data as a gzip member of stored blocks, with a checksum and its length at the end.
-/

namespace Protobind.Gzip

def shiftBits : Nat → UInt32 → UInt32
  | 0, c => c
  | n + 1, c => shiftBits n (if c &&& 1 = 1 then (c >>> 1) ^^^ 0xEDB88320 else c >>> 1)

def addByte (c : UInt32) (b : UInt8) : UInt32 := shiftBits 8 (c ^^^ b.toUInt32)

def checksum (data : Bytes) : UInt32 := data.foldl addByte 0xFFFFFFFF ^^^ 0xFFFFFFFF

def blockSize : Nat := 65535

def block (last : Bool) (data : Bytes) : Bytes :=
  (if last then 1 else 0) :: Bytes.ofNatLE 2 data.length ++
    Bytes.ofNatLE 2 (blockSize - data.length) ++ data

def blocks : Nat → Bytes → Bytes
  | 0, data => block true data
  | fuel + 1, data =>
    if data.length ≤ blockSize then block true data
    else block false (data.take blockSize) ++ blocks fuel (data.drop blockSize)

/-- The start of a member: the format, the method, no time, and no name. -/
def head : Bytes := [0x1F, 0x8B, 8, 0, 0, 0, 0, 0, 0, 255]

def member (data : Bytes) : Bytes :=
  head ++ blocks (data.length / blockSize) data ++ Bytes.ofNatLE 4 (checksum data).toNat ++
    Bytes.ofNatLE 4 data.length

end Protobind.Gzip

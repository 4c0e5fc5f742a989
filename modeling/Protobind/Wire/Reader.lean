import Protobind.Wire.Bytes
import Protobind.Wire.Integer

/-!
# Reading and writing the primitive encodings

A reader consumes bytes from the front of its input. A reader that fails keeps the bytes it had
consumed when it noticed the fault, so the state after a failure tells how far it came.

A varint holds a number in groups of seven bits, lowest group first, every byte but the last with
its top bit set. It has at most ten bytes; bits above the 64th are dropped.
-/

namespace Protobind

/-- Why data cannot be read. -/
inductive DecodeError where
  | unexpectedEnd
  | endInVarint
  | varintOverflow
  | invalidText
  | illegalWireType (wire : Int)
  | unexpectedEndGroup
  | illegalTag (number : Nat)
  | endInGroup
  | badWireType (number : Int) (wire expected : Nat)
  | incompleteItem
  deriving DecidableEq

def DecodeError.message : DecodeError → String
  | .unexpectedEnd => "proto: unexpected EOF"
  | .endInVarint => "proto: unexpected EOF in varint"
  | .varintOverflow => "proto: integer overflow in varint"
  | .invalidText => "proto: invalid UTF-8 string"
  | .illegalWireType wire => s!"proto: illegal wire type {wire}"
  | .unexpectedEndGroup => "proto: unexpected end group"
  | .illegalTag number => s!"proto: illegal tag {number}"
  | .endInGroup => "proto: unexpected EOF in group"
  | .badWireType number wire expected =>
    s!"proto: bad wiretype for field {number}: got wiretype {wire}, want {expected}"
  | .incompleteItem => "proto: incomplete message set item"

/-- Reads something from the front of some data. -/
abbrev Reader := EStateM DecodeError Bytes

/-! ## Varints -/

namespace Varint

def maxBytes : Nat := 10

/-- Writes the groups of `n`, at most `more` of them before the last. -/
def writeGroups : Nat → Nat → Bytes
  | 0, n => [UInt8.ofNat n]
  | more + 1, n =>
    if n < 128 then [UInt8.ofNat n]
    else UInt8.ofNat (n % 128 + 128) :: writeGroups more (n / 128)

def write (n : Int) : Bytes := writeGroups (maxBytes - 1) (word64 n)

/-- The number of groups of `n`, when at most `more` come before the last. -/
def countGroups : Nat → Nat → Nat
  | 0, _ => 1
  | more + 1, n => if n < 128 then 1 else countGroups more (n / 128) + 1

/-- The number of bytes that `write` produces. -/
def size (n : Int) : Nat := countGroups (maxBytes - 1) (word64 n)

/-- Reads at most `most` groups and joins them. -/
def readGroups : Nat → Reader Nat
  | 0 => fun bs => .error .varintOverflow bs
  | most + 1 => fun
    | [] => .error .endInVarint []
    | b :: bs =>
      if b < 128 then .ok b.toNat bs
      else
        match readGroups most bs with
        | .ok high rest => .ok (b.toNat - 128 + 128 * high) rest
        | .error e rest => .error e rest

/-- Reads a varint; the value is below `2 ^ 64`. -/
def read : Reader Nat := fun bs =>
  match readGroups maxBytes bs with
  | .ok n rest => .ok (n % 18446744073709551616) rest
  | .error e rest => .error e rest

theorem length_writeGroups (more n : Nat) : (writeGroups more n).length = countGroups more n := by
  induction more generalizing n with
  | zero => rfl
  | succ more ih => unfold writeGroups countGroups; split <;> simp [ih]

/-- `size` is the length of what `write` produces. -/
@[simp]
theorem length_write (n : Int) : (write n).length = size n := length_writeGroups _ _

end Varint

/-! ## Words and runs of bytes -/

/-- Takes the next `count` bytes, or none of them when fewer are left. -/
def takeBytes (count : Nat) : Reader Bytes := fun bs =>
  if count ≤ bs.length then .ok (bs.take count) (bs.drop count) else .error .unexpectedEnd bs

def writeFixed64 (n : Int) : Bytes := Bytes.ofNatLE 8 (word64 n)

def writeFixed32 (n : Int) : Bytes := Bytes.ofNatLE 4 (word32 n)

def writeZigzag32 (n : Int) : Bytes := Varint.write (zigzag32 n)

def writeZigzag64 (n : Int) : Bytes := Varint.write (zigzag64 n)

def writeRun (data : Bytes) : Bytes := Varint.write data.length ++ data

def writeText (s : String) : Bytes := writeRun (Bytes.ofText s)

def readFixed64 : Reader Nat := Bytes.toNatLE <$> takeBytes 8

def readFixed32 : Reader Nat := Bytes.toNatLE <$> takeBytes 4

def readZigzag32 : Reader Int := (fun w => unzigzag (w % 4294967296)) <$> Varint.read

def readZigzag64 : Reader Int := unzigzag <$> Varint.read

def readRun : Reader Bytes := Varint.read >>= takeBytes

def readText : Reader String := do
  match Bytes.toText? (← readRun) with
  | some s => pure s
  | none => throw .invalidText

end Protobind

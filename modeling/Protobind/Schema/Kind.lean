import Protobind.Wire.Record

/-!
# Kinds of fields

What the type of a field means for the encoding and for the generated modules.
-/

namespace Protobind

/-- How values of a kind are encoded. -/
inductive Encoding where
  | varint
  | zigzag32
  | zigzag64
  | fixed64
  | fixed32
  | bytes
  | group
  deriving DecidableEq

namespace Encoding

def name : Encoding → String
  | .varint => "varint"
  | .zigzag32 => "zigzag32"
  | .zigzag64 => "zigzag64"
  | .fixed64 => "fixed64"
  | .fixed32 => "fixed32"
  | .bytes => "bytes"
  | .group => "group"

def all : List Encoding := [.varint, .zigzag32, .zigzag64, .fixed64, .fixed32, .bytes, .group]

def ofName? (s : String) : Option Encoding := all.find? (·.name == s)

def wireType : Encoding → WireType
  | .varint | .zigzag32 | .zigzag64 => .varint
  | .fixed64 => .fixed64
  | .fixed32 => .fixed32
  | .bytes => .bytes
  | .group => .startGroup

theorem ofName?_name (e : Encoding) : ofName? e.name = some e := by
  cases e <;> decide

end Encoding

/-- The type of a field. -/
inductive Kind where
  | double
  | float
  | int64
  | uint64
  | int32
  | fixed64
  | fixed32
  | bool
  | string
  | group
  | message
  | bytes
  | uint32
  | enum
  | sfixed32
  | sfixed64
  | sint32
  | sint64
  deriving DecidableEq

namespace Kind

def all : List Kind :=
  [.double, .float, .int64, .uint64, .int32, .fixed64, .fixed32, .bool, .string, .group, .message,
   .bytes, .uint32, .enum, .sfixed32, .sfixed64, .sint32, .sint64]

def name : Kind → String
  | .double => "double"
  | .float => "float"
  | .int64 => "int64"
  | .uint64 => "uint64"
  | .int32 => "int32"
  | .fixed64 => "fixed64"
  | .fixed32 => "fixed32"
  | .bool => "bool"
  | .string => "string"
  | .group => "group"
  | .message => "message"
  | .bytes => "bytes"
  | .uint32 => "uint32"
  | .enum => "enum"
  | .sfixed32 => "sfixed32"
  | .sfixed64 => "sfixed64"
  | .sint32 => "sint32"
  | .sint64 => "sint64"

def ofName? (s : String) : Option Kind := all.find? (·.name == s)

def ofNumber? (n : Int) : Option Kind := if 1 ≤ n then all[n.toNat - 1]? else none

def number (k : Kind) : Nat := all.idxOf k + 1

def encoding : Kind → Encoding
  | .double | .fixed64 | .sfixed64 => .fixed64
  | .float | .fixed32 | .sfixed32 => .fixed32
  | .int64 | .uint64 | .int32 | .uint32 | .bool | .enum => .varint
  | .string | .bytes | .message => .bytes
  | .group => .group
  | .sint32 => .zigzag32
  | .sint64 => .zigzag64

def isNumeric : Kind → Bool
  | .string | .bytes | .message | .group => false
  | _ => true

def isMessage : Kind → Bool
  | .message | .group => true
  | _ => false

def valueType? : Kind → Option String
  | .double | .float => some "float"
  | .bool => some "bool"
  | .string => some "str"
  | .bytes => some "bytes"
  | .message | .group | .enum => none
  | _ => some "int"

/-- The value of a field that was never set, as an expression of the generated module. -/
def zeroSource : Kind → String
  | .double | .float => "0.0"
  | .bool => "False"
  | .string => "''"
  | .bytes => "b''"
  | .message | .group => "None"
  | _ => "0"

end Kind

end Protobind

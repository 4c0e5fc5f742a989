import Protobind.Schema.Kind

/-!
# Code for oneof members

The functions generated for a oneof write, measure and read the member that is set. Their code for a
member is a sequence of steps that depends on its kind only.
-/

namespace Protobind

/-- What a step writes: the value that the member holds, possibly converted. -/
inductive Operand where
  | held
  | doubleBits
  | singleBits
  | truth
  deriving DecidableEq

/-- A step of writing a member. -/
inductive WriteStep where
  | varint (operand : Operand)
  | fixed64 (operand : Operand)
  | fixed32 (operand : Operand)
  | zigzag32
  | zigzag64
  | text
  | run
  | message
  | fields
  | endKey
  deriving DecidableEq

/-- A step of measuring a member. -/
inductive SizeStep where
  | bytes (count : Nat)
  | varint
  | zigzag32
  | zigzag64
  | text
  | run
  | message
  | fields
  | endKey
  deriving DecidableEq

/-- What is read for a member. -/
inductive ReadSource where
  | varint
  | fixed64
  | fixed32
  | zigzag32
  | zigzag64
  | text
  | run
  deriving DecidableEq

/-- What becomes of a number that was read. -/
inductive Conversion where
  | keep
  | signed32
  | signed64
  | unsigned32
  | truth
  | double
  | single
  | enum
  deriving DecidableEq

/-- The step that reads a member. -/
inductive ReadStep where
  | scalar (source : ReadSource) (conversion : Conversion)
  | message
  | group
  deriving DecidableEq

/-- The code for a member. -/
structure OneofCase where
  wireType : WireType
  write : List WriteStep
  size : List SizeStep
  read : ReadStep
  deriving DecidableEq

def OneofCase.ofKind : Kind → OneofCase
  | .double => ⟨.fixed64, [.fixed64 .doubleBits], [.bytes 8], .scalar .fixed64 .double⟩
  | .float => ⟨.fixed32, [.fixed32 .singleBits], [.bytes 4], .scalar .fixed32 .single⟩
  | .int64 => ⟨.varint, [.varint .held], [.varint], .scalar .varint .signed64⟩
  | .uint64 => ⟨.varint, [.varint .held], [.varint], .scalar .varint .keep⟩
  | .int32 => ⟨.varint, [.varint .held], [.varint], .scalar .varint .signed32⟩
  | .uint32 => ⟨.varint, [.varint .held], [.varint], .scalar .varint .unsigned32⟩
  | .enum => ⟨.varint, [.varint .held], [.varint], .scalar .varint .enum⟩
  | .bool => ⟨.varint, [.varint .truth], [.bytes 1], .scalar .varint .truth⟩
  | .fixed64 => ⟨.fixed64, [.fixed64 .held], [.bytes 8], .scalar .fixed64 .keep⟩
  | .sfixed64 => ⟨.fixed64, [.fixed64 .held], [.bytes 8], .scalar .fixed64 .signed64⟩
  | .fixed32 => ⟨.fixed32, [.fixed32 .held], [.bytes 4], .scalar .fixed32 .keep⟩
  | .sfixed32 => ⟨.fixed32, [.fixed32 .held], [.bytes 4], .scalar .fixed32 .signed32⟩
  | .sint32 => ⟨.varint, [.zigzag32], [.zigzag32], .scalar .zigzag32 .keep⟩
  | .sint64 => ⟨.varint, [.zigzag64], [.zigzag64], .scalar .zigzag64 .keep⟩
  | .string => ⟨.bytes, [.text], [.text], .scalar .text .keep⟩
  | .bytes => ⟨.bytes, [.run], [.run], .scalar .run .keep⟩
  | .message => ⟨.bytes, [.message], [.message], .message⟩
  | .group => ⟨.startGroup, [.fields, .endKey], [.fields, .endKey], .group⟩

/-! ## Source text -/

def WireType.source : WireType → String
  | .varint => "proto.WIRE_VARINT"
  | .fixed64 => "proto.WIRE_FIXED64"
  | .bytes => "proto.WIRE_BYTES"
  | .startGroup => "proto.WIRE_START_GROUP"
  | .endGroup => "proto.WIRE_END_GROUP"
  | .fixed32 => "proto.WIRE_FIXED32"

def keySource (number : Int) (wire : WireType) : String := s!"{number} << 3 | {wire.source}"

def Operand.source (held : String) : Operand → String
  | .held => held
  | .doubleBits => s!"proto.float64_bits({held})"
  | .singleBits => s!"proto.float32_bits({held})"
  | .truth => s!"1 if {held} else 0"

def WriteStep.source (number : Int) (held : String) : WriteStep → String
  | .varint operand => s!"b.encode_varint({operand.source held})"
  | .fixed64 operand => s!"b.encode_fixed64({operand.source held})"
  | .fixed32 operand => s!"b.encode_fixed32({operand.source held})"
  | .zigzag32 => s!"b.encode_zigzag32({held})"
  | .zigzag64 => s!"b.encode_zigzag64({held})"
  | .text => s!"b.encode_string_bytes({held})"
  | .run => s!"b.encode_raw_bytes({held})"
  | .message => s!"b.encode_message({held})"
  | .fields => s!"b.marshal({held})"
  | .endKey => s!"b.encode_varint({keySource number .endGroup})"

def SizeStep.source (number : Int) (held : String) : SizeStep → List String
  | .bytes count => [s!"n += {count}"]
  | .varint => [s!"n += proto.size_varint({held})"]
  | .zigzag32 => [s!"n += proto.size_varint(proto.zigzag32({held}))"]
  | .zigzag64 => [s!"n += proto.size_varint(proto.zigzag64({held}))"]
  | .text => [s!"s = len({held}.encode('utf-8'))", "n += proto.size_varint(s)", "n += s"]
  | .run => [s!"n += proto.size_varint(len({held}))", s!"n += len({held})"]
  | .message => [s!"s = proto.size({held})", "n += proto.size_varint(s)", "n += s"]
  | .fields => [s!"n += proto.size({held})"]
  | .endKey => [s!"n += proto.size_varint({keySource number .endGroup})"]

def ReadSource.source : ReadSource → String
  | .varint => "b.decode_varint()"
  | .fixed64 => "b.decode_fixed64()"
  | .fixed32 => "b.decode_fixed32()"
  | .zigzag32 => "b.decode_zigzag32()"
  | .zigzag64 => "b.decode_zigzag64()"
  | .text => "b.decode_string_bytes()"
  | .run => "b.decode_raw_bytes()"

/-- A conversion around an expression. `typeRef` is the expression for the type of the member. -/
def Conversion.source (typeRef read : String) : Conversion → String
  | .keep => read
  | .signed32 => s!"proto.int32({read})"
  | .signed64 => s!"proto.int64({read})"
  | .unsigned32 => s!"proto.uint32({read})"
  | .truth => s!"{read} != 0"
  | .double => s!"proto.float64_from_bits({read})"
  | .single => s!"proto.float32_from_bits({read})"
  | .enum => s!"{typeRef}(proto.int32({read}))"

def ReadStep.source (typeRef : String) : ReadStep → List String
  | .scalar source conversion => [s!"x = {conversion.source typeRef source.source}"]
  | .message => [s!"x = {typeRef}()", "b.decode_message(x)"]
  | .group => [s!"x = {typeRef}()", "b.decode_group(x)"]

namespace OneofCase

def writeSource (c : OneofCase) (number : Int) (held : String) : List String :=
  s!"b.encode_varint({keySource number c.wireType})" :: c.write.map (·.source number held)

def sizeSource (c : OneofCase) (number : Int) (held : String) : List String :=
  s!"n += proto.size_varint({keySource number c.wireType})" ::
    c.size.flatMap (·.source number held)

def readSource (c : OneofCase) (number : Int) (typeRef attr variant : String) : List String :=
  [s!"if wire != {c.wireType.source}:",
   s!"    raise proto.BadWireTypeError({number}, wire, {c.wireType.source})"] ++
    c.read.source typeRef ++ [s!"m.{attr} = {variant}(x)", "return True"]

end OneofCase

end Protobind

import Protobind.Error
import Protobind.Schema.Tag

/-!
# Faults of messages

What can go wrong when messages are built, written, read and asked for their members.
-/

namespace Protobind

/-- Why a message cannot be written. -/
inductive EncodeError where
  | noMessage
  | requiredUnset (name : String)
  | memberNoMessage (number : String)
  | foreignVariant (owner attr type : String)
  | foreignSize (type : String)
  deriving DecidableEq

def EncodeError.message : EncodeError → String
  | .noMessage => "proto: cannot encode a None message"
  | .requiredUnset name => s!"proto: required field {name} not set"
  | .memberNoMessage number => s!"proto: message set extension {number} is not a message"
  | .foreignVariant owner attr type => s!"{owner}.{attr} has unexpected type {type}"
  | .foreignSize type => s!"proto: unexpected type {type} in oneof"

/-- Why a registry or an extended message cannot serve a request. -/
inductive UsageError where
  | unknownMessageType (name : String)
  | nullExtension
  | badExtendedType (extended type : String)
  | badExtensionNumber (number : Int)
  deriving DecidableEq

def UsageError.message : UsageError → String
  | .unknownMessageType name => s!"proto: unknown message type {name}"
  | .nullExtension => "proto: set_extension called with None value"
  | .badExtendedType extended type =>
    s!"proto: bad extended type; {extended} does not extend {type}"
  | .badExtensionNumber number =>
    s!"proto: bad extension number; not in declared ranges: {number}"

/-- What goes wrong. -/
inductive Fault where
  | malformed (error : DecodeError)
  | unencodable (error : EncodeError)
  /-- A registry or an extended message cannot serve the request. -/
  | usage (error : UsageError)
  | unknownKind
  /-- A field table lacks the type of a message or the entries of a map. -/
  | incompleteField
  | missingMember
  | wrongType
  | missingPosition
  | badWord
  | singleOverflow
  | unboundName
  | unassignedName
  | missingModule
  | slotConflict (name : String)
  /-- A module uses a name that no module may bind, or has a parameter twice. -/
  | badBinding
  | unexpectedArgument
  | notShowable
  | noInteger (source : String) (error : IntegerError)
  | noIntegerPart
  | infiniteInteger
  | negativeShift
  | doubleOverflow
  | negativeBytes
  | bytesOverflow
  | noByte
  | negativeCount
  | countOverflow
  | indexOverflow
  | outOfMemory
  | noWireType (text : String)
  | zeroDivisor
  | quotientOverflow
  | resultOverflow
  | noResult
  | noDouble (source : String)
  | noIntegerIn (base : Nat) (source : String)
  | badBase
  | noCharacter
  | noElement (function : String)
  | zeroStep
  | unsuitable (report : String)
  | tooLarge (report : String)
  | raised (error : String) (report : String)
  | unknownEntry
  | badTag (error : TagError)
  deriving DecidableEq

/-- A result or a fault. -/
abbrev Result := Except Fault

/-- The kinds of faults that can be told apart. -/
inductive FaultFamily where
  | malformed
  | wireType
  | encoding
  | usage
  | key
  | assertion
  | member
  | type
  | position
  | word
  | overflow
  | division
  | name
  | unassigned
  | module
  | compilation
  | value
  | memory
  | named (error : String)
  deriving DecidableEq

def Fault.family : Fault → FaultFamily
  | .malformed (.badWireType ..) => .wireType
  | .malformed _ | .noWireType _ => .malformed
  | .unencodable _ => .encoding
  | .usage _ => .usage
  | .unknownKind | .unknownEntry | .badTag .unknownEncoding => .key
  | .incompleteField | .unexpectedArgument | .notShowable => .assertion
  | .missingMember => .member
  | .wrongType => .type
  | .missingPosition | .badTag .missingPart => .position
  | .badWord => .word
  | .singleOverflow | .infiniteInteger | .countOverflow | .doubleOverflow | .negativeBytes
  | .bytesOverflow | .quotientOverflow | .resultOverflow | .indexOverflow
  | .tooLarge _ => .overflow
  | .zeroDivisor => .division
  | .unboundName => .name
  | .unassignedName => .unassigned
  | .missingModule => .module
  | .badBinding => .compilation
  | .slotConflict _ | .badTag (.badNumber ..) | .noInteger .. | .noIntegerPart | .negativeShift
  | .noByte | .negativeCount | .noResult | .noDouble _ | .noIntegerIn .. | .badBase | .noCharacter
  | .noElement _ | .zeroStep | .unsuitable _ => .value
  | .outOfMemory => .memory
  | .raised error _ => .named error

def FaultFamily.errorName : FaultFamily → String
  | .malformed => "DecodeError"
  | .wireType => "BadWireTypeError"
  | .encoding => "EncodeError"
  | .usage => "Error"
  | .key => "KeyError"
  | .assertion => "AssertionError"
  | .member => "AttributeError"
  | .type => "TypeError"
  | .position => "IndexError"
  | .word => "struct.error"
  | .overflow => "OverflowError"
  | .division => "ZeroDivisionError"
  | .name => "NameError"
  | .unassigned => "UnboundLocalError"
  | .module => "ModuleNotFoundError"
  | .compilation => "SyntaxError"
  | .value => "ValueError"
  | .memory => "MemoryError"
  | .named error => error

def reportedErrors : List String :=
  ["ValueError", "OverflowError", "Error", "EncodeError", "DecodeError", "BadWireTypeError"]

def Fault.message? : Fault → Option String
  | .malformed e => some e.message
  | .unencodable e => some e.message
  | .usage e => some e.message
  | .singleOverflow => some singleOverflowMessage
  | .slotConflict name => some (Text.quote name ++ " in __slots__ conflicts with class variable")
  | .badTag e => e.message?
  | .noInteger source e => some (e.message source)
  | .noIntegerPart => some "cannot convert float NaN to integer"
  | .infiniteInteger => some "cannot convert float infinity to integer"
  | .negativeShift => some "negative shift count"
  | .doubleOverflow => some "int too large to convert to float"
  | .negativeBytes => some "can't convert negative int to unsigned"
  | .bytesOverflow => some "int too big to convert"
  | .noByte => some "byte must be in range(0, 256)"
  | .negativeCount => some "negative count"
  | .countOverflow => some "cannot fit 'int' into an index-sized integer"
  | .indexOverflow => some "Python int too large to convert to C ssize_t"
  | .noWireType text => some ("proto: illegal wire type " ++ text)
  | .quotientOverflow => some "integer division result too large for a float"
  | .resultOverflow => some "(34, 'Numerical result out of range')"
  | .noResult => some "math domain error"
  | .noDouble source => some ("could not convert string to float: " ++ source)
  | .noIntegerIn base source => some s!"invalid literal for int() with base {base}: {source}"
  | .badBase => some "int() base must be >= 2 and <= 36, or 0"
  | .noCharacter => some "chr() arg not in range(0x110000)"
  | .noElement function => some (function ++ "() arg is an empty sequence")
  | .zeroStep => some "slice step cannot be zero"
  | .unsuitable report | .tooLarge report => some report
  | .raised error report => if reportedErrors.contains error then some report else none
  | _ => none

end Protobind

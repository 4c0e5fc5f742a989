import Protobind.Message.Call

/-!
# Attributes

Attributes are looked up in the message first and in its class afterwards, so an attribute can hide
a member of the class. Codec, text and comparison find what they use in this way.
-/

namespace Protobind

namespace MessageType

variable (t : MessageType) (m : Message)

/-- The table that a message is written by. A table put in the place of that of the class can only
be an empty one. -/
def tableOf : Result (List Field) :=
  match m.get? "_fields" with
  | none => .ok t.fields
  | some v => do
    match ← v.items with
    | [] => pure []
    | _ :: _ => .error .missingMember

/-- The table that a message is read by: the one that its class has settled on, or else the one that
it is written by. -/
def indexOf : Result (List Field) :=
  match t.index? with
  | some table => .ok table
  | none => t.tableOf m

def namesIn : List Value → Result (List String)
  | [] => .ok []
  | .text name :: rest => do pure (name :: (← namesIn rest))
  | _ :: _ => .error .wrongType

def oneofsOf : Result (List String) :=
  match m.get? "_oneofs" with
  | none => .ok t.oneofs
  | some v => do namesIn (← v.items)

def codecOf : Result (Option OneofCodec) :=
  match m.get? "oneof_funcs" with
  | none => .ok t.codec?
  | some .null => .ok none
  | some _ => .error .wrongType

/-- The ranges that something stands for where ranges are expected: what is empty stands for none,
and what has elements that are no ranges lacks their members. -/
def displacedRanges : Binding → Result (List FieldRange)
  | .value v => do
    match ← v.items with
    | [] => pure []
    | _ :: _ => .error .missingMember
  | _ => .error .wrongType

def rangesOf : Result (List FieldRange) :=
  match m.get? "extension_range_array" with
  | none =>
    match t.displaced? with
    | none => .ok t.ranges
    | some b => do displacedRanges (← b)
  | some .null => .ok []
  | some _ => .error .wrongType

end MessageType

def Registry.member (reg : Registry) (v : Value) (attr : String) : Result Value :=
  match v with
  | .variant type stored held =>
    match (reg.variantType? type).bind (·.readingFault?) with
    | some fault => .error fault
    | none => if stored = attr then .ok held else .error (v.callFault attr)
  | .message m => m.require attr
  | _ => .error .missingMember

namespace Value

def integerAttrs : List String := ["real", "imag", "numerator", "denominator"]

/-- An object with another value of an attribute. A variant has no attribute but its slot. An enum
value takes any attribute and stays what it is. -/
def assign (v : Value) (attr : String) (x : Value) : Result Value :=
  if attr == "__class__" then .error .wrongType
  else
    match v with
    | .message m =>
      match attributeFault? attr x with
      | some fault => .error fault
      | none => .ok (.message (m.store attr x))
    | .variant type stored _ =>
      if stored = attr then .ok (.variant type stored x) else .error .missingMember
    | .enum .. =>
      if integerAttrs.contains attr then .error .missingMember
      else
        match attributeFault? attr x with
        | some fault => .error fault
        | none => .ok v
    | _ => .error .missingMember

end Value

end Protobind

import Protobind.Message.Value

/-!
# Questions to numbers

The values of enums are integers, and answer what every integer answers without arguments.
-/

namespace Protobind

/-- What an integer can be asked. -/
inductive NumberQuestion where
  | value
  | negation
  | magnitude
  | complement
  | truth
  | floating
  | hash
  | bitLength
  | bitCount
  | byte
  | fraction
  | row
  deriving DecidableEq

namespace NumberQuestion

def hashModulus : Nat := 2305843009213693951

def hashOf (n : Int) : Int :=
  let residue : Int := (n.natAbs % hashModulus : Nat)
  let signed := if n < 0 then -residue else residue
  if signed = -1 then -2 else signed

def bits (n : Nat) : Nat := if n = 0 then 0 else n.log2 + 1

def answer (n : Int) : NumberQuestion → Result Value
  | .value => .ok (.int n)
  | .negation => .ok (.int (-n))
  | .magnitude => .ok (.int n.natAbs)
  | .complement => .ok (.int (-n - 1))
  | .truth => .ok (.bool (n != 0))
  | .floating =>
    match Double.ofInt? n with
    | some d => .ok (.float d)
    | none => .error .doubleOverflow
  | .hash => .ok (.int (hashOf n))
  | .bitLength => .ok (.int (bits n.natAbs))
  | .bitCount =>
    .ok (.int ((List.range (bits n.natAbs)).filter fun i => n.natAbs.testBit i).length)
  | .byte =>
    if n < 0 then .error .negativeBytes
    else if n < 256 then .ok (.bytes [UInt8.ofNat n.toNat])
    else .error .bytesOverflow
  | .fraction => .ok (.list [.int n, .int 1])
  | .row => .ok (.list [.int n])

def named? : String → Option NumberQuestion
  | "conjugate" | "__int__" | "__index__" | "__pos__" | "__trunc__" | "__floor__" | "__ceil__"
  | "__round__" => some .value
  | "__neg__" => some .negation
  | "__abs__" => some .magnitude
  | "__invert__" => some .complement
  | "__bool__" => some .truth
  | "__float__" => some .floating
  | "__hash__" => some .hash
  | "bit_length" => some .bitLength
  | "bit_count" => some .bitCount
  | "to_bytes" => some .byte
  | "as_integer_ratio" => some .fraction
  | "__getnewargs__" => some .row
  | _ => none

def operations : List String :=
  ["add", "sub", "mul", "mod", "divmod", "pow", "and", "or", "xor", "lshift", "rshift", "floordiv",
   "truediv"]

def isOperation (name : String) : Bool :=
  name == "from_bytes" ||
    operations.any fun op => name == "__" ++ op ++ "__" || name == "__r" ++ op ++ "__"

end NumberQuestion

end Protobind

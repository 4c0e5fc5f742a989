import Protobind.Name.Identifier

/-!
# Allocation of names

A name that is taken gets a suffix: the least number of underscores, or the least number, that makes
it free. A batch is suffixed as a whole, so that names that belong together stay alike.
-/

namespace Protobind.Name

def underscored (name : String) (k : Nat) : String :=
  name ++ String.ofList (List.replicate k '_')

/-- The least `k` below `bound` with `free k`, or `bound`. -/
def leastBelow (bound : Nat) (free : Nat → Bool) : Nat :=
  ((List.range bound).find? free).getD bound

/-- A name with the fewest underscores behind it that make it differ from every name in `taken`.
Each taken name rules out one number of underscores at most. -/
def unique (name : String) (taken : List String) : String :=
  underscored name (leastBelow taken.length fun k => !taken.contains (underscored name k))

def numbered (name : String) (i : Nat) : String := if i = 0 then name else name ++ toString i

def uniqueNumbered (name : String) (taken : List String) : String :=
  numbered name (leastBelow taken.length fun i => !taken.contains (numbered name i))

def methodNames : List String :=
  ["reset", "string", "proto_message", "marshal", "unmarshal", "extension_range_array",
   "extension_map", "descriptor", "oneof_funcs", "xxx_well_known_type"]

def storedNames : List String := ["_fields", "_oneofs", "_extensions", "_unrecognized", "self"]

def reserved : List String := methodNames ++ storedNames ++ keywords

/-- The names that are taken. -/
structure Allocator where
  used : List String := reserved

/-- A batch that has a name twice. -/
structure DuplicateNames where
  batch : List String
  deriving DecidableEq

namespace Allocator

def isUsed (a : Allocator) (name : String) : Bool := a.used.contains name

def isFree (a : Allocator) (batch : List String) (k : Nat) : Bool :=
  batch.all fun name => !a.isUsed (underscored name k)

/-- Allocates a batch of distinct names, all with the same number of underscores behind them: the
least for which none of them is in use. A used name rules out one number for each name of the
batch at most. -/
def allocate (a : Allocator) (batch : List String) :
    Except DuplicateNames (List String × Allocator) :=
  if batch.Nodup then
    let k := leastBelow (a.used.length * batch.length) (a.isFree batch)
    let names := batch.map (underscored · k)
    .ok (names, ⟨a.used ++ names⟩)
  else .error ⟨batch⟩

end Allocator

end Protobind.Name

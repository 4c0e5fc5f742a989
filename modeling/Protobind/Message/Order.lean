import Protobind.Message.Value

/-!
# The order of values

Numbers are ordered by value, texts and byte strings by their characters and bytes, lists by the
first elements that differ. Other values cannot be compared, and what is not a number lies nowhere
among the numbers.
-/

namespace Protobind.Value

def orderNumbers (a b : Value) : Result (Option Ordering) :=
  match a, b with
  | .nan, .nan | .nan, .float _ | .float _, .nan => .ok none
  | .float a, .float b => .ok (a.order? b)
  | .nan, b => do
    let _ ← b.asInt
    pure none
  | a, .nan => do
    let _ ← a.asInt
    pure none
  | .float a, b => do pure (a.orderInt? (← b.asInt))
  | a, .float b => do pure ((b.orderInt? (← a.asInt)).map Ordering.swap)
  | a, b => do pure (some (compare (← a.asInt) (← b.asInt)))

mutual

def order (a b : Value) : Result (Option Ordering) :=
  match a, b with
  | .text a, .text b => .ok (some (compareOfLessAndEq a b))
  | .bytes a, .bytes b =>
    .ok (some (compareOfLessAndEq (a.map UInt8.toNat) (b.map UInt8.toNat)))
  | .list as, .list bs => orderItems as bs
  | a, b => orderNumbers a b

def orderItems : List Value → List Value → Result (Option Ordering)
  | [], [] => .ok (some .eq)
  | [], _ :: _ => .ok (some .lt)
  | _ :: _, [] => .ok (some .gt)
  | a :: as, b :: bs =>
    if sameKey a b then orderItems as bs
    else do
      match ← order a b with
      | some .eq => orderItems as bs
      | other => pure other

end

def insertSorted (v : Value) : List Value → Result (List Value)
  | [] => .ok [v]
  | w :: rest => do
    match ← order w v with
    | some .lt => pure (w :: (← insertSorted v rest))
    | _ => pure (v :: w :: rest)

def sorted : List Value → Result (List Value)
  | [] => .ok []
  | v :: vs => do insertSorted v (← sorted vs)

end Protobind.Value

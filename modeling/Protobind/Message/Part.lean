import Protobind.Message.Value

/-!
# Parts of values

A dictionary has its parts under keys, a list, a text and a byte string under positions, where a
negative one counts from the end. Only dictionaries and lists take other parts.
-/

namespace Protobind.Value

def position (length : Nat) (key : Value) : Result Nat := do
  let n ← key.asInt
  let place := if n < 0 then n + length else n
  if 0 ≤ place && place < length then pure place.toNat else throw .missingPosition

def part (v key : Value) : Result Value :=
  match v with
  | .map entries =>
    if !key.isKey then .error .wrongType
    else
      match valueOf? key entries with
      | some part => .ok part
      | none => .error .unknownEntry
  | .list _ | .text _ | .bytes _ => do
    let parts ← v.items
    pure (parts.getD (← position parts.length key) .null)
  | _ => .error .wrongType

def setPart (v key part : Value) : Result Value :=
  match v with
  | .map entries => if key.isKey then .ok (.map (setEntry key part entries)) else .error .wrongType
  | .list items => do pure (.list (items.set (← position items.length key) part))
  | _ => .error .wrongType

def occursIn {α : Type} [BEq α] (row : List α) : List α → Bool
  | [] => row.isEmpty
  | x :: xs => row.isPrefixOf (x :: xs) || occursIn row xs

/-- Whether a value has a part: a dictionary its keys, a list its elements, a text and a byte string
what can be cut out of them. -/
def hasPart (v part : Value) : Result Bool :=
  match v, part with
  | .map entries, _ => if part.isKey then .ok (valueOf? part entries).isSome else .error .wrongType
  | .list items, _ => .ok (items.any (sameKey part))
  | .text s, .text t => .ok (occursIn t.toList s.toList)
  | .bytes bs, .bytes cs => .ok (occursIn cs bs)
  | .bytes bs, _ => do pure (bs.contains (← part.asByte))
  | _, _ => .error .wrongType

end Protobind.Value

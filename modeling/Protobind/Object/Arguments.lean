import Protobind.Object.View

/-!
# Arguments of functions

The arguments of a call, by position and by keyword, and how a function takes them.
-/

namespace Protobind

/-- The arguments of a call. -/
structure Arguments where
  placed : List Binding := []
  keywords : List (String × Binding) := []

namespace Arguments

variable (a : Arguments)

def slots (names : List String) : Result (List (Option Binding)) := do
  if names.length < a.placed.length then throw .wrongType
  let taken := names.take a.placed.length
  let free := names.drop a.placed.length
  if a.keywords.any fun (word, _) => taken.contains word || !free.contains word then
    throw .wrongType
  pure (a.placed.map some ++ free.map fun word => Dictionary.get? word a.keywords)

def between (least most : Nat) : Result (List Binding) :=
  if a.keywords.isEmpty && least ≤ a.placed.length && a.placed.length ≤ most then .ok a.placed
  else .error .wrongType

def only : Result Binding := do
  match ← a.between 1 1 with
  | [b] => pure b
  | _ => throw .wrongType

def none : Result Unit := do
  let _ ← a.between 0 0

end Arguments

def Binding.optionalInt (b? : Option Binding) (default : Int) : Result Int :=
  match b? with
  | some b => b.asInt
  | none => .ok default

end Protobind

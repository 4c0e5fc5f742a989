import Protobind.Object.Arguments

/-!
# Functions of numbers

Numbers and functions of the module for mathematics.
-/

namespace Protobind.Mathematics

def constant? : String → Option Value
  | "inf" => some (.float (Double.infinity false))
  | "nan" => some .nan
  | "pi" => some (.float Double.halfTurn)
  | "e" => some (.float ⟨4613303445314885481⟩)
  | "tau" => some (.float ⟨4618760256179416344⟩)
  | _ => none

def tooLarge : Fault := .tooLarge "math range error"

def factorial : Nat → Nat
  | 0 => 1
  | n + 1 => factorial n * (n + 1)

def maxFactors : Nat := 20000

def power (a b : Double) : Result Double :=
  let result := a.power b
  if !a.isFinite || !b.isFinite then .ok result
  else if result.isNaN then .error .noResult
  else if result.isInfinite then .error (if a.isZero then .noResult else tooLarge)
  else .ok result

def call (name : String) (args : Arguments) : Result Binding :=
  match name, args.placed, args.keywords with
  | "isqrt", [b], [] => do
    let n ← b.asInt
    if n < 0 then throw (.unsuitable "isqrt() argument must be nonnegative")
    pure (Binding.ofInt (Nat.sqrt n.toNat))
  | "factorial", [b], [] => do
    let n ← b.asInt
    if n < 0 then throw (.unsuitable "factorial() not defined for negative values")
    if maxFactors < n.toNat then pure .hidden else pure (Binding.ofInt (factorial n.toNat))
  | "pow", [a, b], [] => do pure (.value (.float (← power (← a.asDouble) (← b.asDouble))))
  | _, _, _ => .ok .hidden

end Protobind.Mathematics

import Protobind.Number.Decimal

/-!
# Decimal places

The magnitude of a double with a given number of decimal places, positionally or with an exponent,
rounded once from the exact value, with ties to even.
-/

namespace Protobind.Decimal

def withPoint (places : Nat) (n : Nat) : String :=
  let digits := Nat.toDigits 10 n
  let padded := List.replicate (places + 1 - digits.length) '0' ++ digits
  let whole := padded.take (padded.length - places)
  String.ofList whole ++
    (if places = 0 then "" else "." ++ String.ofList (padded.drop whole.length))

def fixed (places : Nat) (num den : Nat) : String :=
  withPoint places (roundDiv (num * Nat.pow 10 places) den)

def exponential (places : Nat) (num den : Nat) : String :=
  if num = 0 then withPoint places 0 ++ exponentText 0
  else
    let d := Digits.rounded num den (places + 1)
    let digits := d.digits ++ List.replicate (places + 1 - d.digits.length) '0'
    String.ofList (digits.take 1) ++
      (if places = 0 then "" else "." ++ String.ofList (digits.drop 1)) ++ exponentText d.exponent

def significant (count : Nat) (num den : Nat) : String :=
  let exponent : Int := if num = 0 then 0 else (Digits.rounded num den count).exponent
  if -4 ≤ exponent && exponent < count then
    let text := fixed (count - 1 - exponent).toNat num den
    if text.contains '.' then text else text ++ "."
  else
    let text := exponential (count - 1) num den
    if count = 1 then (text.take 1).toString ++ "." ++ (text.drop 1).toString else text

end Protobind.Decimal

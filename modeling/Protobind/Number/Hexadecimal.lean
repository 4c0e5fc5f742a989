import Protobind.Number.Decimal
import Protobind.Text.Quoted

/-!
# Numbers in base sixteen

A double without rounding: the thirteen digits of the fraction, and the binary exponent.
-/

namespace Protobind.Double

def hexText (d : Double) : String :=
  d.spell "0x0.0p+0" fun d =>
    let field := d.magnitude / twoPow 52
    let exponent : Int := if field = 0 then -1022 else (field : Int) - 1023
    s!"0x{min field 1}." ++ Text.hex 13 (d.magnitude % twoPow 52) ++
      (if exponent < 0 then "p-" else "p+") ++ toString exponent.natAbs

end Protobind.Double

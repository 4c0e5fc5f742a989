import Protobind.Number.Places
import Protobind.Object.Source

/-!
# Layouts

How the magnitude of a floating-point number is written: by the letter of a form, the number of
decimal places, and whether a point always stands.
-/

namespace Protobind

/-- How a magnitude is written. -/
structure TextLayout where
  form : Char
  places : Nat
  marked : Bool

namespace TextLayout

variable (l : TextLayout)

def digits (d : Double) : String :=
  let (num, den) := d.ratio
  match l.form.toLower with
  | 'e' => Decimal.exponential l.places num den
  | 'f' => Decimal.fixed l.places num den
  | _ =>
    let count := max l.places 1
    if l.marked then Decimal.significant count num den
    else if d.isZero then "0"
    else (Decimal.Digits.rounded num den count).render ⟨count, false⟩

def ofDouble (d : Double) : String :=
  let text := if d.isNaN then "nan" else if !d.isFinite then "inf" else l.digits d
  let text := if l.form.isUpper then String.ofList (text.toList.map Char.toUpper) else text
  if l.marked && !text.contains '.' && d.isFinite then text ++ "." else text

end TextLayout

namespace Binding

def typeName (reg : Registry) (b : Binding) : String :=
  match b with
  | .row _ => "tuple"
  | .list _ | .ranges _ => "list"
  | .set _ fixed => if fixed then "frozenset" else "set"
  | .dictionary _ => "dict"
  | .listing form _ => form
  | .numbers .. => "range"
  | .stream .. => "generator"
  | .complex .. => "complex"
  | .range .. => "ExtensionRange"
  | .field _ => "Field"
  | .buffer _ => "Buffer"
  | .extension _ => "ExtensionDesc"
  | .error path _ => Builtin.lastName path
  | .type _ => "type"
  | .builtin path => if Builtin.isClass path then "type" else "builtin_function_or_method"
  | .method .. => "method"
  | .closure .. | .function .. => "function"
  | .module _ | .support _ => "module"
  | .hidden => "object"
  | .value v => reg.typeName v
  | .constant id .. => reg.className id

/-- The text of a thing in a layout of its type's own; only the empty layout is shown. -/
def laidOut (reg : Registry) (b : Binding) (layout : String) : Result String :=
  if layout.isEmpty then b.display reg else .error .notShowable

def latinText (bs : Bytes) : String := String.ofList (bs.map fun b => Char.ofNat b.toNat)

def latinBytes (s : String) : Bytes := s.toList.map fun c => UInt8.ofNat c.toNat

def escaped (s : String) : String :=
  String.join (s.toList.map fun c =>
    if c.toNat < 128 then c.toString
    else if c.toNat ≤ 0xff then "\\x" ++ Text.hex 2 c.toNat
    else if c.toNat ≤ 0xffff then "\\u" ++ Text.hex 4 c.toNat
    else "\\U" ++ Text.hex 8 c.toNat)

def converted (reg : Registry) (letter : Char) (b : Binding) : Result String :=
  match letter with
  | 'r' => b.source reg
  | 'a' => do pure (escaped (← b.source reg))
  | _ => b.display reg

end Binding

end Protobind

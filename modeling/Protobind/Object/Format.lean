import Protobind.Object.Compare
import Protobind.Object.Layout

/-!
# Filling in templates

A text with percent signs takes its arguments one after another, or from a dictionary.
-/

namespace Protobind.Filling

/-- What stands behind a percent sign. -/
structure Directive where
  key? : Option String := none
  left : Bool := false
  plus : Bool := false
  blank : Bool := false
  marked : Bool := false
  zeros : Bool := false
  width : Nat := 0
  places? : Option Nat := none

/-- What templates are filled from. -/
structure Arguments where
  items : List Binding
  table? : Option (List (Binding × Binding)) := none
  loose : Bool := false

def next (args : Arguments) : Result (Binding × Arguments) :=
  match args.items with
  | b :: rest => .ok (b, { args with items := rest })
  | [] => .error .wrongType

def flags (d : Directive) : List Char → Directive × List Char
  | '-' :: rest => flags { d with left := true } rest
  | '+' :: rest => flags { d with plus := true } rest
  | ' ' :: rest => flags { d with blank := true } rest
  | '#' :: rest => flags { d with marked := true } rest
  | '0' :: rest => flags { d with zeros := true } rest
  | rest => (d, rest)

def count (cs : List Char) (args : Arguments) : Result (Option Int × List Char × Arguments) :=
  match cs with
  | '*' :: rest => do
    let (b, args) ← next args
    match b.value? with
    | some v => do pure (some (← v.asInt), rest, args)
    | none => throw .wrongType
  | _ =>
    let ds := cs.takeWhile Char.isDigit
    .ok ((Numeral.digitsValue? ds).map Int.ofNat, cs.drop ds.length, args)

def directive (cs : List Char) (args : Arguments) : Result (Directive × List Char × Arguments) := do
  let (key?, cs) ← match cs with
    | '(' :: rest =>
      match Text.cutAt? ')' rest with
      | some (key, rest) => pure (some (String.ofList key), rest)
      | none => throw (.unsuitable "incomplete format key")
    | cs => pure (none, cs)
  let (d, cs) := flags { key? } cs
  let (width?, cs, args) ← count cs args
  let width := width?.getD 0
  let d := { d with left := d.left || decide (width < 0), width := width.natAbs }
  let (places?, cs, args) ← match cs with
    | '.' :: rest => do
      let (places?, cs, args) ← count rest args
      pure (some (places?.getD 0), cs, args)
    | cs => pure (none, cs, args)
  let cs := match cs with
    | c :: rest => if c == 'h' || c == 'l' || c == 'L' then rest else c :: rest
    | [] => []
  pure ({ d with places? := places?.map Int.toNat }, cs, args)

def placed (d : Directive) (s : String) : String :=
  let gap := "".pushn ' ' (d.width - s.length)
  if d.left then s ++ gap else gap ++ s

def placedNumber (d : Directive) (negative : Bool) (mark digits : String) : String :=
  let sign := if negative then "-" else if d.plus then "+" else if d.blank then " " else ""
  let lead := sign ++ mark
  if d.zeros && !d.left then
    lead ++ "".pushn '0' (d.width - lead.length - digits.length) ++ digits
  else placed d (lead ++ digits)

def placedInt (d : Directive) (base : Nat) (mark : String) (upper : Bool) (n : Int) : String :=
  let digits := Nat.toDigits base n.natAbs
  let digits := List.replicate ((d.places?.getD 0) - digits.length) '0' ++ digits
  let digits := if upper then digits.map Char.toUpper else digits
  placedNumber d (decide (n < 0)) (if d.marked then mark else "") (String.ofList digits)

def integral (decimal : Bool) (b : Binding) : Result Int := do
  match ← b.asValue with
  | .float x => if decimal then (Value.float x).toInteger else throw .wrongType
  | .nan => if decimal then Value.nan.toInteger else throw .wrongType
  | v => v.asInt

def byte (b : Binding) : Result String := do
  match ← b.asValue with
  | .bytes [n] => pure (Char.ofNat n.toNat).toString
  | .bytes _ => throw .wrongType
  | v =>
    let n ← v.asInt
    if n < 0 || 256 ≤ n then throw (.tooLarge "%c arg not in range(256)")
    pure (Char.ofNat n.toNat).toString

def bytes (b : Binding) : Result String := do
  match ← b.asValue with
  | .bytes bs => pure (Binding.latinText bs)
  | _ => throw .wrongType

def character (b : Binding) : Result String := do
  match ← b.asValue with
  | .text s => if s.length = 1 then pure s else throw .wrongType
  | v =>
    let n ← v.asInt
    if n < 0 || 1114112 ≤ n then throw (.tooLarge "%c arg not in range(0x110000)")
    pure (Char.ofNat n.toNat).toString

def argument (reg : Registry) (inBytes : Bool) (d : Directive) (form : Char) (b : Binding) :
    Result String := do
  let cut (s : String) : String := match d.places? with
    | some n => placed d (String.ofList (s.toList.take n))
    | none => placed d s
  let layout : TextLayout := { form, places := d.places?.getD 6, marked := d.marked }
  match form with
  | 's' | 'b' => do pure (cut (← if inBytes then bytes b else b.converted reg form))
  | 'r' | 'a' => do pure (cut (← b.converted reg (if inBytes then 'a' else form)))
  | 'c' => do pure (placed d (← if inBytes then byte b else character b))
  | 'd' | 'i' | 'u' => do
    let n ← integral true b
    Binding.checkDigits n
    pure (placedInt d 10 "" false n)
  | 'x' => do pure (placedInt d 16 "0x" false (← integral false b))
  | 'X' => do pure (placedInt d 16 "0X" true (← integral false b))
  | 'o' => do pure (placedInt d 8 "0o" false (← integral false b))
  | _ => do
    let x ← b.asDouble
    pure (placedNumber d (x.isNegative && !x.isNaN) "" (layout.ofDouble x.abs))

def forms : List Char :=
  ['s', 'r', 'a', 'c', 'd', 'i', 'u', 'x', 'X', 'o', 'e', 'E', 'f', 'F', 'g', 'G']

/-- Fills in a text with percent signs, of which `done` characters were looked at, in at most
`fuel` steps. -/
def percent (reg : Registry) (inBytes : Bool) (length : Nat) :
    Nat → List Char → Arguments → Result String
  | 0, _, _ => .error (.unsuitable "incomplete format")
  | _, [], args =>
    if args.items.isEmpty || args.loose then .ok "" else .error .wrongType
  | fuel + 1, c :: cs, args => do
    if c != '%' then pure (c.toString ++ (← percent reg inBytes length fuel cs args))
    else
      let (d, cs, args) ← directive cs args
      match cs with
      | [] => throw (.unsuitable "incomplete format")
      | '%' :: rest => do pure ("%" ++ (← percent reg inBytes length fuel rest args))
      | form :: rest => do
        let (b, args) ← match d.key? with
          | some key =>
            match args.table? with
            | none => throw .wrongType
            | some table => do
              let key := if inBytes then .value (.bytes (Binding.latinBytes key))
                else Binding.ofText key
              match ← Binding.entryOf? reg key table with
              | some b => pure (b, { args with items := [] })
              | none => throw .unknownEntry
          | none => next args
        if !forms.contains form && !(inBytes && form == 'b') then
          throw (.unsuitable
            (s!"unsupported format character {Text.quote form.toString} " ++
              s!"(0x{Text.hex 1 form.toNat}) at index {length - rest.length - 1}"))
        let text ← argument reg inBytes d form b
        pure (text ++ (← percent reg inBytes length fuel rest args))

/-- Fills in a text or bytes with percent signs by an argument, or by all elements of a row. -/
def byPercent (reg : Registry) (inBytes : Bool) (s : String) (b : Binding) : Result String :=
  let loose := match b.view with
    | .dictionary _ | .list _ | .numbers .. => true
    | .value (.bytes _) => !inBytes
    | _ => false
  let items := (b.rowItems?).getD [b]
  percent reg inBytes s.length (s.length + 1) s.toList { items, table? := b.entries?, loose }

end Protobind.Filling

import Protobind.Message.Equality
import Protobind.Object.Quantity

/-!
# Views of things

A list or dictionary of values is a value itself, and one that holds anything else is not. A view
shows both alike, and the ranges of a message class too.
-/

namespace Protobind.Binding

def maxListed : Nat := 1000000

def maxDepth : Nat := 1000

def ofBool (b : Bool) : Binding := .value (.bool b)

def ofInt (n : Int) : Binding := .value (.int n)

def ofText (s : String) : Binding := .value (.text s)

def nothing : Binding := .value .null

def ofRange (r : FieldRange) : Binding := .range (ofInt r.first) (ofInt r.last)

def view : Binding → Binding
  | .value (.list vs) => .list (vs.map .value)
  | .value (.map es) => .dictionary (es.map fun (k, v) => (.value k, .value v))
  | .constant id n _ => .value (.enum id n)
  | .ranges rs => .list (rs.map ofRange)
  | b => b

def isNothing : Binding → Bool
  | .value .null => true
  | _ => false

def asValue : Binding → Result Value
  | .value v => .ok v
  | .constant id n _ => .ok (.enum id n)
  | _ => .error .wrongType

def value? : Binding → Option Value
  | .value v => some v
  | .constant id n _ => some (.enum id n)
  | _ => none

mutual

def plain? : Binding → Option Value
  | .value v => some v
  | .constant id n _ => some (.enum id n)
  | .row items | .list items => (plainItems? items).map .list
  | .range first last => do pure (.list [← plain? first, ← plain? last])
  | .dictionary entries => (plainEntries? entries).map .map
  | _ => none

def plainItems? : List Binding → Option (List Value)
  | [] => some []
  | b :: bs => do
    let v ← plain? b
    let vs ← plainItems? bs
    pure (v :: vs)

def plainEntries? : List (Binding × Binding) → Option (List (Value × Value))
  | [] => some []
  | (k, b) :: rest => do
    let k ← plain? k
    let v ← plain? b
    let more ← plainEntries? rest
    pure ((k, v) :: more)

end

def ofItems (items : List Binding) : Binding :=
  match items.mapM value? with
  | some vs => .value (.list vs)
  | none => .list items

def ofEntries (entries : List (Binding × Binding)) : Binding :=
  let pair? (e : Binding × Binding) : Option (Value × Value) := do
    pure (← e.1.value?, ← e.2.value?)
  match entries.mapM pair? with
  | some es => .value (.map es)
  | none => .dictionary entries

def setItems? : Binding → Option (List Binding)
  | .set items _ => some items
  | .listing form items => if form == "dict_values" then none else some items
  | _ => none

def rowItems? : Binding → Option (List Binding)
  | .row items => some items
  | .range first last => some [first, last]
  | _ => none

def quantity : Binding → Result Quantity
  | .complex re im => .ok (.complex re im)
  | b => do
    match ← b.asValue with
    | .float d => pure (.real d)
    | .nan => pure (.real Double.nan)
    | v => do pure (.whole (← v.asInt))

def ofQuantity : Quantity → Binding
  | .whole n => .value (.int n)
  | .real d => .value (.float d)
  | .complex re im => .complex re im

def asInt (b : Binding) : Result Int := do (← b.asValue).asInt

def asDouble (b : Binding) : Result Double := do (← b.quantity).toDouble

def asText : Binding → Result String
  | .value (.text s) => .ok s
  | _ => .error .wrongType

/-! ## Elements -/

def countNumbers (first stop step : Int) : Nat :=
  let reach := if step < 0 then first - stop else stop - first
  if step = 0 then 0 else ((reach + step.natAbs - 1) / step.natAbs).toNat

def listNumbers (first stop step : Int) : List Binding :=
  (List.range (min (countNumbers first stop step) maxListed)).map fun (i : Nat) =>
    ofInt (first + step * i)

/-- What is met when something is gone through: elements, and then perhaps a fault. -/
structure Walk where
  items : List Binding
  fault? : Option Fault := none

def walk (b : Binding) : Result Walk :=
  match b.view with
  | .list items | .row items | .set items _ | .listing _ items => .ok { items }
  | .stream items fault? => .ok { items, fault? }
  | .dictionary entries => .ok { items := entries.map (·.1) }
  | .range first last => .ok { items := [first, last] }
  | .numbers first stop step =>
    .ok { items := listNumbers first stop step
          fault? := if maxListed < countNumbers first stop step then some .outOfMemory else none }
  | .value v => do pure { items := (← v.items).map .value }
  | .hidden => .error .notShowable
  | _ => .error .wrongType

def items (b : Binding) : Result (List Binding) := do
  let w ← b.walk
  match w.fault? with
  | some fault => throw fault
  | none => pure w.items

def entries? (b : Binding) : Option (List (Binding × Binding)) :=
  match b.view with
  | .dictionary entries => some entries
  | _ => none

def truthy (b : Binding) : Bool :=
  match b.view with
  | .value v => v.truthy
  | .list items | .row items | .set items _ | .listing _ items => !items.isEmpty
  | .dictionary entries => !entries.isEmpty
  | .numbers first stop step => countNumbers first stop step != 0
  | .complex re im => !(re.isZero && im.isZero)
  | _ => true

def length (b : Binding) : Result Nat :=
  match b.view with
  | .list items | .row items | .set items _ | .listing _ items => .ok items.length
  | .dictionary entries => .ok entries.length
  | .range .. => .ok 2
  | .numbers first stop step =>
    let n := countNumbers first stop step
    if 9223372036854775807 < n then .error .indexOverflow else .ok n
  | .hidden => .error .notShowable
  | b => do (← b.asValue).length

end Protobind.Binding

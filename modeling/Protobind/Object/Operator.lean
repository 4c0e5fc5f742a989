import Protobind.Object.Format

/-!
# Operators

Numbers are computed with; texts, byte strings, lists and rows can be joined and repeated; sets and
dictionaries can be united.
-/

namespace Protobind.Binding

def behind (sign : UnarySign) (b : Binding) : Result Binding :=
  match b with
  | .hidden => .ok .hidden
  | b => do pure (ofQuantity (← sign.onQuantity (← b.quantity)))

def repeated {α : Type} (items : List α) (n : Int) : Result (List α) :=
  if n < -9223372036854775808 || 9223372036854775808 ≤ n then .error .countOverflow
  else if n ≤ 0 || items.isEmpty then .ok []
  else if Quantity.maxBits < n.toNat * items.length then .error .outOfMemory
  else .ok (List.replicate n.toNat items).flatten

def repeated? (b : Binding) (n : Int) : Option (Result Binding) :=
  match b.view with
  | .value (.text s) => some do pure (.value (.text (String.ofList (← repeated s.toList n))))
  | .value (.bytes bs) => some do pure (.value (.bytes (← repeated bs n)))
  | .list items => some do pure (ofItems (← repeated items n))
  | b => b.rowItems?.map fun items => do pure (.row (← repeated items n))

def concatenated? (a b : Binding) : Option Binding :=
  match a.view, b.view with
  | .value (.text a), .value (.text b) => some (.value (.text (a ++ b)))
  | .value (.bytes a), .value (.bytes b) => some (.value (.bytes (a ++ b)))
  | .list as, .list bs => some (ofItems (as ++ bs))
  | a, b => do pure (.row ((← a.rowItems?) ++ (← b.rowItems?)))

def kept (test : Binding → Result Bool) : List Binding → Result (List Binding)
  | [] => .ok []
  | b :: bs => do if ← test b then pure (b :: (← kept test bs)) else kept test bs

def joinedSets (reg : Registry) (sign : BinarySign) (as bs : List Binding) :
    Result (List Binding) := do
  let inOther (others : List Binding) (b : Binding) : Result Bool := anyEqual reg b others
  let outside (others : List Binding) (b : Binding) : Result Bool := do
    pure !(← anyEqual reg b others)
  match sign with
  | .or => addAll reg as bs
  | .and => kept (inOther bs) as
  | .minus => kept (outside bs) as
  | .xor => do
    let left ← kept (outside bs) as
    let right ← kept (outside as) bs
    pure (left ++ right)
  | _ => throw .wrongType

def isType : Binding → Bool
  | .type _ => true
  | .builtin path => Builtin.isClass path
  | _ => false

def joined (reg : Registry) (sign : BinarySign) (a b : Binding) : Result Binding :=
  match sign, a.view, b.view with
  | _, .hidden, _ | _, _, .hidden => .ok .hidden
  | .or, .value (.bool a), .value (.bool b) => .ok (ofBool (a || b))
  | .xor, .value (.bool a), .value (.bool b) => .ok (ofBool (a != b))
  | .and, .value (.bool a), .value (.bool b) => .ok (ofBool (a && b))
  | .or, .dictionary as, .dictionary bs => do pure (ofEntries (← setEntries reg as bs))
  | _, .set as fixed, .set bs _ => do
    match ← ofElements reg fixed (← joinedSets reg sign as bs) with
    | .set items _ => pure (.set items fixed)
    | other => pure other
  | .modulo, .value (.text s), _ => do pure (ofText (← Filling.byPercent reg false s b))
  | .modulo, .value (.bytes bs), _ => do
    let s ← Filling.byPercent reg true (latinText bs) b
    pure (.value (.bytes (latinBytes s)))
  | _, .listing form as, y =>
    match (Binding.listing form as).setItems?, y.items with
    | some as, .ok bs => do ofElements reg false (← joinedSets reg sign as bs)
    | _, _ => .error .wrongType
  | _, x, y =>
    let united := (isType x || x.isNothing) && (isType y || y.isNothing) && (isType x || isType y)
    if sign == .or && united then .ok .hidden
    else
      match if sign == .plus then concatenated? x y else none with
      | some joined => .ok joined
      | none =>
        let product? := if sign == .times then
            match y.asInt, x.asInt with
            | .ok n, _ => (repeated? x n).or (x.asInt.toOption.bind fun m => repeated? y m)
            | _, .ok m => repeated? y m
            | _, _ => none
          else none
        match product? with
        | some answer => answer
        | none => do pure (ofQuantity (← sign.onQuantities (← x.quantity) (← y.quantity)))

/-! ## Parts -/

def bound? : Binding → Result (Option Int)
  | .value .null => .ok none
  | b => do pure (some (← b.asInt))

def positions (length : Nat) (lower? upper? : Option Int) (step : Int) : Int × Nat :=
  let length : Int := length
  let least : Int := if step < 0 then -1 else 0
  let most : Int := if step < 0 then length - 1 else length
  let place (n : Int) : Int := max least (min most (if n < 0 then n + length else n))
  let lower := (lower?.map place).getD (if step < 0 then most else least)
  let upper := (upper?.map place).getD (if step < 0 then least else most)
  let reach := if step < 0 then lower - upper else upper - lower
  let distance : Int := step.natAbs
  (lower, ((reach + distance - 1) / distance).toNat)

/-- The elements at some positions of a row; the distance of the positions is not zero. -/
def slice {α : Type} (items : List α) (lower? upper? : Option Int) (step : Int) : List α :=
  let (first, count) := positions items.length lower? upper? step
  (List.range count).filterMap fun (i : Nat) => items[(first + step * i).toNat]?

def sliced (b : Binding) (lower upper step : Binding) : Result Binding := do
  let lower? ← bound? lower
  let upper? ← bound? upper
  let step := (← bound? step).getD 1
  let cut {α : Type} (items : List α) : Result (List α) :=
    if step = 0 then .error .zeroStep else .ok (slice items lower? upper? step)
  match b.view with
  | .value (.text s) => do pure (.value (.text (String.ofList (← cut s.toList))))
  | .value (.bytes bs) => do pure (.value (.bytes (← cut bs)))
  | .list items => do pure (ofItems (← cut items))
  | .numbers first stop distance =>
    if step = 0 then throw .zeroStep
    let (place, count) := positions (countNumbers first stop distance) lower? upper? step
    let start := first + distance * place
    pure (.numbers start (start + distance * step * count) (distance * step))
  | .hidden => pure .hidden
  | b =>
    match b.rowItems? with
    | some items => do pure (.row (← cut items))
    | none => throw .wrongType

def elementAt (items : List Binding) (key : Binding) : Result Binding := do
  match items[← Value.position items.length (← key.asValue)]? with
  | some item => pure item
  | none => throw .missingPosition

def part (reg : Registry) (b key : Binding) : Result Binding :=
  match b.view with
  | .hidden => .ok .hidden
  | .list items | .row items => elementAt items key
  | .range first last => elementAt [first, last] key
  | .numbers first stop step => do
    pure (ofInt (first + step * (← Value.position (countNumbers first stop step) (← key.asValue))))
  | .dictionary entries => do
    if !key.isKey then throw .wrongType
    match ← entryOf? reg key entries with
    | some b => pure b
    | none => throw .unknownEntry
  | .value v => do pure (.value (← v.part (← key.asValue)))
  | .builtin path =>
    if ["list", "dict", "tuple", "set", "frozenset", "type"].contains path then .ok .hidden
    else .error .wrongType
  | _ => .error .wrongType

def setPart (reg : Registry) (b key element : Binding) : Result Binding :=
  match b.view with
  | .list items => do
    pure (ofItems (items.set (← Value.position items.length (← key.asValue)) element))
  | .dictionary entries => do pure (ofEntries (← setEntry reg key element entries))
  | .hidden => .ok .hidden
  | _ => .error .wrongType

/-- The positions that bounds and a distance mean in a list, and whether they lie side by side in
ascending order. -/
def placesOf (length : Nat) (lower upper step : Binding) : Result (Nat × List Nat × Bool) := do
  let lower? ← bound? lower
  let upper? ← bound? upper
  let step := (← bound? step).getD 1
  if step = 0 then throw .zeroStep
  let (first, count) := positions length lower? upper? step
  let places := (List.range count).map fun (i : Nat) => (first + step * i).toNat
  pure (first.toNat, places, step == 1)

def setSlice (b lower upper step elements : Binding) : Result Binding := do
  match b.view with
  | .list items =>
    let (first, places, together) ← placesOf items.length lower upper step
    let new ← elements.items
    if together then pure (ofItems (items.take first ++ new ++ items.drop (first + places.length)))
    else if new.length = places.length then
      pure (ofItems ((places.zip new).foldl (fun items (i, b) => items.set i b) items))
    else
      throw (.unsuitable (s!"attempt to assign sequence of size {new.length} to extended slice " ++
        s!"of size {places.length}"))
  | .hidden => pure .hidden
  | _ => throw .wrongType

end Protobind.Binding

import Protobind.Object.Arguments
import Protobind.Object.Operator

/-!
# Methods of collections

Methods of lists, rows and dictionaries.
-/

namespace Protobind

open Binding (nothing ofInt ofItems ofEntries)

/-- What a method answers, and what its owner has become. -/
structure Effect where
  answer : Binding
  owner? : Option Binding := none

namespace Effect

def pure (b : Binding) : Effect := { answer := b }

def become (b : Binding) : Effect := { answer := nothing, owner? := some b }

end Effect

namespace CollectionMethod

variable (reg : Registry)

/-! ## Rows and lists -/

def count (b : Binding) (items : List Binding) : Result Binding := do
  let hits ← items.mapM fun item => Binding.found reg item b
  .ok (ofInt (hits.filter id).length)

def position? (b : Binding) : List Binding → Result (Option Nat)
  | [] => .ok none
  | item :: rest => do
    if ← Binding.found reg item b then .ok (some 0)
    else .ok ((← position? b rest).map (· + 1))

def searchBound (length : Nat) (b : Binding) : Result Nat := do
  let n ← b.asInt
  .ok (max 0 (if n < 0 then n + length else n)).toNat

def index (absent : String → String) (items : List Binding) (args : Arguments) :
    Result Binding := do
  match ← args.between 1 3 with
  | b :: bounds =>
    let lower ← (bounds[0]?.map (searchBound items.length)).getD (.ok 0)
    let upper ← (bounds[1]?.map (searchBound items.length)).getD (.ok items.length)
    match ← position? reg b ((items.take upper).drop lower) with
    | some n => .ok (ofInt (lower + n : Nat))
    | none => throw (.unsuitable (absent (← b.source reg)))
  | [] => throw .wrongType

def callList? (items : List Binding) (name : String) (args : Arguments) : Option (Result Effect) :=
  let list (items : List Binding) : Effect := .become (ofItems items)
  match name with
  | "append" => some do .ok (list (items ++ [← args.only]))
  | "clear" => some do
    args.none
    .ok (list [])
  | "copy" => some do
    args.none
    .ok (.pure (ofItems items))
  | "count" => some do .ok (.pure (← count reg (← args.only) items))
  | "extend" => some do .ok (list (items ++ (← (← args.only).items)))
  | "index" => some do .ok (.pure (← index reg (· ++ " is not in list") items args))
  | "insert" => some do
    match ← args.between 2 2 with
    | [place, b] => do
      let n ← place.asInt
      let n := if n < 0 then max 0 (n + items.length) else n
      .ok (list (items.take n.toNat ++ [b] ++ items.drop n.toNat))
    | _ => throw .wrongType
  | "pop" => some do
    let place := (← args.between 0 1).headD (ofInt (-1))
    let n ← Value.position items.length (← place.asValue)
    .ok
      { answer := items.getD n nothing
        owner? := some (ofItems (items.eraseIdx n)) }
  | "remove" => some do
    match ← position? reg (← args.only) items with
    | some n => .ok (list (items.eraseIdx n))
    | none => throw (.unsuitable "list.remove(x): x not in list")
  | "reverse" => some do
    args.none
    .ok (list items.reverse)
  | _ => none

def callRow? (items : List Binding) (name : String) (args : Arguments) : Option (Result Effect) :=
  match name with
  | "count" => some do .ok (.pure (← count reg (← args.only) items))
  | "index" => some do
    .ok (.pure (← index reg (fun _ => "tuple.index(x): x not in tuple") items args))
  | _ => none

/-! ## Dictionaries -/

/-- The entries that something gives to a dictionary: those of another dictionary, or its elements,
which are pairs. -/
def entriesOf (b : Binding) : Result (List (Binding × Binding)) :=
  match b.entries? with
  | some entries => .ok entries
  | none => do
    (← b.items).zipIdx.mapM fun (item, i) => do
      match item.items with
      | .ok [k, v] => .ok (k, v)
      | .ok items => throw (.unsuitable
          (s!"dictionary update sequence element #{i} has length {items.length}; " ++
            "2 is required"))
      | .error _ => throw .wrongType

def updated (entries : List (Binding × Binding)) (args : Arguments) :
    Result (List (Binding × Binding)) := do
  let more ← match args.placed with
    | [] => .ok []
    | [b] => entriesOf b
    | _ => throw .wrongType
  let entries ← Binding.setEntries reg entries more
  Binding.setEntries reg entries (args.keywords.map fun (name, b) => (Binding.ofText name, b))

def pair (e : Binding × Binding) : Binding := .row [e.1, e.2]

def callDictionary? (entries : List (Binding × Binding)) (name : String) (args : Arguments) :
    Option (Result Effect) :=
  let dictionary (entries : List (Binding × Binding)) : Effect :=
    .become (ofEntries entries)
  let value? (key : Binding) : Result (Option Binding) :=
    if key.isKey then Binding.entryOf? reg key entries else .error .wrongType
  let listing (form : String) (items : List Binding) : Option (Result Effect) := some do
    args.none
    .ok (.pure (.listing form items))
  match name with
  | "get" => some do
    match ← args.between 1 2 with
    | key :: rest => do .ok (.pure ((← value? key).getD (rest.headD nothing)))
    | [] => throw .wrongType
  | "items" => listing "dict_items" (entries.map pair)
  | "keys" => listing "dict_keys" (entries.map (·.1))
  | "values" => listing "dict_values" (entries.map (·.2))
  | "pop" => some do
    match ← args.between 1 2 with
    | key :: rest => do
      -- An empty dictionary is not searched.
      match ← if entries.isEmpty then .ok none else value? key, rest with
      | some b, _ => do
        let rest ← Binding.eraseEntry reg key entries
        .ok { answer := b, owner? := some (ofEntries rest) }
      | none, b :: _ => .ok (.pure b)
      | none, [] => throw .unknownEntry
    | [] => throw .wrongType
  | "popitem" => some do
    args.none
    match entries.getLast? with
    | some e => .ok { answer := pair e, owner? := some (ofEntries entries.dropLast) }
    | none => throw .unknownEntry
  | "setdefault" => some do
    match ← args.between 1 2 with
    | key :: rest => do
      match ← value? key with
      | some b => .ok (.pure b)
      | none =>
        let b := rest.headD nothing
        .ok { answer := b, owner? := some (ofEntries (entries ++ [(key, b)])) }
    | [] => throw .wrongType
  | "update" => some do .ok (dictionary (← updated reg entries args))
  | "copy" => some do
    args.none
    .ok (.pure (ofEntries entries))
  | "clear" => some do
    args.none
    .ok (dictionary [])
  | _ => none

end CollectionMethod

end Protobind

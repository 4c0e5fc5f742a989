import Protobind.Script.Grammar
import Protobind.Session.Support

/-!
# Calls

A class makes an instance, a function is run over its arguments, and a method answers for its owner.
Some functions call others that they are given.
-/

namespace Protobind

open Dictionary

/-! ## Parameters -/

def Parameter.isPlaced {α : Type} (p : Parameter α) : Bool := p.form == .placed || p.form == .plain

def Parameter.isNamed {α : Type} (p : Parameter α) : Bool := p.form == .plain || p.form == .named

def bindParameters (params : List (Parameter Binding)) (args : Arguments) : Result Namespace := do
  let placed := params.filter Parameter.isPlaced
  let byPlace := (placed.map (·.name)).zip args.placed
  let rest := args.placed.drop placed.length
  let rest? := params.find? (·.form == .rest)
  if !rest.isEmpty && rest?.isNone then throw .wrongType
  let isFree (word : String) : Bool :=
    params.any (fun p => p.isNamed && p.name == word) && !contains word byPlace
  let byName := args.keywords.filter fun (word, _) => isFree word
  let others := args.keywords.filter fun (word, _) => !isFree word
  let keywords? := params.find? (·.form == .keywords)
  if !others.isEmpty && keywords?.isNone then throw .wrongType
  -- An argument may have the name of a parameter only if the parameter takes none by name.
  if others.any fun (word, _) => params.any fun p => p.isNamed && p.name == word then
    throw .wrongType
  let given := byPlace ++ byName
  let single ← (params.filter fun p => p.isPlaced || p.isNamed).mapM fun p =>
    match (get? p.name given).or p.default? with
    | some b => Except.ok (p.name, b)
    | none => .error .wrongType
  let several := (rest?.map fun p => (p.name, Binding.row rest)).toList ++
    (keywords?.map fun p => (p.name, Binding.ofEntries (others.map fun (word, b) =>
      (Binding.ofText word, b)))).toList
  pure (single ++ several)

namespace Call

open Evaluation

variable (m : Machine)

/-! ## Classes -/

def instanceOf (reg : Registry) (id : ClassId) (args : List Value)
    (keywords : List (String × Value)) : Result Value := do
  match args with
  | [] => reg.call (.type id) none keywords
  | [v] => reg.call (.type id) (some v) keywords
  | v :: more =>
    match reg.messageType? id with
    | none => throw .wrongType
    | some t =>
      let names := (t.params.drop 1).map (·.name)
      if names.length < more.length then throw .wrongType
      let given := names.zip more
      if given.any fun (name, _) => contains name keywords then throw .wrongType
      reg.call (.type id) (some v) (given ++ keywords)

def instantiate (id : ClassId) (args : Arguments) : Evaluation Binding := do
  match Binding.plainItems? args.placed, Binding.plainItems? (args.keywords.map (·.2)) with
  | some vs, some ks => do
    pure (.value (← askRegistry fun reg => instanceOf reg id vs ((args.keywords.map (·.1)).zip ks)))
  | _, _ => pure .hidden

/-! ## Functions that call others -/

def keyed (key? : Option Binding) (items : List Binding) : Evaluation (List (Binding × Binding)) :=
  match key? with
  | none | some (.value .null) => pure (items.map fun b => (b, b))
  | some f => items.mapM fun b => do pure (← m.answer f [b], b)

def sortedBy (items : List Binding) (keywords : List (String × Binding)) :
    Evaluation (List Binding) := do
  if keywords.any fun (word, _) => word != "key" && word != "reverse" then throw .wrongType
  let pairs ← keyed m (get? "key" keywords) items
  let descending ← match get? "reverse" keywords with
    | some b => do pure ((← give b.asInt) != 0)
    | none => pure false
  askRegistry fun reg => Binding.sorted reg descending pairs

def extreme (reg : Registry) (sign : ComparisonSign) :
    Binding × Binding → List (Binding × Binding) → Result Binding
  | best, [] => .ok best.2
  | best, b :: bs => do
    extreme reg sign (if ← Binding.ordered reg sign b.1 best.1 then b else best) bs

def choose (name : String) (sign : ComparisonSign) (args : Arguments) : Evaluation Binding := do
  if args.keywords.any fun (word, _) => word != "key" && word != "default" then throw .wrongType
  let default? := get? "default" args.keywords
  let items ← match args.placed with
    | [] => throw .wrongType
    | [b] => give b.items
    | bs => if default?.isSome then throw .wrongType else pure bs
  match ← keyed m (get? "key" args.keywords) items, default? with
  | first :: rest, _ => askRegistry fun reg => extreme reg sign first rest
  | [], some b => pure b
  | [], none => throw (.noElement name)

def scoped? (path : String) (args : Arguments) : Option (Evaluation Called) :=
  let plain (e : Evaluation Binding) : Option (Evaluation Called) := some do
    pure { answer := ← e }
  match path with
  | "sorted" => plain do
    match args.placed with
    | [b] => do pure (Binding.ofItems (← sortedBy m (← give b.items) args.keywords))
    | _ => throw .wrongType
  | "min" => plain (choose m "min" .less args)
  | "max" => plain (choose m "max" .greater args)
  | _ => none

/-! ## Methods -/

def method (owner : Binding) (name : String) (args : Arguments) : Evaluation Called := do
  let reg ← registry
  match owner.view, name with
  | .extension ext, "info" => do
    give args.none
    pure { answer := .field (← give ext.field) }
  | .type id, _ => do pure { answer := ← give (Method.callOfType reg id name args) }
  | .builtin path, _ =>
    if Builtin.isClass path then do
      pure { answer := ← give (Method.callOfClass reg path name args) }
    else if name == "__call__" then m.call owner args
    else pure { answer := .hidden }
  | .closure .., "__call__" => m.call owner args
  | _, _ =>
    match Method.callOn reg owner name args with
    | .error .notShowable => pure { answer := .hidden }
    | effect =>
      let effect ← give effect
      pure { answer := effect.answer, owner? := effect.owner? }

/-! ## Calls -/

def changesOf (params : List (Parameter Binding)) (count : Nat) (r : Remains) :
    List (Nat × Binding) :=
  let placed := ((params.filter Parameter.isPlaced).take count).map (·.name)
  placed.zipIdx.filterMap fun (name, i) =>
    if r.rebound.contains name then none
    else (get? name r.names).map fun b => (i, b)

def closure (module : Nat) (params : List (Parameter Binding)) (own : List String)
    (body : Expression) (captured : Namespace) (around : List Nat) (args : Arguments) :
    Evaluation Called := do
  let names ← give (bindParameters params args)
  let owned := params.map (·.name) ++ own
  let (answer, r) ← within { module, names, owned, captured, around } (m.run body)
  pure { answer, changes := changesOf params args.placed.length r }

def thing (b : Binding) (args : Arguments) : Evaluation Called := do
  match b with
  | .type id => do pure { answer := ← instantiate id args }
  | .builtin path =>
    match scoped? m path args with
    | some called => called
    | none =>
      if path.startsWith "proto." then Support.call (Builtin.lastName path) args
      else do pure { answer := ← giveHidden (Function.call (← registry) path args) }
  | .method owner name => method m owner name args
  | .closure module params own body names around =>
    closure m module params own body names around args
  | .hidden | .function .. => pure { answer := .hidden }
  | _ => throw .wrongType

end Call

end Protobind

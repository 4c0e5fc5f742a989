import Protobind.Session.Call

/-!
# The meaning of expressions

What expressions mean while a module is loaded, and later, when the methods of its classes are
called. Operands are evaluated from left to right, and only those that count.
-/

namespace Protobind

def Expression.isPlace : Expression → Bool
  | .name _ => true
  | .member e _ => isPlace e
  | .part e key =>
    isPlace e && match key with
      | .name _ | .integer _ | .text _ | .truth _ | .bytes _ | .nothing => true
      | _ => false
  | _ => false

namespace Meaning

open Evaluation

variable (m : Machine)

/-! ## Collections -/

def collected (reg : Registry) (form : CollectionForm) (w : Binding.Walk) : Result Binding :=
  match form, w.fault? with
  | .stream, _ => .ok (.stream w.items w.fault?)
  | _, some fault => .error fault
  | .row, none => .ok (.row w.items)
  | .list, none => .ok (Binding.ofItems w.items)
  | .set, none => Binding.ofElements reg false w.items

def keywordsOf (b : Binding) : Result (List (String × Binding)) :=
  match b.entries? with
  | some entries => entries.mapM fun
    | (.value (.text name), b) => .ok (name, b)
    | _ => .error .wrongType
  | none => .error .wrongType

def argumentsOf (placed : List Binding) (keywords : List (String × Binding)) : Result Arguments :=
  if decide (keywords.map (·.1)).Nodup then .ok { placed, keywords } else .error .wrongType

def filledIn (reg : Registry) (b : Binding) (conversion? : Option Char) (layout : Binding) :
    Result Binding := do
  let b ← match conversion? with
    | some letter => do pure (Binding.ofText (← b.converted reg letter))
    | none => pure b
  let spec ← if layout.isNothing then pure "" else layout.asText
  pure (Binding.ofText (← b.laidOut reg spec))

def joined (pieces : List Binding) : Binding :=
  match pieces.mapM Binding.asText with
  | .ok texts => Binding.ofText (String.join texts)
  | .error _ => .hidden

def cutAtStar (targets : List Expression) (items : List Binding) : List Binding :=
  let before := (targets.takeWhile fun e => !e.isStarred).length
  let behind := targets.length - before - 1
  let middle := items.length - before - behind
  items.take before ++ [Binding.ofItems ((items.drop before).take middle)] ++
    items.drop (before + middle)

def dealt (targets : List Expression) (items : List Binding) : Result (List Binding) :=
  let starred := targets.any Expression.isStarred
  let wanted := targets.length
  if starred then
    if items.length + 1 < wanted then
      .error (.unsuitable
        (s!"not enough values to unpack (expected at least {wanted - 1}, " ++
          s!"got {items.length})"))
    else .ok (cutAtStar targets items)
  else if items.length < wanted then
    .error (.unsuitable s!"not enough values to unpack (expected {wanted}, got {items.length})")
  else if wanted < items.length then
    .error (.unsuitable s!"too many values to unpack (expected {wanted})")
  else .ok items

mutual

def namesGiven : Expression → Binding → Result Namespace
  | .name n, b => .ok [(n, b)]
  | .starred e, b => namesGiven e b
  | .collection _ targets, b => do
    let items ← b.items
    allNamesGiven targets (← dealt targets items)
  | _, _ => .error .notShowable

def allNamesGiven : List Expression → List Binding → Result Namespace
  | [], _ => .ok []
  | _ :: _, [] => .ok []
  | e :: es, b :: bs => do
    let names ← namesGiven e b
    let more ← allNamesGiven es bs
    pure (names ++ more)

end

/-! ## Expressions -/

mutual

def evaluate (names : Namespace) : Expression → Evaluation Binding
  | .nothing => pure Binding.nothing
  | .ellipsis => pure (.builtin "Ellipsis")
  | .truth b => pure (Binding.ofBool b)
  | .integer n => pure (Binding.ofInt n)
  | .number d => pure (.value (.float d))
  | .imaginary d => pure (.complex Double.zero d)
  | .text t => pure (Binding.ofText t)
  | .bytes bs => pure (.value (.bytes bs))
  | .template parts => do pure (joined (← evaluateItems names parts))
  | .hole value conversion? layout? => do
    let b ← evaluate names value
    let layout ← evaluateOptional names layout?
    giveHidden (filledIn (← registry) b conversion? layout)
  | .hidden | .slice .. => pure .hidden
  | .name n => lookup names n
  | .named n e => do
    let b ← evaluate names e
    bind n b
    pure b
  | .function params own hands body => do
    let params ← evaluateParameters names params
    if hands then pure .hidden
    else pure (.closure (← get).module params own body (← capturing names) (← surroundings))
  | .member e n => do
    let b ← evaluate names e
    ask fun s => s.memberIn b n
  | .unary sign e => do give (Binding.behind sign (← evaluate names e))
  | .binary sign a b => do
    let a ← evaluate names a
    let b ← evaluate names b
    giveHidden (Binding.joined (← registry) sign a b)
  | .negation e => do
    let b ← evaluate names e
    pure (Binding.ofBool !b.truthy)
  | .both a b => do
    let a ← evaluate names a
    if a.truthy then evaluate names b else pure a
  | .either a b => do
    let a ← evaluate names a
    if a.truthy then pure a else evaluate names b
  | .comparison first rest => do
    let left ← evaluate names first
    pure (Binding.ofBool (← evaluateChain names first.name? left rest))
  | .choice test yes no => do
    let test ← evaluate names test
    if test.truthy then evaluate names yes else evaluate names no
  | .starred e => evaluate names e
  | .collection form items => do
    let items ← evaluateItems names items
    askRegistry fun reg => collected reg form { items }
  | .dictionary entries => do
    let entries ← evaluateEntries names entries
    pure (Binding.ofEntries (← askRegistry fun reg => Binding.setEntries reg [] entries))
  | .part e (.slice lower? upper? step?) => do
    let b ← evaluate names e
    let lower ← evaluateOptional names lower?
    let upper ← evaluateOptional names upper?
    let step ← evaluateOptional names step?
    give (b.sliced lower upper step)
  | .part e key => do
    let b ← evaluate names e
    let key ← evaluate names key
    askRegistry fun reg => b.part reg key
  | .call (.member e n) args keywords => do
    let owner ← evaluate names e
    let f ← ask fun s => s.memberIn owner n
    let placed ← evaluateItems names args
    let keywords ← evaluateKeywords names keywords
    -- The arguments may have changed the owner.
    let f ← if e.isPlace && !args.isEmpty then do
        let owner ← evaluate names e
        ask fun s => s.memberIn owner n
      else pure f
    let called ← m.call f (← give (argumentsOf placed keywords))
    match called.owner? with
    | some new => if e.isPlace then store names true e new
    | none => pure ()
    storeAll names called.changes 0 args
    pure called.answer
  | .call f args keywords => do
    let f ← evaluate names f
    let placed ← evaluateItems names args
    let keywords ← evaluateKeywords names keywords
    let called ← m.call f (← give (argumentsOf placed keywords))
    storeAll names called.changes 0 args
    pure called.answer
  | .comprehension form key? element clauses => do
    match key? with
    | none => do
      let w ← gather names (fun names => evaluate names element) true clauses
      askRegistry fun reg => collected reg form w
    | some key => do
      let entry (names : Namespace) : Evaluation Binding := do
        let k ← evaluate names key
        let b ← evaluate names element
        pure (.row [k, b])
      let w ← gather names entry true clauses
      match w.fault? with
      | some fault => throw fault
      | none =>
        let entries := w.items.filterMap fun
          | .row [k, b] => some (k, b)
          | _ => none
        pure (Binding.ofEntries (← askRegistry fun reg => Binding.setEntries reg [] entries))

def evaluateOptional (names : Namespace) : Option Expression → Evaluation Binding
  | none => pure Binding.nothing
  | some e => evaluate names e

def evaluateParameters (names : Namespace) :
    List (Parameter Expression) → Evaluation (List (Parameter Binding))
  | [] => pure []
  | ⟨form, name, default?⟩ :: rest => do
    let default? ← match default? with
      | some e => do pure (some (← evaluate names e))
      | none => pure none
    let more ← evaluateParameters names rest
    pure ({ form, name, default? } :: more)

def evaluateItems (names : Namespace) : List Expression → Evaluation (List Binding)
  | [] => pure []
  | .starred e :: rest => do
    let items ← give (← evaluate names e).items
    let more ← evaluateItems names rest
    pure (items ++ more)
  | e :: rest => do
    let b ← evaluate names e
    let more ← evaluateItems names rest
    pure (b :: more)

def evaluateEntries (names : Namespace) :
    List (Option Expression × Expression) → Evaluation (List (Binding × Binding))
  | [] => pure []
  | (none, e) :: rest => do
    let b ← evaluate names e
    match b.entries? with
    | some entries =>
      let more ← evaluateEntries names rest
      pure (entries ++ more)
    | none => throw .wrongType
  | (some key, e) :: rest => do
    let k ← evaluate names key
    let b ← evaluate names e
    if !k.isKey then throw .wrongType
    let more ← evaluateEntries names rest
    pure ((k, b) :: more)

def evaluateKeywords (names : Namespace) :
    List (Option String × Expression) → Evaluation (List (String × Binding))
  | [] => pure []
  | (none, e) :: rest => do
    let entries ← give (keywordsOf (← evaluate names e))
    let more ← evaluateKeywords names rest
    pure (entries ++ more)
  | (some name, e) :: rest => do
    let b ← evaluate names e
    let more ← evaluateKeywords names rest
    pure ((name, b) :: more)

def evaluateChain (names : Namespace) (name? : Option String) (left : Binding) :
    List (ComparisonSign × Expression) → Evaluation Bool
  | [] => pure true
  | (sign, e) :: rest => do
    let right ← evaluate names e
    let holds ← match sign, name?.isSome && name? == e.name? with
      | .same, true => pure true
      | .different, true => pure false
      | _, _ => askRegistry fun reg => Binding.compared reg sign left right
    if holds then evaluateChain names e.name? right rest else pure false

def evaluateConditions (names : Namespace) : List Expression → Evaluation Bool
  | [] => pure true
  | e :: rest => do
    let b ← evaluate names e
    if b.truthy then evaluateConditions names rest else pure false

def gather (names : Namespace) (element : Namespace → Evaluation Binding) (isFirst : Bool) :
    List (Expression × Expression × List Expression) → Evaluation Binding.Walk
  | [] => do
    try
      let b ← element names
      pure { items := [b] }
    catch fault => pure { items := [], fault? := some fault }
  | (target, source, conditions) :: rest => do
    let start : Evaluation Binding.Walk := do give (← evaluate names source).walk
    let w ← if isFirst then start
      else
        try start
        catch fault => pure { items := [], fault? := some fault }
    let turn (w : Binding.Walk) (b : Binding) : Evaluation Binding.Walk := do
      if w.fault?.isSome then pure w
      else
        let more ← try
            let names := (← give (namesGiven target b)) ++ names
            if ← evaluateConditions names conditions then gather names element false rest
            else pure { items := [] }
          catch fault => pure { items := [], fault? := some fault }
        pure { items := w.items ++ more.items, fault? := more.fault? }
    let all ← w.items.foldlM turn { items := [] }
    pure { all with fault? := all.fault?.or w.fault? }

/-- Puts something in the place that an expression means; `isChange` tells that it is what was there
before, after a change. -/
def store (names : Namespace) (isChange : Bool) : Expression → Binding → Evaluation Unit
  | .name n, b =>
    if names.contains n then pure () else if isChange then amend n b else bind n b
  | .member e n, b => do
    let owner ← evaluate names e
    match ← become owner n b with
    | some new => if e.isPlace then store names true e new
    | none => pure ()
  | .part e (.slice lower? upper? step?), b => do
    let owner ← evaluate names e
    let lower ← evaluateOptional names lower?
    let upper ← evaluateOptional names upper?
    let step ← evaluateOptional names step?
    let new ← give (owner.setSlice lower upper step b)
    if e.isPlace then store names true e new
  | .part e key, b => do
    let owner ← evaluate names e
    let key ← evaluate names key
    let new ← askRegistry fun reg => owner.setPart reg key b
    if e.isPlace then store names true e new
  | .starred e, b => store names isChange e b
  | .collection _ targets, b => do
    let items ← give b.items
    storeItems names targets (← give (dealt targets items))
  | _, _ => throw .notShowable

def storeItems (names : Namespace) : List Expression → List Binding → Evaluation Unit
  | [], _ => pure ()
  | _ :: _, [] => pure ()
  | e :: es, b :: bs => do
    store names false e b
    storeItems names es bs

def storeAll (names : Namespace) (changes : List (Nat × Binding)) (place : Nat) :
    List Expression → Evaluation Unit
  | [] => pure ()
  | e :: rest => do
    match changes.lookup place with
    | some b => if e.isPlace then store names true e b
    | none => pure ()
    storeAll names changes (place + 1) rest

end

end Meaning

end Protobind

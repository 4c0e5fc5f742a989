import Protobind.Object.View

/-!
# Comparing things

Numbers are compared by value, collections element by element, where an element equals itself. What
has no order can still be told apart.
-/

namespace Protobind.Binding

/-! ## Keys -/

/-- Whether this may be a key of a dictionary, over at most `fuel` levels of nesting. -/
def isKeyIn : Nat → Binding → Bool
  | 0, _ => false
  | fuel + 1, b =>
    match b.view with
    | .value v => v.isKey
    | .row items => items.all (isKeyIn fuel)
    | .range first last => isKeyIn fuel first && isKeyIn fuel last
    | .set _ fixed => fixed
    | .list _ | .dictionary _ => false
    | _ => true

def isKey (b : Binding) : Bool := isKeyIn maxDepth b

/-! ## Equality -/

def equalComplex (a b : Quantity) : Bool :=
  match a, b with
  | .complex re im, .complex re' im' => re.equal re' && im.equal im'
  | .complex re im, .real d | .real d, .complex re im => re.equal d && im.isZero
  | .complex re im, .whole n | .whole n, .complex re im => re.equalInt n && im.isZero
  | _, _ => false

def anyPass (test : Binding → Result Bool) : List Binding → Result Bool
  | [] => .ok false
  | b :: bs => do if ← test b then pure true else anyPass test bs

def allPass (test : Binding → Binding → Result Bool) : List Binding → List Binding → Result Bool
  | [], [] => .ok true
  | a :: as, b :: bs => do if ← test a b then allPass test as bs else pure false
  | _, _ => .ok false

def allFound (test : Binding → Binding → Result Bool) (others : List (Binding × Binding)) :
    List (Binding × Binding) → Result Bool
  | [] => .ok true
  | (k, v) :: rest => do
    match ← find others k with
    | some w => do if ← test v w then allFound test others rest else pure false
    | none => pure false
where
  find : List (Binding × Binding) → Binding → Result (Option Binding)
    | [], _ => .ok none
    | (k, v) :: rest, key => do if ← test k key then pure (some v) else find rest key

/-- Whether two things are one object, as far as that can be told: numbers, texts and byte strings
are one object when they are the same. -/
def sameIn (reg : Registry) : Nat → Binding → Binding → Result Bool
  | 0, _, _ => .ok false
  | fuel + 1, a, b =>
    match a.view, b.view with
    | .value .nan, .value .nan => .ok true
    | .value .null, .value .null => .ok true
    | .value (.bool a), .value (.bool b) => .ok (a == b)
    | .value (.int a), .value (.int b) => .ok (a == b)
    | .value (.float a), .value (.float b) => .ok (a == b && !a.isNaN)
    | .value (.text a), .value (.text b) => .ok (a == b)
    | .value (.bytes a), .value (.bytes b) => .ok (a == b)
    | .value (.enum t m), .value (.enum u n) => .ok (t == u && m == n)
    | .row as, .row bs =>
      if as.length = bs.length then allPass (sameIn reg fuel) as bs else .ok false
    | .type a, .type b => .ok (a == b)
    | .module a, .module b => .ok (a == b)
    | .support a, .support b | .builtin a, .builtin b => .ok (a == b)
    | .extension a, .extension b => .ok (a == b)
    | _, _ => .ok false

variable (reg : Registry)

def same (a b : Binding) : Result Bool := sameIn reg maxDepth a b

def equalIn (reg : Registry) : Nat → Binding → Binding → Result Bool
  | 0, _, _ => .error (.raised "RecursionError" "")
  | fuel + 1, a, b =>
    let found (a b : Binding) : Result Bool := do
      if ← same reg a b then pure true else equalIn reg fuel a b
    match a.view, b.view with
    | .list as, .list bs => if as.length = bs.length then allPass found as bs else .ok false
    | .dictionary as, .dictionary bs =>
      if as.length = bs.length then allFound found bs as else .ok false
    | .numbers a b c, .numbers d e f =>
      let n := countNumbers a b c
      .ok (n == countNumbers d e f && (n == 0 || a == d && (n == 1 || c == f)))
    | .method a m, .method b n => do if m == n then found a b else pure false
    | .complex re im, other | other, .complex re im =>
      .ok ((other.quantity.toOption.map (equalComplex (.complex re im))).getD false)
    | .value v, .value w => equalValues reg false v w
    | v, w =>
      match v.rowItems?, w.rowItems? with
      | some as, some bs => if as.length = bs.length then allPass found as bs else .ok false
      | _, _ =>
        match v.setItems?, w.setItems? with
        | some as, some bs =>
          if as.length = bs.length then do
            pure ((← as.mapM fun a => anyPass (found a) bs).all id)
          else .ok false
        | _, _ => same reg v w

def equal (a b : Binding) : Result Bool := equalIn reg maxDepth a b

def found (a b : Binding) : Result Bool := do
  if ← same reg a b then pure true else equal reg a b

def anyEqual (b : Binding) (bs : List Binding) : Result Bool :=
  anyPass (fun c => found reg c b) bs

/-! ## Sets and dictionaries -/

def addAll (reg : Registry) (known : List Binding) : List Binding → Result (List Binding)
  | [] => .ok known
  | b :: bs => do
    if !b.isKey then throw .wrongType
    if ← anyEqual reg b known then addAll reg known bs else addAll reg (known ++ [b]) bs

def setOrder (a b : Binding) : Bool :=
  match a.asInt, b.asInt with
  | .ok m, .ok n => m ≤ n
  | _, _ => true

def insertInSet (b : Binding) : List Binding → List Binding
  | [] => [b]
  | c :: cs => if setOrder b c then b :: c :: cs else c :: insertInSet b cs

def ofElements (fixed : Bool) (items : List Binding) : Result Binding := do
  let items ← addAll reg [] items
  let ascending := items.all fun b => match b.asInt with
    | .ok n => 0 ≤ n
    | .error _ => false
  pure (.set (if ascending then items.foldr insertInSet [] else items) fixed)

def entryOf? (reg : Registry) (key : Binding) : List (Binding × Binding) → Result (Option Binding)
  | [] => .ok none
  | (k, v) :: rest => do if ← found reg k key then pure (some v) else entryOf? reg key rest

/-- A dictionary with another value under a key; a key that is there keeps its form and place. -/
def setEntry (reg : Registry) (key b : Binding) :
    List (Binding × Binding) → Result (List (Binding × Binding))
  | [] => if key.isKey then .ok [(key, b)] else .error .wrongType
  | (k, v) :: rest => do
    if !key.isKey then throw .wrongType
    if ← found reg k key then pure ((k, b) :: rest)
    else pure ((k, v) :: (← setEntry reg key b rest))

def setEntries (reg : Registry) (known : List (Binding × Binding)) :
    List (Binding × Binding) → Result (List (Binding × Binding))
  | [] => .ok known
  | (k, v) :: rest => do setEntries reg (← setEntry reg k v known) rest

def eraseEntry (reg : Registry) (key : Binding) :
    List (Binding × Binding) → Result (List (Binding × Binding))
  | [] => .ok []
  | (k, v) :: rest => do
    if ← found reg k key then pure rest else pure ((k, v) :: (← eraseEntry reg key rest))

/-! ## Order -/

def orderIn (reg : Registry) : Nat → Binding → Binding → Result (Option Ordering)
  | 0, _, _ => .error (.raised "RecursionError" "")
  | fuel + 1, a, b =>
    let rec items : List Binding → List Binding → Result (Option Ordering)
      | [], [] => .ok (some .eq)
      | [], _ :: _ => .ok (some .lt)
      | _ :: _, [] => .ok (some .gt)
      | a :: as, b :: bs => do
        if ← found reg a b then items as bs else orderIn reg fuel a b
    match a.view, b.view with
    | .list as, .list bs => items as bs
    | .value v, .value w => Value.order v w
    | v, w =>
      match v.rowItems?, w.rowItems? with
      | some as, some bs => items as bs
      | _, _ => .error .wrongType

def order (a b : Binding) : Result (Option Ordering) :=
  orderIn reg maxDepth a b

def allAmong (reg : Registry) (others : List Binding) : List Binding → Result Bool
  | [] => .ok true
  | b :: bs => do if ← anyEqual reg b others then allAmong reg others bs else pure false

def comparedSets (sign : ComparisonSign) (as bs : List Binding) : Result Bool := do
  match sign with
  | .less => if as.length < bs.length then allAmong reg bs as else .ok false
  | .greater => if bs.length < as.length then allAmong reg as bs else .ok false
  | .atMost => allAmong reg bs as
  | _ => allAmong reg as bs

def ordered (sign : ComparisonSign) (a b : Binding) : Result Bool := do
  match a.setItems?, b.setItems? with
  | some as, some bs => comparedSets reg sign as bs
  | _, _ =>
    let o ← order reg a b
    match sign with
    | .less => pure (o == some .lt)
    | .greater => pure (o == some .gt)
    | .atMost => pure (o == some .lt || o == some .eq)
    | _ => pure (o == some .gt || o == some .eq)

/-! ## Comparisons -/

def amongNumbers (first stop step n : Int) : Bool :=
  let inside := if step < 0 then stop < n && n ≤ first else first ≤ n && n < stop
  inside && Int.fmod (n - first) step == 0

def within (part owner : Binding) : Result Bool :=
  match owner.view with
  | .dictionary entries =>
    if part.isKey then do pure (← entryOf? reg part entries).isSome else .error .wrongType
  | .set items _ =>
    -- A set is looked up by the elements that it has now.
    if part.isKey || part.setItems?.isSome then anyEqual reg part items else .error .wrongType
  | .numbers first stop step =>
    match part.asInt with
    | .ok n => .ok (amongNumbers first stop step n)
    | .error _ => do anyEqual reg part (← owner.items)
  | .value (.text s) => do (Value.text s).hasPart (← part.asValue)
  | .value (.bytes bs) => do (Value.bytes bs).hasPart (← part.asValue)
  | _ => do
    let w ← owner.walk
    if ← anyEqual reg part w.items then pure true
    else
      match w.fault? with
      | some fault => throw fault
      | none => pure false

def compared (sign : ComparisonSign) (a b : Binding) : Result Bool :=
  match sign with
  | .less | .greater | .atMost | .atLeast => ordered reg sign a b
  | .equal => equal reg a b
  | .unequal => do pure (!(← equal reg a b))
  | .within => within reg a b
  | .outside => do pure (!(← within reg a b))
  | .same => same reg a b
  | .different => do pure (!(← same reg a b))

/-! ## Sorting -/

def insertByKey (reg : Registry) (b : Binding × Binding) :
    List (Binding × Binding) → Result (List (Binding × Binding))
  | [] => .ok [b]
  | c :: rest => do
    if ← ordered reg .less b.1 c.1 then pure (b :: c :: rest)
    else pure (c :: (← insertByKey reg b rest))

def sortByKey (reg : Registry) (known : List (Binding × Binding)) :
    List (Binding × Binding) → Result (List (Binding × Binding))
  | [] => .ok known
  | b :: bs => do sortByKey reg (← insertByKey reg b known) bs

def sorted (descending : Bool) (items : List (Binding × Binding)) :
    Result (List Binding) := do
  if descending then pure ((← sortByKey reg [] items.reverse).map (·.2)).reverse
  else pure ((← sortByKey reg [] items).map (·.2))

end Protobind.Binding

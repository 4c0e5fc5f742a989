import Protobind.Script.Token

/-!
# Steps of reading

A step takes tokens from the front, or fails. Reading also notes what can be read but not compiled.
-/

namespace Protobind

/-- The tokens that are left, and what may stand among them. -/
structure Reading where
  tokens : List Token
  fuel : Nat
  compiles : Bool := true
  inFunction : Bool := false
  mayWait : Bool := false
  inLoop : Bool := false
  given : List String := []
  inSource : Bool := false
  /-- The number of places that wait in a function that may not, and in no comprehension that is
  worked off later. -/
  waiting : Nat := 0
  waitingSources : Nat := 0
  hands : Nat := 0
  handsSources : Nat := 0
  answers : Bool := false
  inGroup : Bool := false

/-- A step of reading. -/
abbrev Parse := StateT Reading Option

namespace Parse

def weight : Token → Nat
  | .template _ body => body.length + 2
  | _ => 1

def start (tokens : List Token) : Reading :=
  { tokens, fuel := tokens.foldl (fun n token => n + weight token) 1 }

def peek : Parse (Option Token) := do pure (← get).tokens.head?

def skip : Parse Unit := modify fun r => { r with tokens := r.tokens.drop 1 }

def isNext (token : Token) : Parse Bool := do pure ((← peek) == some token)

def accept (token : Token) : Parse Bool := do
  if ← isNext token then
    skip
    pure true
  else pure false

def expect (token : Token) : Parse Unit := do if !(← accept token) then failure

def word : Parse String := do
  match ← peek with
  | some (.word w) =>
    skip
    pure w
  | _ => failure

def require (condition : Bool) : Parse Unit :=
  modify fun r => { r with compiles := r.compiles && condition }

def collect {α : Type} (step : Parse (Option α)) : Nat → Parse (List α)
  | 0 => pure []
  | fuel + 1 => do
    match ← step with
    | none => pure []
    | some a => do pure (a :: (← collect step fuel))

def all {α : Type} (step : Parse (Option α)) : Parse (List α) := do
  collect step (← get).fuel

/-- What a list goes on with up to a closing mark, a comma in front of each element. -/
def restOf {α : Type} (item : Parse α) (closing : String) : Parse (List α) := do
  let step : Parse (Option α) := do
    if ← isNext (.mark closing) then pure none
    else
      expect (.mark ",")
      if ← isNext (.mark closing) then pure none else pure (some (← item))
  let items ← all step
  expect (.mark closing)
  pure items

/-- Reads something in a scope of its own, behind which what is known of the scope around it holds
again. -/
def apart {α : Type} (start : Reading → Reading) (step : Parse α) : Parse α := do
  let before ← get
  set { start before with inLoop := false, inGroup := false }
  let a ← step
  modify fun r =>
    { before with tokens := r.tokens, compiles := r.compiles }
  pure a

/-- Reads something inside a function, which may wait or not; the names that get values there, and
whether it hands out values, are told with it. -/
def inside {α : Type} (waits : Bool) (step : Parse α) : Parse (α × List String × Bool) :=
  let start (r : Reading) : Reading :=
    { r with
      inFunction := true, mayWait := waits, waiting := 0, hands := 0, answers := false, given := [] }
  apart start do
    let a ← step
    let r ← get
    require (r.waiting == 0 && !(waits && r.hands != 0 && r.answers))
    pure (a, r.given, r.hands != 0)

def wait : Parse Unit :=
  modify fun r => if r.mayWait then r else { r with waiting := r.waiting + 1 }

/-- Reads what a comprehension takes its elements from, in which no value may get a name. -/
def source {α : Type} (isFirst : Bool) (step : Parse α) : Parse α := do
  let before ← get
  set { before with inSource := true }
  let a ← step
  modify fun r =>
    { r with
      inSource := before.inSource
      waitingSources := before.waitingSources + (r.waiting - before.waiting)
      handsSources := before.handsSources + if isFirst then r.hands - before.hands else 0 }
  pure a

end Parse

end Protobind

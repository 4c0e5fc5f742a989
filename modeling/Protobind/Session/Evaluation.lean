import Protobind.Session.Scope

/-!
# Evaluation

Evaluating an expression may bind names and register classes. What has changed in front of a fault
stays changed.
-/

namespace Protobind

/-- Where an expression is evaluated. -/
structure Scope where
  session : Session
  module : Nat
  frame? : Option Nat := none
  owned : List String := []
  captured : Namespace := []
  around : List Nat := []
  rebound : List String := []
  warnings : List String := []

/-- A step of evaluation. -/
abbrev Evaluation := ExceptT Fault (StateM Scope)

namespace Evaluation

def give {α : Type} (e : Result α) : Evaluation α :=
  match e with
  | .ok a => pure a
  | .error fault => throw fault

def ask {α : Type} (question : Session → Result α) : Evaluation α := do
  give (question (← get).session)

def registry : Evaluation Registry := do pure (← get).session.registry

def askRegistry {α : Type} (question : Registry → Result α) : Evaluation α := do
  give (question (← registry))

def giveHidden (e : Result Binding) : Evaluation Binding :=
  match e with
  | .error .notShowable => pure .hidden
  | e => give e

def setSession (session : Session) : Evaluation Unit := modify fun sc => { sc with session }

def change (f : Registry → Registry × List String) : Evaluation Unit :=
  modify fun sc =>
    let (registry, more) := f sc.session.registry
    { sc with session := { sc.session with registry }, warnings := sc.warnings ++ more }

def frameOf (sc : Scope) (id : Nat) : Namespace := (sc.session.frames[id]?).getD []

def frameNames (sc : Scope) : Namespace := (sc.frame?.map (frameOf sc)).getD []

def binderOf? (sc : Scope) (name : String) : Option Nat :=
  sc.around.find? fun id => (frameOf sc id).contains name

def lookup (names : Namespace) (name : String) : Evaluation Binding := do
  match names.get? name with
  | some b => pure b
  | none =>
    let sc ← get
    match (frameNames sc).get? name with
    | some b => pure b
    | none =>
      if sc.frame?.isSome && sc.owned.contains name then throw .unassignedName
      match sc.captured.get? name, binderOf? sc name with
      | some b, _ => pure b
      | none, some id =>
        match (frameOf sc id).get? name with
        | some b => pure b
        | none => throw .unboundName
      | none, none => give (sc.session.lookup sc.module name)

def modifyFrame (id : Nat) (f : Namespace → Namespace) : Evaluation Unit :=
  modify fun sc =>
    { sc with session := { sc.session with frames := sc.session.frames.modify id f } }

def ownerOf? (sc : Scope) (name : String) : Option Nat :=
  if sc.owned.contains name && sc.frame?.isSome then sc.frame? else binderOf? sc name

def amend (name : String) (b : Binding) : Evaluation Unit := do
  let sc ← get
  match ownerOf? sc name with
  | some id => modifyFrame id (Dictionary.set name b)
  | none => setSession (sc.session.bindName sc.module name b)

def bind (name : String) (b : Binding) : Evaluation Unit := do
  modify fun sc => { sc with rebound := name :: sc.rebound }
  amend name b

def unbind (name : String) : Evaluation Unit := do
  let sc ← get
  match ownerOf? sc name with
  | some id =>
    if (frameOf sc id).contains name then modifyFrame id (Dictionary.erase name)
    else throw .unassignedName
  | none =>
    if (sc.session.namesOf sc.module).contains name then
      set { sc with session :=
        { sc.session with loaded := sc.session.loaded.modify sc.module (Dictionary.erase name) } }
    else throw .unboundName

def capturing (names : Namespace) : Evaluation Namespace := do pure (names ++ (← get).captured)

def surroundings : Evaluation (List Nat) := do
  let sc ← get
  pure (sc.frame?.toList ++ sc.around)

def become (owner : Binding) (name : String) (b : Binding) : Evaluation (Option Binding) := do
  let (session, new?) ← ask fun s => s.setMember owner name b
  setSession session
  pure new?

/-- The names that a function is run with. -/
structure Frame where
  module : Nat
  names : Namespace
  owned : List String
  captured : Namespace
  around : List Nat

/-- What is left of a call: the names that are bound in the end, and those that were bound anew. -/
structure Remains where
  names : Namespace
  rebound : List String

def within {α : Type} (f : Frame) (action : Evaluation α) : Evaluation (α × Remains) := do
  let before ← get
  let id := before.session.frames.size
  set { before with
    session := { before.session with frames := before.session.frames.push f.names }
    module := f.module, frame? := some id, owned := f.owned
    captured := f.captured, around := f.around, rebound := [] }
  let back : Evaluation Unit := modify fun sc =>
    { sc with
      module := before.module, frame? := before.frame?, owned := before.owned
      captured := before.captured, around := before.around, rebound := before.rebound }
  try
    let a ← action
    let sc ← get
    back
    pure (a, { names := frameOf sc id, rebound := sc.rebound })
  catch fault =>
    back
    throw fault

end Evaluation

/-- What a call answers, and what the owner of a method and the arguments, by position, have
become. -/
structure Called where
  answer : Binding
  owner? : Option Binding := none
  changes : List (Nat × Binding) := []

/-- How things are called and expressions are run. -/
structure Machine where
  call : Binding → Arguments → Evaluation Called
  run : Expression → Evaluation Binding

def Machine.answer (m : Machine) (f : Binding) (args : List Binding) : Evaluation Binding := do
  pure (← m.call f { placed := args }).answer

end Protobind

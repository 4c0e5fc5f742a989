import Protobind.Script.Program
import Protobind.Session.Expression

/-!
# Running programs

What the instructions of a program do. Functions call each other to a bounded depth.
-/

namespace Protobind

namespace Execution

open Evaluation Meaning

/-! ## Assignments -/

/-- What a target holds, joined to a value. A list takes the elements of anything. -/
def updated (reg : Registry) (sign : BinarySign) (old b : Binding) : Result Binding :=
  match sign, old.view with
  | .plus, .list items => do pure (Binding.ofItems (items ++ (← b.items)))
  | .or, .dictionary entries => do
    pure (Binding.ofEntries (← Binding.setEntries reg entries (← CollectionMethod.entriesOf b)))
  | _, _ => Binding.joined reg sign old b

def isMutable (b : Binding) : Bool :=
  match b.view with
  | .list _ | .dictionary _ => true
  | .set _ fixed => !fixed
  | _ => false

variable (m : Machine)

/-! ## Instructions -/

def perform : Instruction → Evaluation Unit
  | .evaluate e => do
    let _ ← evaluate m [] e
  | .assign targets e => do
    let b ← evaluate m [] e
    for target in targets do store m [] false target b
  | .update target sign e => do
    let old ← evaluate m [] target
    let b ← evaluate m [] e
    let new ← askRegistry fun reg => updated reg sign old b
    store m [] (isMutable old) target new
  | .declare target note value? => do
    match value? with
    | some e => do
      let b ← evaluate m [] e
      store m [] false target b
    | none => pure ()
    let _ ← evaluate m [] note
  | .delete (.name n) => unbind n
  | .delete _ => throw .notShowable
  | .pass => pure ()
  | .other => throw .notShowable

def performAll : List Instruction → Evaluation Unit
  | [] => pure ()
  | i :: rest => do
    perform m i
    performAll rest

end Execution

/-! ## Machines -/

def Machine.ofDepth : Nat → Machine
  | 0 =>
    { call := fun _ _ => throw (.raised "RecursionError" "")
      run := fun _ => throw (.raised "RecursionError" "") }
  | depth + 1 =>
    let inner := ofDepth depth
    { call := Call.thing inner, run := Meaning.evaluate inner [] }

def Machine.maxDepth : Nat := 990

def Machine.full : Machine := ofDepth maxDepth

namespace Session

/-- What an evaluation gives in a module, and the session behind it, with the warnings of the
registries. -/
def evaluating {α : Type} (s : Session) (module : Nat) (e : Evaluation α) :
    Result α × Session × List String :=
  let (answer, sc) := (e.run { session := s, module }).run
  (answer, sc.session, sc.warnings)

def evaluate (s : Session) (module : Nat) (e : Expression) : Result Binding :=
  (s.evaluating module (Meaning.evaluate Machine.full [] e)).1

def callBinding (s : Session) (module : Nat) (b : Binding) (args : Arguments) : Result Called :=
  (s.evaluating module (Machine.full.call b args)).1

def evaluateSource (s : Session) (module : Nat) (rename : String → String) (source : String) :
    Result Binding :=
  match Expression.parse? rename source with
  | some e => s.evaluate module e
  | none => .error .unboundName

end Session

end Protobind

import Protobind.Message.Attribute
import Protobind.Message.Order
import Protobind.Message.Part

/-!
# Stores of extensions

A message keeps its extensions as raw records by number. The store is an attribute, so another value
may stand in its place; it serves as a store as far as it has the parts asked for.
-/

namespace Protobind

/-- What stands in the place of a store. -/
inductive ExtensionStore where
  | records (extensions : Dictionary Int Bytes)
  | other (v : Value)

namespace ExtensionStore

def written : ExtensionStore → Result Bytes
  | .records extensions => .ok ((sortByNumber extensions).flatMap (·.2))
  | .other v =>
    if !v.truthy then .ok []
    else do
      let records ← (← Value.sorted (← v.items)).mapM fun key => do (← v.part key).asBytes
      pure records.flatten

def size : ExtensionStore → Result Nat
  | .records extensions => .ok (extensions.flatMap (·.2)).length
  | .other v =>
    if !v.truthy then .ok 0
    else
      match v with
      | .map entries => do
        let lengths ← entries.mapM fun (_, raw) => raw.length
        pure (lengths.foldl (· + ·) 0)
      | _ => .error (v.callFault "values")

def add (number : Int) (raw : Bytes) : ExtensionStore → Result ExtensionStore
  | .records extensions =>
    let known := (extensions.get? number).getD []
    .ok (.records (extensions.set number (known ++ raw)))
  | .other v =>
    match v with
    | .map entries => do
      let known ← ((Value.valueOf? (.int number) entries).getD (.bytes [])).asBytes
      pure (.other (.map (Value.setEntry (.int number) (.bytes (known ++ raw)) entries)))
    | _ => .error (v.callFault "get")

def contains (number : Int) : ExtensionStore → Result Bool
  | .records extensions => .ok (extensions.contains number)
  | .other v => v.hasPart (.int number)

def get? (number : Int) : ExtensionStore → Result (Option Value)
  | .records extensions => .ok ((extensions.get? number).map .bytes)
  | .other v =>
    match v with
    | .map entries => .ok ((Value.valueOf? (.int number) entries).filter (!·.isNull))
    | _ => .error (v.callFault "get")

def set (number : Int) (raw : Bytes) : ExtensionStore → Result ExtensionStore
  | .records extensions => .ok (.records (extensions.set number raw))
  | .other v => do pure (.other (← v.setPart (.int number) (.bytes raw)))

def setAll (store : ExtensionStore) : List (Int × Bytes) → ExtensionStore × Option Fault
  | [] => (store, none)
  | (number, raw) :: rest =>
    match store.set number raw with
    | .ok store => store.setAll rest
    | .error fault => (store, some fault)

def erase (number : Int) : ExtensionStore → Result ExtensionStore
  | .records extensions => .ok (.records (extensions.erase number))
  | .other v =>
    match v with
    | .map entries =>
      .ok (.other (.map (entries.filter fun (key, _) => !Value.sameKey key (.int number))))
    | .list _ => .error .wrongType
    | _ => .error (v.callFault "pop")

def value : ExtensionStore → Value
  | .records extensions => extensionsValue extensions
  | .other v => v

end ExtensionStore

namespace Record

variable (m : Message)

def extensionStore? : Option ExtensionStore :=
  match m.get? extensionsAttr with
  | some v => some (.other v)
  | none => m.extensions?.map .records

/-- What is written of the extensions of a message. -/
def writtenExtensions : Result Bytes :=
  match m.extensionStore? with
  | none => .ok []
  | some store => store.written

/-- The size of the extensions of a message. -/
def extensionsSize : Result Nat :=
  match m.extensionStore? with
  | none => .ok 0
  | some store => store.size

def withStore : ExtensionStore → Message
  | .records extensions => { m with extensions? := some extensions }
  | .other v => m.store extensionsAttr v

def unknownValue? : Option Value :=
  (m.get? unknownAttr).or (m.unknown?.map .bytes)

def writtenUnknown : Result Bytes :=
  match m.get? unknownAttr with
  | none => .ok (m.unknown?.getD [])
  | some v => if v.truthy then v.asBytes else .ok []

def unknownSize : Result Nat :=
  match m.get? unknownAttr with
  | none => .ok (m.unknown?.getD []).length
  | some v => if v.truthy then v.length else .ok 0

def addUnknown (raw : Bytes) : Result Message :=
  match m.get? unknownAttr with
  | none => .ok { m with unknown? := m.unknown?.map (· ++ raw) }
  | some v => do pure (m.store unknownAttr (.bytes ((← v.asBytes) ++ raw)))

end Record

end Protobind

import Protobind.Message.Encode

/-!
# Getters

A getter may be asked of a message or of nothing; of nothing it answers with its fallback, which may
be whatever a name of the module is bound to.
-/

namespace Protobind

def Accessor.read (reg : Registry) (m? : Option Message) : Accessor → Result Binding
  | .stored attr fallback =>
    match m? with
    | some m => do pure (.value (← m.require attr))
    | none => fallback
  | .unlessNull attr fallback =>
    match m? with
    | some m => do
      let v ← m.require attr
      if v.isNull then fallback else pure (.value v)
    | none => fallback
  | .member group variant attr fallback =>
    match m? with
    | some m => do
      let v ← m.require group
      match ← variant with
      | .type id =>
        if reg.isInstance v id then do pure (.value (← reg.member v attr)) else fallback
      | _ => throw .wrongType
    | none => fallback

end Protobind

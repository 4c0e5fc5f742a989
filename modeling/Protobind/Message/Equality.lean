import Protobind.Message.ExtensionStore

/-!
# Equality

Two messages are equal when they are of the same type and hold equal values in their fields, their
oneofs and their extensions; unknown records do not count. Numbers are compared by value, whatever
their type, and a number that is not a number equals nothing.

Lists and dictionaries take an object to be equal to itself without looking at it. The flag `same`
says that the two values compared are one object; the one object for what is not a number always
is.

A variant whose slot takes the place of the method that compares it cannot be compared.
-/

namespace Protobind

namespace Equality

variable (equal : Value → Value → Result Bool)

/-- Whether a collection finds one value where it has the other, with the given test for values
that are not known to be one object. -/
def found : Value → Value → Result Bool
  | .nan, .nan => .ok true
  | a, b => equal a b

def sameItems (equal : Value → Value → Result Bool) : List Value → List Value → Result Bool
  | [], [] => .ok true
  | a :: as, b :: bs => do if ← found equal a b then sameItems equal as bs else pure false
  | _, _ => .ok false

def all (as bs : List Value) : Result Bool :=
  if as.length ≠ bs.length then .ok false else sameItems equal as bs

def allEntries (equal : Value → Value → Result Bool) (others : List (Value × Value)) :
    List (Value × Value) → Result Bool
  | [] => .ok true
  | (k, v) :: rest =>
    match Value.valueOf? k others with
    | none => .ok false
    | some w => do if ← found equal v w then allEntries equal others rest else pure false

/-- Whether two messages have equal values under some attributes; an attribute that is missing
counts as nothing. -/
def allAttrs (equal : Value → Value → Result Bool) (m n : Message) : List String → Result Bool
  | [] => .ok true
  | attr :: rest => do
    if ← equal ((m.own? attr).getD .null) ((n.own? attr).getD .null) then
      allAttrs equal m n rest
    else pure false

/-- Whether the extensions of two messages are equal; a store that is missing counts as nothing. -/
def sameExtensions :
    Option ExtensionStore → Option ExtensionStore → Result Bool
  | some (.records a), some (.records b) =>
    .ok (a.length == b.length && a.all fun (number, raw) => b.get? number == some raw)
  | a, b =>
    let value (store? : Option ExtensionStore) : Value :=
      (store?.map ExtensionStore.value).getD .null
    equal (value a) (value b)

def hidesComparison (reg : Registry) (type : ClassId) : Bool :=
  ((reg.variantType? type).map (·.hides "__eq__")).getD false

def value (reg : Registry) (nested : Bool → Value → Value → Result Bool) (same : Bool) :
    Value → Value → Result Bool
  | .list as, .list bs => if same then .ok true else all (nested false) as bs
  | .map as, .map bs =>
    if same then .ok true
    else if as.length ≠ bs.length then .ok false
    else allEntries (nested false) bs as
  | .variant type _ held, .variant type' _ held' =>
    if hidesComparison reg type then .error .wrongType
    else if type ≠ type' then .ok false
    else
      match reg.variantType? type with
      | some t =>
        match t.slotFault? with
        | none => nested same held held'
        | some fault => .error fault
      | none => .error .missingMember
  | .discriminator type, .discriminator type' => .ok (type == type')
  | .message m, .message n =>
    if reg.canonical m.type ≠ reg.canonical n.type then .ok false
    else
      match reg.messageType? m.type with
      | none => .error .missingMember
      | some t => do
        if m.has "_compared_attributes" then throw .wrongType
        let fields ← t.tableOf m
        let oneofs ← t.oneofsOf m
        if ← allAttrs (nested same) m n (fields.map (·.slot.attr) ++ oneofs) then
          sameExtensions (nested same) m.extensionStore? n.extensionStore?
        else pure false
  | .variant type _ _, _ => if hidesComparison reg type then .error .wrongType else .ok false
  | .message _, .variant .. => .ok false
  | .discriminator base, .variant type _ _ =>
    if ((reg.variantType? type).bind (·.base?)) == some base && hidesComparison reg type then
      .error .wrongType
    else .ok false
  | _, .variant type _ _ => if hidesComparison reg type then .error .wrongType else .ok false
  | .nan, .nan => .ok false
  | a, b => .ok (Value.sameKey a b)

/-- Whether two values of at most `fuel` levels of nesting are equal. -/
def bounded (reg : Registry) : Nat → Bool → Value → Value → Result Bool
  | 0, _, _, _ => .ok false
  | fuel + 1, same, a, b => value reg (bounded reg fuel) same a b

end Equality

def equalValues (reg : Registry) (same : Bool) (a b : Value) : Result Bool :=
  Equality.bounded reg (a.weight + b.weight) same a b

end Protobind

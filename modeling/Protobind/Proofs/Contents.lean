import Mathlib.Logic.Relation
import Protobind.Message.Size

/-!
# What is written of a message

Writing a message writes the messages that its fields and oneofs hold, to any depth. A property of
single messages is extended to all of them (`Registry.Throughout`), so that conditions on the
classes and values inside a message are stated once.
-/

namespace Protobind

variable {m : Message} {p : Message → Prop}

/-- Whether a message is written inside the value of a field. -/
def Field.Holds : Field → Value → Message → Prop
  | .plain slot, v, inner =>
    slot.kind.isMessage ∧
      if slot.tag.repeated then ∃ items, v.items = .ok items ∧ .message inner ∈ items
      else v = .message inner
  | .map _ key val, v, inner =>
    ∃ entries k item, v.entries = .ok entries ∧ (k, item) ∈ entries ∧
      (key.Holds k inner ∨ val.Holds item inner)

namespace Registry

variable (reg : Registry)

/-- Whether a oneof of a message has a member set, and the value that the member holds. -/
def Sets (m : Message) (group : OneofSlot) (member : VariantMember) (held : Value) : Prop :=
  ∃ v, m.own? group.attr = some v ∧ v ≠ .null ∧
    reg.findMember v group.members = .ok (some member) ∧ reg.member v member.attr = .ok held

/-- Whether a message is written as a part of another one, with nothing in between. -/
def Writes (m inner : Message) : Prop :=
  ∃ t, reg.messageType? m.type = some t ∧ t.isMessageSet = false ∧
    ((∃ table f v, t.tableOf m = .ok table ∧ f ∈ table ∧ m.own? f.slot.attr = some v ∧
        f.Holds v inner) ∨
      ∃ codec group member, t.codecOf m = .ok (some codec) ∧ group ∈ codec.groups ∧
        member.kind.isMessage ∧ reg.Sets m group member (.message inner))

/-- Whether a property holds of a message and of every message that is written inside it. -/
def Throughout (p : Message → Prop) (m : Message) : Prop :=
  ∀ inner, Relation.ReflTransGen reg.Writes m inner → p inner

variable {reg}

theorem Throughout.here (h : reg.Throughout p m) : p m :=
  h m .refl

theorem Throughout.inside {inner : Message} (h : reg.Throughout p m) (hw : reg.Writes m inner) :
    reg.Throughout p inner :=
  fun deeper hd => h deeper (.head hw hd)

/-- A property holds throughout a message when it holds of the message itself and throughout the
messages directly inside. -/
theorem throughout_iff :
    reg.Throughout p m ↔ p m ∧ ∀ inner, reg.Writes m inner → reg.Throughout p inner := by
  constructor
  · intro h
    exact ⟨h.here, fun inner hw => h.inside hw⟩
  · rintro ⟨hm, hinside⟩ deeper hd
    rcases Relation.ReflTransGen.cases_head hd with rfl | ⟨inner, hw, hrest⟩
    · exact hm
    · exact hinside inner hw deeper hrest

end Registry

end Protobind

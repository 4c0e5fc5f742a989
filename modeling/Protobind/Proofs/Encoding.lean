import Protobind.Message.Size
import Protobind.Proofs.Basic

/-!
# The parts of an encoding

The encoder in the form in which proofs take it apart: the code for a member of a oneof writes what
a field of the same kind would write, and a message is written in four parts.
-/

namespace Protobind

open Encode

/-- A writer for the messages inside a message. -/
abbrev Writer := Message → Result Bytes

/-- Whether a class is the class of a message. -/
abbrev Record.HasType (m : Message) (reg : Registry) (t : MessageType) : Prop :=
  reg.messageType? m.type = some t

theorem Record.HasType.of_eq {m m' : Message} {reg : Registry} {t : MessageType} (ht : m.HasType reg t)
    (h : m'.type = m.type) : m'.HasType reg t := by
  rwa [HasType, h]

theorem Value.isNull_iff {v : Value} : v.isNull = true ↔ v = .null := by
  cases v <;> simp [Value.isNull]

theorem Value.truthy_of_items {v : Value} {items : List Value} (h : v.items = .ok items) :
    v.truthy = !items.isEmpty := by
  cases v with
  | list vs => cases h; rfl
  | text s =>
    cases h
    have hs : s.isEmpty = s.toList.isEmpty := by rw [Bool.eq_iff_iff]; simp
    simp [Value.truthy, hs]
  | map _ | bytes _ => cases h; simp [Value.truthy]
  | _ => cases h

/-- Writes one entry of a map. -/
def Encode.mapRecord (write : Message → Result Bytes) (slot : Slot) (key val : Field)
    (e : Value × Value) : Result Bytes :=
  field write key true e.1 >>= fun k =>
    field write val true e.2 >>= fun v =>
      pure (writeKey slot.tag.number .bytes ++ writeRun (k ++ v))

theorem Encode.field_map_eq (write : Writer) (slot : Slot) (key val : Field)
    (always : Bool) (v : Value) :
    field write (.map slot key val) always v =
      v.entries >>= each (mapRecord write slot key val) := by
  rw [field]
  rfl

/-! ## Oneofs -/

/-- The table entry that a member of a oneof would have as a field of its own. -/
def VariantMember.slot (member : VariantMember) : Slot where
  attr := member.attr
  kind := .known member.kind
  tag :=
    { text := "", wireType := member.kind.encoding.wireType, number := member.number
      repeated := false, required := false, name := member.attr }

theorem each_singleton {α : Type} (write : α → Result Bytes) (a : α) :
    each write [a] = write a := by
  cases h : write a <;> simp [each, h, bind, Except.bind, pure, Except.pure]

/-- The code for a member writes what a field of its kind would write. -/
theorem oneofCase_eq_single (write : Writer) (member : VariantMember) (held : Value) :
    oneofCase write (.ofKind member.kind) member.number held =
      single write member.slot held := by
  unfold oneofCase single VariantMember.slot
  cases member.kind with
  | group =>
    simp only [OneofCase.ofKind, each, writeStep, if_true]
    cases body write held <;> simp [bind, Except.bind, pure, Except.pure]
  | double =>
    simp only [OneofCase.ofKind, each_singleton]
    cases h : held.doubleBits with
    | error fault => simp only [writeStep, operand, value, h]; rfl
    | ok bits => simp only [writeStep, operand, value, h]; rfl
  | float =>
    simp only [OneofCase.ofKind, each_singleton]
    cases h : held.singleBits with
    | error fault => simp only [writeStep, operand, value, h]; rfl
    | ok bits => simp only [writeStep, operand, value, h]; rfl
  | _ =>
    simp only [OneofCase.ofKind, each_singleton]
    rfl

section

variable {reg : Registry} {write : Writer} {m : Message}

theorem Record.require_eq_ok {attr : String} {v : Value} : m.require attr = .ok v ↔ m.own? attr = some v := by
  unfold Record.require
  cases m.own? attr <;> simp

theorem Part.of_eq (part : Part) {v : Value} (h : m.own? part.attr = some v) :
    part.of write m = part.write write v := by
  rw [Part.of, Record.require_eq_ok.mpr h, ok_bind]

theorem heldMember_eq_ok {codec : OneofCodec} {group : OneofSlot} {foreign : Fault} {v held : Value}
    {member : VariantMember} : reg.heldMember codec group foreign v = .ok (member, held) ↔
      "isinstance" ∉ codec.rebound ∧ reg.findMember v group.members = .ok (some member) ∧
        reg.member v member.attr = .ok held := by
  unfold Registry.heldMember
  constructor
  · intro h
    split at h
    · cases h
    · rename_i hbound
      obtain ⟨found?, hfind, h⟩ := bind_eq_ok.mp h
      cases found? with
      | none =>
        simp only at h
        split at h <;> cases h
      | some found =>
        obtain ⟨_, hmember, h⟩ := bind_eq_ok.mp h
        cases h
        exact ⟨by simpa using hbound, hfind, hmember⟩
  · rintro ⟨hbound, hfind, hmember⟩
    rw [if_neg (by simpa using hbound), hfind, ok_bind]
    simp only [hmember, ok_bind]
    rfl

/-! ## Messages -/

/-- The parts of the messages of a class, in the order in which they are written. -/
def MessageType.parts (reg : Registry) (t : MessageType) : List Part :=
  t.fields.map Field.part ++ (t.codec?.map fun codec => codec.groups.map (·.part reg codec)).getD []

theorem Encode.each_append {α : Type} (part : α → Result Bytes) (as bs : List α) :
    each part (as ++ bs) =
      each part as >>= fun head => each part bs >>= fun tail => pure (head ++ tail) := by
  induction as with
  | nil => cases h : each part bs <;> simp [each, h, bind, Except.bind, pure, Except.pure]
  | cons a as ih =>
    rw [List.cons_append, each, ih, each]
    cases part a with
    | error fault => rfl
    | ok head =>
      cases each part as with
      | error fault => rfl
      | ok middle =>
        cases each part bs with
        | error fault => rfl
        | ok tail => simp [bind, Except.bind, pure, Except.pure]

theorem Encode.each_map {α β : Type} (part : β → Result Bytes) (f : α → β) (as : List α) :
    each part (as.map f) = each (fun a => part (f a)) as := by
  induction as with
  | nil => rfl
  | cons a as ih => rw [List.map_cons, each, ih, each]

theorem Encode.each_parts (t : MessageType) : each (·.of write m) (t.parts reg) =
      fields write m t.fields >>= fun plain =>
        members reg write m t.codec? >>= fun oneofs => pure (plain ++ oneofs) := by
  have hfields : each (·.of write m) (t.fields.map Field.part) =
      fields write m t.fields := by
    rw [each_map]
    rfl
  have hmembers : each (·.of write m)
      ((t.codec?.map fun codec => codec.groups.map (·.part reg codec)).getD []) =
        members reg write m t.codec? := by
    cases t.codec? with
    | none => rfl
    | some codec =>
      rw [Option.map_some, Option.getD_some, each_map]
      rfl
  rw [MessageType.parts, each_append, hfields, hmembers]

theorem message_eq_parts {t : MessageType} (ht : m.HasType reg t) (hset : t.isMessageSet = false) :
    message reg write m =
      (t.tableOf m >>= fun table => fields write m table >>= fun plain =>
        t.codecOf m >>= fun codec? => members reg write m codec? >>= fun oneofs =>
          m.writtenExtensions >>= fun extensions => m.writtenUnknown >>= fun unknown =>
            pure (plain ++ oneofs ++ extensions ++ unknown)) := by
  unfold message
  simp only [ht, hset, Bool.false_eq_true, if_false]

end

end Protobind

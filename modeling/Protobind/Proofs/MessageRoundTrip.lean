import Protobind.Proofs.FieldRoundTrip

/-!
# Messages there and back

A well-typed message is written, and read back as an equal one that is written in the same way again
(`backed_encodeMessage`). Its parts are merged one after the other into a fresh message: the fields,
the oneofs, the extensions and the unknown records. The induction is on the messages inside. Oneofs
are read back only if their functions and the comparison of messages find what a variant holds
(`MessageType.Faithful`).
-/

namespace Protobind

open List Encode MessageType

open Decode (wrap readStep)

open Decode (readers)

variable {reg : Registry} {id : ClassId} {t : MessageType} {vt : VariantType} {group : OneofSlot}
  {member : VariantMember} {m n inner start : Message} {v held w : Value} {attr : String}
  {bs raw : Bytes} {codec : OneofCodec} {equal : Value → Value → Result Bool}
  {ext : RawMap} {f : Field} {part : Part} {attrs : List String} {values : String → Value}
  {bytes : String → Bytes} {back : String → Value}

/-! ## Oneofs -/

/-- Whether a slot is found under the name that the functions for a oneof use, and under the name that
the comparison uses, and takes the place of neither of the methods that they need. -/
structure VariantType.Faithful (vt : VariantType) (member : VariantMember) : Prop where
  reads : vt.hides "__getattribute__" = false
  compares : vt.hides "__eq__" = false
  attr : vt.stored = member.attr
  named : vt.stored = vt.slot

namespace VariantType.Faithful

variable (h : vt.Faithful member)
include h

theorem readingFault? : vt.readingFault? = none := by
  unfold VariantType.readingFault?
  rw [h.reads]
  rfl

theorem slotFault? : vt.slotFault? = none := by
  unfold VariantType.slotFault?
  rw [h.readingFault?, if_pos h.named]
  rfl

end VariantType.Faithful

theorem findMember_eq (hvariant : member.variant = .ok (.type id)) (hvt : reg.variantType? id = some vt)
    (stored : String) (held : Value) {members : List VariantMember} (hmem : member ∈ members)
    (hresolves : ∀ other ∈ members, other.Resolves reg)
    (hsep : ∀ other ∈ members, (other.variant = .ok (.type id) → other = member) ∧
      ∀ base, vt.base? = some base → other.variant ≠ .ok (.type base)) :
    reg.findMember (.variant id stored held) members = .ok (some member) := by
  induction members with
  | nil => cases hmem
  | cons first members ih =>
    obtain ⟨id', _, hfirst, _⟩ := (hresolves first mem_cons_self).variant
    obtain ⟨hsame, hbase⟩ := hsep first mem_cons_self
    unfold Registry.findMember
    rw [hfirst, ok_bind]
    simp only
    by_cases hid : id = id'
    · subst hid
      rw [if_pos (by simp [Registry.isInstance]), hsame hfirst]
      rfl
    · have hother : reg.isInstance (.variant id stored held) id' = false := by
        have hnot : vt.base? ≠ some id' := fun heq => hbase id' heq hfirst
        simp [Registry.isInstance, hid, hvt, hnot]
      rw [if_neg (by simp [hother])]
      refine ih ?_ (fun other h => hresolves other (mem_cons_of_mem _ h))
        fun other h => hsep other (mem_cons_of_mem _ h)
      rcases mem_cons.mp hmem with rfl | hmem
      · rw [hvariant] at hfirst
        cases hfirst
        exact absurd rfl hid
      · exact hmem

theorem MessageType.Regular.findMember_eq (ht : t.Regular reg) (hgroup : group ∈ t.groups)
    (hmember : member ∈ group.members) (hvariant : member.variant = .ok (.type id))
    (hvt : reg.variantType? id = some vt) (held : Value) :
    reg.findMember (.variant id vt.stored held) group.members = .ok (some member) :=
  Protobind.findMember_eq hvariant hvt vt.stored held hmember (ht.members group hgroup)
    (ht.separate group hgroup member hmember id vt hvariant hvt)

theorem member_eq (hvt : reg.variantType? id = some vt) (h : vt.Faithful member) (held : Value) :
    reg.member (.variant id vt.stored held) member.attr = .ok held := by
  unfold Registry.member
  simp only [hvt, Option.bind_some, h.readingFault?, if_pos h.attr]

/-- A variant that can hold something that is no dictionary can hold everything. -/
theorem wrap_eq (hvariant : member.variant = .ok (.type id)) (hvt : reg.variantType? id = some vt)
    (hheld : vt.constructorFault? held = none) (hmap : ∀ entries, held ≠ .map entries) (w : Value) :
    wrap reg member w = .ok (.variant id vt.stored w) := by
  have hfault := VariantType.constructorFault?_of_null
    (VariantType.constructorFault?_null hheld hmap) w
  unfold wrap Registry.apply Registry.call
  rw [hvariant, ok_bind]
  simp only [Registry.class?_of_variantType? hvt]
  unfold VariantType.call
  simp only [pure_eq_ok, ok_bind, hfault]

theorem equalTo_variant (hvt : reg.variantType? id = some vt) (h : vt.Faithful member)
    (hequal : EqualTo reg held w) (stored : String) :
    EqualTo reg (.variant id stored held) (.variant id stored w) := by
  intro fuel hfuel
  rw [Value.weight] at hfuel
  obtain ⟨fuel, rfl⟩ : ∃ k, fuel = k + 1 := ⟨fuel - 1, by omega⟩
  rw [Equality.bounded_variant reg fuel hvt, if_neg (by simp [h.compares]), h.slotFault?]
  exact hequal fuel (by omega)

section Members

variable (hreg : reg.Regular) (write : Writer)

theorem Kind.Accepts.ne_map {kind : Kind} (h : kind.Accepts v) (entries : List (Value × Value)) :
    v ≠ .map entries := by
  rintro rfl
  have := h.isKey
  cases this

/-- A record of a member replaces what its oneof holds. -/
theorem merges_member (ht : t.Regular reg) (hgroup : group ∈ t.groups)
    (hmember : member ∈ group.members) (hwire : (OneofCase.ofKind member.kind).wireType ≠ .endGroup)
    (hread : ∀ rest, readStep reg (readers reg) member.type (raw ++ rest)
      (OneofCase.ofKind member.kind).read = .ok (w, rest))
    (hwrap : wrap reg member w = .ok v) :
    Merges reg t (writeKey member.number (OneofCase.ofKind member.kind).wireType ++ raw) m
      (m.set group.attr v) := by
  intro inGroup rest
  have hfree := ht.group_attr_free hgroup
  rw [append_assoc, Decode.records_writeKey reg inGroup _ m
    (ht.number_of_member hgroup hmember) hwire, ht.mergeRecord_member hgroup hmember]
  unfold Decode.mergeMember Decode.oneofCase
  rw [if_neg (by simp), hread rest]
  simp only [ok_bind, hwrap, pure_eq_ok, Record.store_eq_set hfree]

theorem scalar_member_back (hmember : member.Resolves reg) (hmessage : member.kind.isMessage = false)
    (hv : member.kind.Accepts v) :
    ∃ raw, (∀ write, value write (.known member.kind) v = .ok raw) ∧
      (Short raw → ∃ w, v.Alike w ∧ ∀ nested rest,
        readStep reg nested member.type (raw ++ rest) (OneofCase.ofKind member.kind).read =
          .ok (w, rest)) := by
  by_cases henum : member.kind = .enum
  · obtain ⟨id, hread⟩ := hmember.readStep_enum henum
    rw [henum] at hv
    obtain ⟨n, hn, hrange⟩ := hv
    have hword : signed32 (word64 n) = n := by
      rw [signed32_word64]
      omega
    refine ⟨Varint.write n, fun write => ?_, fun _ => ⟨.enum id n, .inr ⟨n, hn, rfl⟩,
      fun nested rest => ?_⟩⟩
    · rw [henum]
      simp only [value, hn]
      rfl
    · rw [hread, Decode.mapParse_of_read (Varint.read_write n rest), hword]
  · obtain ⟨raw, w, hwritten, halike, hread⟩ :=
      scalar_value (member.slot_resolves reg hmessage) rfl hv
    refine ⟨raw, hwritten, fun hlen => ⟨w, halike, fun nested rest => ?_⟩⟩
    rw [Decode.readStep_eq_scalar hmessage henum]
    exact hread hlen rest

include hreg

theorem payload_back (hmember : member.Resolves reg)
    (hset : member.kind = .group → ∀ id t', member.type = .ok (.type id) →
      reg.messageType? id = some t' → t'.isMessageSet = false)
    (hnumber : IsNumber member.number) (hv : member.Types v)
    (hin : member.kind.isMessage = true → InnerBacked reg write v) :
    ∃ raw, single write member.slot v =
        .ok (writeKey member.number (OneofCase.ofKind member.kind).wireType ++ raw) ∧
      (Short raw → ∃ w, EqualTo reg v w ∧
        (∀ rest, readStep reg (readers reg) member.type (raw ++ rest)
          (OneofCase.ofKind member.kind).read = .ok (w, rest)) ∧
        ∀ fuel, w.weight ≤ fuel → single (encodeMessage reg fuel) member.slot w =
          .ok (writeKey member.number (OneofCase.ofKind member.kind).wireType ++ raw)) := by
  unfold VariantMember.Types VariantMember.Takes at hv
  rw [OneofCase.ofKind_wireType]
  have hslot : member.slot.kind = .known member.kind := rfl
  by_cases hmessage : member.kind.isMessage = true
  · rw [if_pos hmessage] at hv
    obtain ⟨inner, rfl, htype⟩ := hv
    obtain ⟨⟨t, ht, hconstructs⟩, hback⟩ := hin hmessage inner rfl
    obtain ⟨hfresh, hstart⟩ := fresh_new (hreg _ _ ht).toStoresApart inner.type
    obtain ⟨raw, hwritten, hback⟩ := message_back write hslot hmessage rfl hnumber ht
      (fun hgroup => hset hgroup inner.type t htype ht) hfresh hstart hback
    refine ⟨raw, hwritten, fun hlen => ?_⟩
    obtain ⟨m', hequal, hread, hagain⟩ := hback hlen
    refine ⟨.message m', hequal, fun rest => ?_, hagain⟩
    rw [Decode.readStep_message hmessage, htype, ok_bind, Registry.instantiate_message ht hconstructs,
      ok_bind]
    exact Decode.outcomeParse_eq_ok.mpr (hread rest)
  · rw [if_neg hmessage] at hv
    have hplain : member.kind.isMessage = false := by simpa using hmessage
    obtain ⟨raw, hwritten, hback⟩ := scalar_member_back hmember hplain hv
    refine ⟨raw, single_of_scalar write hslot hplain (hwritten write), fun hlen => ?_⟩
    obtain ⟨w, halike, hread⟩ := hback hlen
    refine ⟨w, hv.equalTo halike reg, hread (readers reg), fun fuel _ => ?_⟩
    refine single_of_scalar _ hslot hplain ?_
    rw [value_of_alike hv halike, hwritten write]

omit hreg in
theorem VariantMember.Takes.ne_map (h : member.Types v) (entries : List (Value × Value)) :
    v ≠ .map entries := by
  unfold Types Takes at h
  split at h
  · obtain ⟨inner, rfl, _⟩ := h
    simp
  · exact h.ne_map entries

omit hreg in
theorem oneofValue_eq (hnull : v.isNull = false) (hbound : "isinstance" ∉ codec.rebound)
    (hfind : reg.findMember v group.members = .ok (some member))
    (hread : reg.member v member.attr = .ok held) :
    oneofValue reg codec group write v = single write member.slot held := by
  unfold oneofValue
  rw [if_neg (by simp [hnull]), heldMember_eq_ok.mpr ⟨hbound, hfind, hread⟩, ok_bind]
  exact oneofCase_eq_single write member held

theorem oneof_back (ht : t.Regular reg) (hgroup : group ∈ t.groups)
    (hbound : v ≠ .null → "isinstance" ∉ codec.rebound) (htypes : v = .null ∨ group.Types reg v)
    (hfaithful : ∀ member ∈ group.members, ∀ id vt held, member.variant = .ok (.type id) →
      reg.variantType? id = some vt → v = .variant id vt.stored held → vt.Faithful member)
    (hin : ∀ member held, reg.findMember v group.members = .ok (some member) →
      reg.member v member.attr = .ok held → member.kind.isMessage = true →
        InnerBacked reg write held) : PartBack reg t (group.part reg codec) .null v write := by
  rcases htypes with rfl | ⟨member, hmember, id, vt, held, hvariant, hvt, rfl, hfault, hheld⟩
  · refine ⟨[], rfl, fun _ => ⟨.null, equalTo_null reg, fun m hm => ?_, fun _ _ => rfl⟩⟩
    rw [Record.set_eq_self hm]
    exact Merges.nil m
  · have hclear := hfaithful member hmember id vt held hvariant hvt rfl
    have hfind := fun held => ht.findMember_eq hgroup hmember hvariant hvt held
    have hread := fun held => member_eq hvt hclear held
    obtain ⟨raw, hwritten, hback⟩ := payload_back hreg write (ht.members group hgroup member hmember)
      (ht.groupMembers group hgroup member hmember) (ht.number_of_member hgroup hmember) hheld
      (hin member held (hfind held) (hread held))
    have hvalue : ∀ write held, oneofValue reg codec group write (.variant id vt.stored held) =
        single write member.slot held := fun write held =>
      oneofValue_eq write rfl (hbound (by simp)) (hfind held) (hread held)
    refine ⟨writeKey member.number (OneofCase.ofKind member.kind).wireType ++ raw,
      (hvalue write held).trans hwritten, fun hlen => ?_⟩
    obtain ⟨w, hequal, hstep, hagain⟩ := hback (Short.right hlen)
    refine ⟨.variant id vt.stored w, equalTo_variant hvt hclear hequal _, fun start _ => ?_,
      fun fuel hfuel => ?_⟩
    · refine merges_member ht hgroup hmember ?_ hstep (wrap_eq hvariant hvt hfault hheld.ne_map w)
      rw [OneofCase.ofKind_wireType]
      cases member.kind <;> decide
    · rw [Value.weight] at hfuel
      exact (hvalue _ w).trans (hagain fuel (by omega))

end Members

/-! ## Attributes -/

/-- What the constructor of a class stores in an attribute. -/
def MessageType.startOf (t : MessageType) (attr : String) : Value :=
  (Dictionary.get? attr t.initialPairs).getD .null

theorem MessageType.StoresApart.startOf_eq (ht : t.StoresApart) (h : attr ∈ t.storedAttrs) :
    ∃ p ∈ t.params, p.attr = attr ∧ t.startOf attr = p.start := by
  obtain ⟨p, hp, rfl⟩ := mem_map.mp h
  have hmem : (p.attr, p.start) ∈ t.initialPairs :=
    mem_map_of_mem (f := fun p : Param => (p.attr, p.start)) hp
  refine ⟨p, hp, rfl, ?_⟩
  unfold startOf
  rw [Dictionary.get?_of_mem (by rw [t.initialPairs_attrs]; exact ht.nodup) hmem]
  rfl

theorem MessageType.Blank.get?_eq (ht : t.StoresApart) (hm : t.Blank m) (h : attr ∈ t.storedAttrs) :
    m.get? attr = some (t.startOf attr) := by
  obtain ⟨p, hp, rfl, hstart⟩ := ht.startOf_eq h
  rw [hstart, hm.stored p hp]

theorem MessageType.Regular.unset_startOf (ht : t.Regular reg) (hf : f ∈ t.fields)
    (h : f.slot.attr ∈ t.storedAttrs) : f.Unset (t.startOf f.slot.attr) := by
  obtain ⟨p, hp, hattr, hstart⟩ := ht.startOf_eq h
  rw [hstart]
  exact ht.unset f hf p hp hattr

theorem MessageType.Regular.startOf_group (ht : t.Regular reg) (hgroup : group ∈ t.groups)
    (h : group.attr ∈ t.storedAttrs) : t.startOf group.attr = .null := by
  obtain ⟨p, hp, hattr, hstart⟩ := ht.startOf_eq h
  rw [hstart, ht.unsetOneofs group hgroup p hp hattr]

/-- Whether some data is read into an attribute of a class as a value that is written in the same way
again. -/
def Restores (reg : Registry) (t : MessageType) (attr : String) (bs : Bytes) (w : Value) : Prop :=
  (∀ n : Message, n.get? attr = some (t.startOf attr) → Merges reg t bs n (n.set attr w)) ∧
    ∀ part ∈ t.parts reg, part.attr = attr → ∀ fuel, w.weight ≤ fuel →
      part.write (encodeMessage reg fuel) w = .ok bs

/-- Sets attributes to the values that a function has for them. -/
def Record.fill (m : Message) (attrs : List String) (values : String → Value) : Message :=
  m.setAll (attrs.map fun attr => (attr, values attr))

theorem Record.get?_fill (attr : String) : ∀ {m : Message},
    (m.fill attrs values).get? attr = if attr ∈ attrs then some (values attr) else m.get? attr := by
  induction attrs with
  | nil => exact rfl
  | cons a attrs ih =>
    intro m
    refine (ih (m := m.set a (values a))).trans ?_
    rw [Record.get?_set]
    by_cases hmem : attr ∈ attrs
    · rw [if_pos hmem, if_pos (mem_cons_of_mem a hmem)]
    · by_cases h : a = attr
      · subst h
        simp [hmem]
      · simp [hmem, h, Ne.symm h]

theorem Record.Clear.fill (hm : m.Clear) (h : ∀ attr ∈ attrs, attr ∉ reservedAttrs)
    (values : String → Value) : (m.fill attrs values).Clear :=
  hm.setAll fun p hp => by
    obtain ⟨attr, hattr, rfl⟩ := mem_map.mp hp
    exact h attr hattr

/-- Of data for attributes that comes one after the other, some fills its attributes and the rest is kept
as unknown records. -/
theorem merges_attrs (reads : String → Bool) : ∀ {attrs : List String} {m : Message}, attrs.Nodup → m.Clear →
    (∀ attr ∈ attrs, attr ∉ reservedAttrs) →
    (∀ attr ∈ attrs, reads attr = true → m.get? attr = some (t.startOf attr) ∧
      ∀ n : Message, n.get? attr = some (t.startOf attr) →
        Merges reg t (bytes attr) n (n.set attr (values attr))) →
    (∀ attr ∈ attrs, reads attr = false → ∀ n : Message, n.Clear →
      Merges reg t (bytes attr) n { n with unknown? := n.unknown?.map (· ++ bytes attr) }) →
    Merges reg t (attrs.flatMap bytes) m
      { m.fill (attrs.filter reads) values with
        unknown? := m.unknown?.map (· ++ (attrs.filter (!reads ·)).flatMap bytes) }
  | [], m, _, _, _, _, _ => by
    show Merges reg t [] m { m with unknown? := m.unknown?.map (· ++ []) }
    simpa using Merges.nil m
  | attr :: attrs, m, hnodup, hm, hfree, hread, hkeep => by
    obtain ⟨hnew, hnodup⟩ := nodup_cons.mp hnodup
    have hfreeRest := fun a ha => hfree a (mem_cons_of_mem attr ha)
    have hreadRest := fun a ha => hread a (mem_cons_of_mem attr ha)
    have hkeepRest := fun a ha => hkeep a (mem_cons_of_mem attr ha)
    rw [flatMap_cons]
    cases hreads : reads attr with
    | true =>
      rw [filter_cons_of_pos hreads, filter_cons_of_neg (by simp [hreads])]
      obtain ⟨hstart, hmerges⟩ := hread attr mem_cons_self hreads
      refine (hmerges m hstart).append (merges_attrs reads hnodup (hm.set (hfree attr mem_cons_self) _)
        hfreeRest (fun a ha h => ⟨?_, (hreadRest a ha h).2⟩) hkeepRest)
      rw [Record.get?_set, if_neg fun heq : (attr == a) = true => hnew (eq_of_beq heq ▸ ha)]
      exact (hreadRest a ha h).1
    | false =>
      rw [filter_cons_of_neg (by simp [hreads]), filter_cons_of_pos (by simp [hreads]), flatMap_cons]
      have hrest := merges_attrs reads (m := { m with unknown? := m.unknown?.map (· ++ bytes attr) }) hnodup
        (fun a ha => hm a ha) hfreeRest hreadRest hkeepRest
      simp only [Option.map_map, Function.comp_def, append_assoc] at hrest
      exact (hkeep attr mem_cons_self hreads m hm).append hrest

theorem merges_fill (hnodup : attrs.Nodup) (hm : m.Clear) (hfree : ∀ attr ∈ attrs, attr ∉ reservedAttrs)
    (hread : ∀ attr ∈ attrs, m.get? attr = some (t.startOf attr) ∧
      ∀ n : Message, n.get? attr = some (t.startOf attr) →
        Merges reg t (bytes attr) n (n.set attr (values attr))) :
    Merges reg t (attrs.flatMap bytes) m (m.fill attrs values) := by
  have hmerges := merges_attrs (fun _ => true) hnodup hm hfree (fun attr hattr _ => hread attr hattr)
    fun _ _ h => absurd h (by simp)
  simp only [filter_true, Bool.not_true, filter_false, flatMap_nil, append_nil, Option.map_id'] at hmerges
  exact hmerges

/-! ## Messages -/

/-- Whether a message is stored, written and compared by the names that its class has for its
attributes, its methods and the built-in functions. -/
structure MessageType.Faithful (reg : Registry) (t : MessageType) (m : Message) : Prop where
  stores : ∀ attr ∈ t.codecAttrs, attr ∈ t.storedAttrs
  compares : "_compared_attributes" ∉ t.storedAttrs
  oneofs : ∀ codec, t.codec? = some codec → ∀ group ∈ codec.groups, ∀ id stored held,
    m.get? group.attr = some (.variant id stored held) → "isinstance" ∉ codec.rebound ∧
      ∀ member ∈ group.members, member.variant = .ok (.type id) →
        ∀ vt, reg.variantType? id = some vt → vt.Faithful member

/-- Whether a message is stored, written and compared by the names of its class. -/
def Registry.Faithful (reg : Registry) (m : Message) : Prop :=
  ∀ t, reg.messageType? m.type = some t → t.Faithful reg m

namespace Equality

theorem bounded_message (ht : m.HasType reg t)
    (hsame : reg.canonical m.type = reg.canonical n.type) (hm : m.Clear) (fuel : Nat) :
    bounded reg (fuel + 1) false (.message m) (.message n) =
      if m.has "_compared_attributes" then .error .wrongType
      else allAttrs (bounded reg fuel false) m n (t.fields.map (·.slot.attr) ++ t.oneofs) >>=
        fun same =>
          if same then
            sameExtensions (bounded reg fuel false) m.extensionStore? n.extensionStore?
          else pure false := by
  show (if reg.canonical m.type ≠ reg.canonical n.type then _ else _) = _
  rw [hsame, if_neg (by simp)]
  simp only [ht, hm.tableOf_eq, hm.oneofsOf_eq]
  split <;> rfl

theorem allAttrs_eq_true {attrs : List String}
    (h : ∀ attr ∈ attrs, equal ((m.own? attr).getD .null) ((n.own? attr).getD .null) = .ok true) :
    allAttrs equal m n attrs = .ok true := by
  induction attrs with
  | nil => rfl
  | cons attr attrs ih =>
    unfold allAttrs
    rw [h attr mem_cons_self]
    exact ih fun a ha => h a (mem_cons_of_mem _ ha)

end Equality

theorem sameExtensions_of_perm (equal : Value → Value → Result Bool)
    {ext' : RawMap} (hnodup : (ext.map (·.1)).Nodup) (hperm : ext'.Perm ext) :
    Equality.sameExtensions equal (some (.records ext)) (some (.records ext')) = .ok true := by
  have hkeys : (ext'.map (·.1)).Nodup := (hperm.map (·.1)).nodup_iff.mpr hnodup
  have hall : ext.all (fun p => ext'.get? p.1 == some p.2) = true := by
    refine all_eq_true.mpr fun p hp => ?_
    rw [Dictionary.get?_of_mem hkeys (hperm.mem_iff.mpr hp)]
    simp
  show Except.ok (ext.length == ext'.length && ext.all _) = .ok true
  rw [hperm.length_eq, hall]
  simp

theorem sameExtensions_eq_true (hnull : equal .null .null = .ok true) (hm : m.Clear) (hn : n.Clear)
    (hnodup : ∀ ext, m.extensions? = some ext → (ext.map (·.1)).Nodup)
    (h : Option.Rel List.Perm n.extensions? m.extensions?) :
    Equality.sameExtensions equal m.extensionStore? n.extensionStore? = .ok true := by
  rw [hm.extensionStore?_eq, hn.extensionStore?_eq]
  generalize n.extensions? = other at h
  cases hext : m.extensions? with
  | none =>
    rw [hext] at h
    cases h
    exact hnull
  | some ext =>
    rw [hext] at h
    cases h with
    | some hperm => exact sameExtensions_of_perm equal (hnodup ext hext) hperm

theorem rel_of_eq_some {R : Value → Value → Prop} {a b : Option Value} (ha : a = some v)
    (hb : b = some w) (h : R v w) : Option.Rel R a b := by
  rw [ha, hb]
  exact .some h

/-- Messages with equal attributes and the same records of extensions are equal. An attribute may be
missing in both. -/
theorem equalTo_message (hregular : t.Regular reg) (ht : m.HasType reg t)
    (hinstance : t.Instance m) (hcompared : "_compared_attributes" ∉ t.storedAttrs)
    (htype : n.type = m.type) (hn : n.Clear)
    (hattrs : ∀ attr ∈ t.codecAttrs, Option.Rel (EqualTo reg) (m.get? attr) (n.get? attr))
    (hnodup : ∀ ext, m.extensions? = some ext → (ext.map (·.1)).Nodup)
    (hext : Option.Rel List.Perm n.extensions? m.extensions?) :
    EqualTo reg (.message m) (.message n) := by
  intro fuel hfuel
  have hfuel : m.weight < fuel := hfuel
  have hm := hinstance.clear hregular.toStoresApart
  have hpos := m.weight_pos
  obtain ⟨fuel, rfl⟩ : ∃ k, fuel = k + 1 := ⟨fuel - 1, by omega⟩
  have hnull : Equality.bounded reg fuel false .null .null = .ok true := by
    obtain ⟨fuel, rfl⟩ : ∃ k, fuel = k + 1 := ⟨fuel - 1, by omega⟩
    rfl
  have hequal : ∀ attr ∈ t.fields.map (·.slot.attr) ++ t.oneofs,
      Equality.bounded reg fuel false ((m.own? attr).getD .null) ((n.own? attr).getD .null) =
        .ok true := by
    intro attr hattr
    rw [hregular.compared] at hattr
    have hfree := hregular.attrsFree attr hattr
    have hrel := hattrs attr hattr
    rw [Record.own?_eq_get? hfree, Record.own?_eq_get? hfree]
    generalize n.get? attr = other at hrel ⊢
    cases hv : m.get? attr with
    | none =>
      rw [hv] at hrel
      cases hrel
      exact hnull
    | some v =>
      have hweight := Record.weight_lt_of_get? hv
      rw [hv] at hrel
      obtain hvw | _ := hrel
      exact hvw fuel (by omega)
  have hhas : m.has "_compared_attributes" = false := by
    unfold Record.has
    rw [Record.own?_eq_get? (by decide), hinstance.get?_eq_none hcompared]
    rfl
  rw [Equality.bounded_message ht (by rw [htype]) hm, hhas, Equality.allAttrs_eq_true hequal]
  exact sameExtensions_eq_true hnull hm hn hnodup hext

/-! ### Parts of messages -/

section Parts

theorem codec_of_group (h : group ∈ t.groups) :
    ∃ codec, t.codec? = some codec ∧ group ∈ codec.groups := by
  unfold groups at h
  cases hcodec : t.codec? with
  | none => rw [hcodec] at h; cases h
  | some codec => rw [hcodec] at h; exact ⟨codec, rfl, h⟩

theorem group_of_codec (h : t.codec? = some codec) (hgroup : group ∈ codec.groups) :
    group ∈ t.groups := by
  unfold groups
  rw [h]
  exact hgroup

theorem MessageType.parts_attrs (reg : Registry) (t : MessageType) : (t.parts reg).map (·.attr) = t.codecAttrs := by
  unfold parts codecAttrs groups
  rw [map_append, map_map]
  refine congrArg _ ?_
  cases t.codec? with
  | none => rfl
  | some codec => exact map_map

theorem MessageType.codecAttr_of_part (h : part ∈ t.parts reg) : part.attr ∈ t.codecAttrs :=
  t.parts_attrs reg ▸ mem_map_of_mem h

theorem MessageType.Regular.part_eq (ht : t.Regular reg) {part' : Part} (h : part ∈ t.parts reg)
    (h' : part' ∈ t.parts reg) (heq : part'.attr = part.attr) : part' = part :=
  inj_on_of_nodup_map (by rw [t.parts_attrs reg]; exact ht.attrsOnce) h' h heq

theorem PartBack.restores {write : Writer} (ht : t.Regular reg) (hpart : part ∈ t.parts reg)
    (h : PartBack reg t part (t.startOf part.attr) v write) :
    ∃ bs, part.write write v = .ok bs ∧ (Short bs →
      ∃ w, EqualTo reg v w ∧ Restores reg t part.attr bs w) := by
  obtain ⟨bs, hbs, hback⟩ := h
  refine ⟨bs, hbs, fun hlen => ?_⟩
  obtain ⟨w, hequal, hmerges, hagain⟩ := hback hlen
  exact ⟨w, hequal, hmerges, fun part' hpart' heq => ht.part_eq hpart hpart' heq ▸ hagain⟩

theorem MessageType.mem_parts : part ∈ t.parts reg ↔ (∃ f ∈ t.fields, part = f.part) ∨
      ∃ codec, t.codec? = some codec ∧ ∃ group ∈ codec.groups, part = group.part reg codec := by
  unfold parts
  cases t.codec? <;> simp [eq_comm]

variable {write : Writer}

/-- The extensions of a message in the order in which they are written. -/
def Record.sortedExtensions (m : Message) : List (Int × Bytes) := sortByNumber (m.extensions?.getD [])

theorem Record.mem_sortedExtensions {p : Int × Bytes} :
    p ∈ m.sortedExtensions ↔ ∃ ext, m.extensions? = some ext ∧ p ∈ ext := by
  rw [Record.sortedExtensions, (perm_sortByNumber _).mem_iff]
  cases m.extensions? <;> simp

theorem Record.nodup_sortedExtensions
    (h : ∀ ext, m.extensions? = some ext → (ext.map (·.1)).Nodup) : (m.sortedExtensions.map (·.1)).Nodup := by
  rw [Record.sortedExtensions, ((perm_sortByNumber _).map (·.1)).nodup_iff]
  cases hext : m.extensions? with
  | none => exact nodup_nil
  | some ext => exact h ext hext

theorem Record.perm_extensions {pairs : RawMap} (h : pairs ~ m.sortedExtensions) :
    Option.Rel List.Perm (m.extensions?.map fun _ => pairs) m.extensions? := by
  unfold Record.sortedExtensions at h
  cases hext : m.extensions? with
  | none => exact .none
  | some ext =>
    rw [hext] at h
    exact .some (h.trans (perm_sortByNumber ext))

/-- The raw records of the extensions of a message, in the order in which they are written. -/
def Record.extensionBytes (m : Message) : Bytes := m.sortedExtensions.flatMap (·.2)

theorem Record.Clear.writtenExtensions_eq (hm : m.Clear) :
    m.writtenExtensions = .ok m.extensionBytes := by
  unfold Record.writtenExtensions Record.extensionBytes Record.sortedExtensions
  rw [hm.extensionStore?_eq]
  cases m.extensions? <;> rfl

theorem message_of_items (ht : m.HasType reg t) (hset : t.isMessageSet = true)
    (hm : m.Clear) (hext : m.extensions? = some ext) :
    message reg write m = MessageSet.writeItems (sortByNumber ext) := by
  unfold message
  simp only [ht, if_pos hset, hm.extensionStore?_eq, hext, Option.map_some]
  rfl

variable (hclass : t.Regular reg) (ht : m.HasType reg t)
  (hset : t.isMessageSet = false) (hm : m.Clear)
include ht hset hm

/-- A message that is no message set is written part by part, with its extensions and its unknown
records behind. -/
theorem message_eq_each : message reg write m = each (·.of write m) (t.parts reg) >>= fun bs =>
      pure (bs ++ m.extensionBytes ++ m.unknown?.getD []) := by
  rw [message_eq_parts ht hset, each_parts, hm.tableOf_eq, ok_bind]
  cases fields write m t.fields with
  | error fault => rfl
  | ok plain =>
    rw [ok_bind, ok_bind, hm.codecOf_eq, ok_bind]
    cases members reg write m t.codec? with
    | error fault => rfl
    | ok oneofs =>
      rw [ok_bind, hm.writtenExtensions_eq, ok_bind, hm.writtenUnknown_eq]
      rfl

theorem message_of_parts (h : ∀ part ∈ t.parts reg, part.of write m = .ok (bytes part.attr)) :
    message reg write m =
      .ok (t.codecAttrs.flatMap bytes ++ m.extensionBytes ++ m.unknown?.getD []) := by
  rw [message_eq_each ht hset hm, each_eq_flatMap h, ← t.parts_attrs reg, flatMap_map]
  rfl

include hclass

/-- A message whose parts are written again as before is written again as before. -/
theorem encodeMessage_of_parts (bytes : String → Bytes)
    (h : ∀ part ∈ t.parts reg, ∃ w, m.get? part.attr = some w ∧ ∀ fuel, w.weight ≤ fuel →
      part.write (encodeMessage reg fuel) w = .ok (bytes part.attr))
    {fuel : Nat} (hfuel : m.weight ≤ fuel) :
    encodeMessage reg fuel m =
      .ok (t.codecAttrs.flatMap bytes ++ m.extensionBytes ++ m.unknown?.getD []) := by
  have hpos := m.weight_pos
  obtain ⟨fuel, rfl⟩ : ∃ k, fuel = k + 1 := ⟨fuel - 1, by omega⟩
  refine message_of_parts ht hset hm fun part hpart => ?_
  obtain ⟨w, hw, hagain⟩ := h part hpart
  have hweight := Record.weight_lt_of_get? hw
  rw [part.of_eq ((Record.own?_eq_get? (hclass.attrsFree _ (codecAttr_of_part hpart)) m).trans hw)]
  exact hagain fuel (by omega)

theorem writes_of_field (hf : f ∈ t.fields) (hv : m.get? f.slot.attr = some v) (h : f.Holds v inner) :
    reg.Writes m inner := by
  refine ⟨t, ht, hset, .inl ⟨_, f, v, hm.tableOf_eq t, hf, ?_, h⟩⟩
  rw [Record.own?_eq_get? (hclass.field_attr_free hf), hv]

theorem writes_of_member (hcodec : t.codec? = some codec) (hgroup : group ∈ codec.groups)
    (hv : m.get? group.attr = some v) (hfind : reg.findMember v group.members = .ok (some member))
    (hread : reg.member v member.attr = .ok (.message inner)) (hkind : member.kind.isMessage = true) :
    reg.Writes m inner := by
  refine ⟨t, ht, hset, .inr ⟨codec, group, member, ?_, hgroup, hkind, v, ?_, ?_, hfind, hread⟩⟩
  · rw [hm.codecOf_eq, hcodec]
  · rw [Record.own?_eq_get? (hclass.group_attr_free (group_of_codec hcodec hgroup)), hv]
  · rintro rfl
    cases hread

end Parts

/-! ### Whole messages -/

section Contents

variable (hclass : t.Regular reg)
  (honeofs : ∀ group ∈ t.groups, ∀ v, m.get? group.attr = some v → v = .null ∨ group.Types reg v)
include hclass honeofs

theorem held_of_sets (hgroup : group ∈ t.groups) (h : reg.Sets m group member held) :
    ∃ id vt, reg.variantType? id = some vt ∧ m.get? group.attr = some (.variant id vt.stored held) := by
  have hfree := hclass.group_attr_free hgroup
  obtain ⟨v, hown, hne, _, hmember⟩ := h
  rw [Record.own?_eq_get? hfree] at hown
  obtain ⟨_, _, id, vt, held', _, hvt, rfl, _⟩ := (honeofs group hgroup v hown).resolve_left hne
  refine ⟨id, vt, hvt, ?_⟩
  unfold Registry.member at hmember
  simp only at hmember
  split at hmember
  · cases hmember
  · split at hmember
    · cases hmember
      exact hown
    · cases hmember

variable (ht : m.HasType reg t) (hclear : m.Clear)
include ht hclear

theorem cases_of_writes (h : reg.Writes m inner) :
    (∃ f ∈ t.fields, ∃ v, m.get? f.slot.attr = some v ∧ f.Holds v inner) ∨
      ∃ group ∈ t.groups, ∃ id stored,
        m.get? group.attr = some (.variant id stored (.message inner)) := by
  obtain ⟨t', ht', _, ⟨table, f, v, htable, hf, hown, hholds⟩ | ⟨codec, group, member, hcodec, hgroup,
    _, hsets⟩⟩ := h
  · cases ht.symm.trans ht'
    rw [hclear.tableOf_eq] at htable
    cases htable
    rw [Record.own?_eq_get? (hclass.field_attr_free hf)] at hown
    exact .inl ⟨f, hf, v, hown, hholds⟩
  · cases ht.symm.trans ht'
    rw [hclear.codecOf_eq] at hcodec
    have hmem := group_of_codec (Except.ok.inj hcodec) hgroup
    obtain ⟨id, vt, _, hv⟩ := held_of_sets hclass honeofs hmem hsets
    exact .inr ⟨group, hmem, id, vt.stored, hv⟩

theorem weight_lt_of_writes (h : reg.Writes m inner) : inner.weight < m.weight := by
  rcases cases_of_writes hclass honeofs ht hclear h with ⟨f, _, v, hv, hholds⟩ | ⟨group, _, id, stored, hv⟩
  · have := hholds.weight_le
    have := Record.weight_lt_of_get? hv
    omega
  · have hweight := Record.weight_lt_of_get? hv
    rw [Value.weight] at hweight
    have : inner.weight = (Value.message inner).weight := rfl
    omega

end Contents

section Messages

variable (hreg : reg.Regular) {write : Writer}
  (ht : m.HasType reg t) (htyped : t.Keeps reg m) (hfaithful : t.Faithful reg m)
include hreg ht htyped hfaithful

theorem messageSet_back (hset : t.isMessageSet = true) :
    ∃ bs, message reg write m = .ok bs ∧ ReadsBack reg m bs := by
  have hclass := hreg _ _ ht
  obtain ⟨hhas, hfields, hcodec⟩ := hclass.set hset
  have hclear := htyped.clear hclass.toStoresApart
  obtain ⟨ext, hext⟩ : ∃ ext, m.extensions? = some ext :=
    Option.isSome_iff_exists.mp (htyped.extensions.trans hhas)
  have hperm := perm_sortByNumber ext
  have hkeys : ((sortByNumber ext).map (·.1)).Nodup :=
    (hperm.map (·.1)).nodup_iff.mpr (htyped.numbersOnce ext hext)
  obtain ⟨bs, hwritten, hread⟩ := MessageSet.decode_writeItems (sortByNumber ext) (by
    intro p hp
    obtain ⟨hrange, hraw⟩ := htyped.extension ext hext p.1 p.2 (hperm.mem_iff.mp hp)
    unfold KeepsRaw at hraw
    rw [if_pos hset] at hraw hrange
    exact ⟨hrange, hraw⟩)
  refine ⟨bs, (message_of_items ht hset hclear hext).trans hwritten, fun t' ht' start hstart htype => ?_⟩
  cases ht.symm.trans ht'
  have hclassOf := ht.of_eq htype
  have hmerge : merge reg start bs = .done (start.keeping (sortByNumber ext)) [] := by
    rw [merge_eq_mergeSet hclassOf hset, Decode.mergeSet_eq hstart.clear (hstart.extensions hhas),
      hread [] hkeys]
    rfl
  have hclear' : Record.Clear (start.keeping (sortByNumber ext)) :=
    fun attr h => hstart.clear attr h
  refine ⟨_, ?_, fun h => absurd (hset.symm.trans h) (by simp), hmerge,
    fun h => absurd (hset.symm.trans h) (by simp), fun fuel hfuel => ?_⟩
  · refine equalTo_message hclass ht htyped.toInstance hfaithful.compares htype hclear' ?_
      htyped.numbersOnce (by rw [hext]; exact .some hperm)
    have hnone : t.codecAttrs = [] := by
      unfold codecAttrs groups
      rw [hfields, hcodec]
      rfl
    rw [hnone]
    exact forall_mem_nil _
  · have hpos := Value.weight_pos
      (.message (start.keeping (sortByNumber ext)))
    obtain ⟨fuel, rfl⟩ : ∃ k, fuel = k + 1 := ⟨fuel - 1, by unfold Record.weight at hfuel; omega⟩
    refine (message_of_items (m := start.keeping (sortByNumber ext)) hclassOf hset
      hclear' rfl).trans ?_
    rw [sortByNumber_sortByNumber, hwritten]

variable (hset : t.isMessageSet = false)
  (hin : ∀ inner, reg.Writes m inner → reg.Constructs inner ∧ Backed reg write inner)
include hset hin

/-- What is written of the parts of a message is read back. -/
theorem part_back (hpart : part ∈ t.parts reg) :
    ∃ v, m.get? part.attr = some v ∧ PartBack reg t part (t.startOf part.attr) v write := by
  have hclass := hreg _ _ ht
  have hclear := htyped.clear hclass.toStoresApart
  have hstored := hfaithful.stores _ (codecAttr_of_part hpart)
  obtain ⟨v, hv⟩ := htyped.get?_eq_some hstored
  refine ⟨v, hv, ?_⟩
  rcases mem_parts.mp hpart with ⟨f, hf, rfl⟩ | ⟨codec, hcodec, group, hgroup, rfl⟩
  · exact field_back hreg hclass write hf (hclass.unset_startOf hf hstored) (htyped.fields f hf v hv)
      fun inner hholds => hin inner (writes_of_field hclass ht hset hclear hf hv hholds)
  · have hmem := group_of_codec hcodec hgroup
    have htypes := htyped.oneofs group hmem v hv
    have hnames := hfaithful.oneofs codec hcodec group hgroup
    rw [show t.startOf (group.part reg codec).attr = .null from hclass.startOf_group hmem hstored]
    refine oneof_back hreg write hclass hmem (fun hne => ?_) htypes ?_ ?_
    · obtain ⟨_, _, id, vt, held, _, _, rfl, _⟩ := htypes.resolve_left hne
      exact (hnames id _ held hv).1
    · rintro member hmember id vt held hvariant hvt rfl
      exact (hnames id _ held hv).2 member hmember hvariant vt hvt
    · rintro member held hfind hread hmessage inner rfl
      exact hin inner (writes_of_member hclass ht hset hclear hcodec hgroup hv hfind hread hmessage)

/-- A message that is no message set is written attribute by attribute, and each attribute is read
back. -/
theorem attrs_back : ∃ (values : String → Value) (bytes : String → Bytes), (∀ attr ∈ t.codecAttrs, m.get? attr = some (values attr)) ∧
    (∀ part ∈ t.parts reg, part.write write (values part.attr) = .ok (bytes part.attr)) ∧
    message reg write m =
      .ok (t.codecAttrs.flatMap bytes ++ m.extensionBytes ++ m.unknown?.getD []) ∧
    (Short (t.codecAttrs.flatMap bytes) →
      ∃ back : String → Value, ∀ attr ∈ t.codecAttrs, EqualTo reg (values attr) (back attr) ∧
        Restores reg t attr (bytes attr) (back attr)) := by
  have hclass := hreg _ _ ht
  have hattrs : ∀ attr ∈ t.codecAttrs, ∃ v bs, m.get? attr = some v ∧
      (∀ part ∈ t.parts reg, part.attr = attr → part.write write v = .ok bs) ∧
      (Short bs → ∃ w, EqualTo reg v w ∧ Restores reg t attr bs w) := by
    intro attr hattr
    rw [← t.parts_attrs reg] at hattr
    obtain ⟨part, hpart, rfl⟩ := mem_map.mp hattr
    obtain ⟨v, hv, hback⟩ := part_back hreg ht htyped hfaithful hset hin hpart
    obtain ⟨bs, hbs, hback⟩ := hback.restores hclass hpart
    exact ⟨v, bs, hv, fun part' hpart' heq => hclass.part_eq hpart hpart' heq ▸ hbs, hback⟩
  have : Nonempty Value := ⟨.null⟩
  choose! values bytes hvalue hbytes hback using hattrs
  have hparts : ∀ part ∈ t.parts reg, part.write write (values part.attr) = .ok (bytes part.attr) :=
    fun part hpart => hbytes _ (codecAttr_of_part hpart) part hpart rfl
  refine ⟨values, bytes, hvalue, hparts, ?_, fun hlen => ?_⟩
  · refine message_of_parts ht hset (htyped.clear hclass.toStoresApart) fun part hpart => ?_
    have hattr := codecAttr_of_part hpart
    rw [part.of_eq ((Record.own?_eq_get? (hclass.attrsFree _ hattr) m).trans (hvalue _ hattr))]
    exact hparts part hpart
  · have hread := fun attr (hattr : attr ∈ t.codecAttrs) =>
      hback attr hattr (Short.of_flatMap hlen hattr)
    choose! back hread using hread
    exact ⟨back, hread⟩

omit hreg ht htyped hfaithful hin in
theorem extension_of_sorted (hclass : t.Regular reg) (hstores : ∀ ext, m.extensions? = some ext →
      ∀ number raw, (number, raw) ∈ ext → t.Stores number raw)
    {p : Int × Bytes} (hp : p ∈ m.sortedExtensions) :
    0 < p.1 ∧ p.1 ∉ t.numbers ∧ inRanges p.1 t.ranges = true ∧ p.2 ≠ [] ∧
      RecordsOf (fun n => (n : Int) = p.1) p.2 := by
  obtain ⟨ext, hext, hp⟩ := Record.mem_sortedExtensions.mp hp
  obtain ⟨hrange, hraw⟩ := hstores ext hext p.1 p.2 hp
  unfold KeepsRaw at hraw
  rw [if_neg (by simp [hset])] at hraw hrange
  obtain ⟨⟨hpos, _⟩, hnew⟩ := hclass.apart p.1 hrange
  exact ⟨hpos, hnew, hrange, hraw⟩

omit hfaithful hin in
theorem extensions_back (ext : RawMap) {pairs : RawMap}
    (hpairs : pairs.Sublist m.sortedExtensions) (hn : n.Clear)
    (hext : n.extensions? = m.extensions?.map fun _ => ext)
    (hnodup : ((ext ++ pairs).map (·.1)).Nodup) :
    Merges reg t (pairs.flatMap (·.2)) n { n with extensions? := m.extensions?.map fun _ => ext ++ pairs } := by
  cases hsome : m.extensions? with
  | none =>
    rw [hsome] at hext
    rw [Record.sortedExtensions, hsome] at hpairs
    cases sublist_nil.mp hpairs
    have hsame : ({ n with extensions? := none } : Message) = n := by
      rw [← show n.extensions? = none from hext]
    show Merges reg t [] n { n with extensions? := none }
    rw [hsame]
    exact Merges.nil n
  | some stored =>
    rw [hsome] at hext
    exact merges_extensions pairs
      (fun p hp => extension_of_sorted hset (hreg _ _ ht) htyped.extension (hpairs.mem hp)) n ext hn hext
      hnodup

omit hreg hfaithful hin hset ht in
theorem unknown_back (hn : n.Clear) (hempty : n.unknown? = m.unknown?.map fun _ => []) :
    Merges reg t (m.unknown?.getD []) n { n with unknown? := m.unknown? } := by
  cases hunknown : m.unknown? with
  | none =>
    rw [hunknown] at hempty
    have hsame : ({ n with unknown? := none } : Message) = n := by
      rw [← show n.unknown? = none from hempty]
    rw [hsame]
    exact Merges.nil n
  | some raw =>
    have hmerge : Merges reg t raw n { n with unknown? := n.unknown?.map (· ++ raw) } :=
      merges_unknown (htyped.unknownRecords raw hunknown) n hn
    rw [hempty, hunknown] at hmerge
    exact hmerge

omit hreg ht hfaithful hset hin htyped in
theorem MessageType.Fresh.stores {m : Message} (hstart : t.Fresh start) (hm : t.Instance m) :
    start.extensions? = (m.extensions?.map fun _ => []) ∧
      start.unknown? = m.unknown?.map fun _ => [] := by
  constructor
  · rw [hstart.extensions_eq, ← hm.extensions]
    cases m.extensions? <;> rfl
  · rw [hstart.unknown_eq, ← hm.unknown]
    cases m.unknown? <;> rfl

omit hreg ht hfaithful hset hin htyped in
theorem merge_of_merges {m' : Message} (hclass : t.Regular reg)
    (htype : start.HasType reg t) (hset : t.isMessageSet = false)
    (hstart : start.Clear) (h : Merges reg t bs start m') : merge reg start bs = .done m' [] := by
  have hread := h false []
  rw [append_nil, Decode.records_nil] at hread
  rw [merge_of_clear htype hclass.toSettled hstart hset]
  exact hread

omit hfaithful hin in
/-- Attributes and extensions that are written one after the other are read back one after the other. -/
theorem restored_back (hn : n.Clear) (hback : ∀ attr ∈ t.codecAttrs, EqualTo reg (values attr) (back attr) ∧
      Restores reg t attr (bytes attr) (back attr)) (hnodup : attrs.Nodup)
    (hattrs : ∀ attr ∈ attrs, attr ∈ t.codecAttrs ∧ n.get? attr = some (t.startOf attr))
    {pairs : RawMap} (hpairs : pairs.Sublist m.sortedExtensions)
    (hext : n.extensions? = m.extensions?.map fun _ => ext)
    (hnodup' : ((ext ++ pairs).map (·.1)).Nodup) :
    Merges reg t (attrs.flatMap bytes ++ pairs.flatMap (·.2)) n
      { n.fill attrs back with extensions? := m.extensions?.map fun _ => ext ++ pairs } := by
  have hfree := fun attr hattr => (hreg _ _ ht).attrsFree attr (hattrs attr hattr).1
  exact (merges_fill hnodup hn hfree fun attr hattr => ⟨(hattrs attr hattr).2,
    (hback attr (hattrs attr hattr).1).2.1⟩).append
      (extensions_back hreg ht htyped hset ext hpairs (hn.fill hfree back) hext hnodup')

/-- A message that is no message set is read back part by part. -/
theorem plainMessage_back : Backed reg (message reg write) m := by
  have hclass := hreg _ _ ht
  have hclear := htyped.clear hclass.toStoresApart
  obtain ⟨values, bytes, hvalue, _, hwritten, hback⟩ := attrs_back hreg ht htyped hfaithful hset hin
  refine ⟨_, hwritten, fun hlen t' ht' start hstart htype => ?_⟩
  cases ht.symm.trans ht'
  have hclassOf := ht.of_eq htype
  obtain ⟨back, hback⟩ := hback (Short.left hlen).left
  obtain ⟨hstartExt, hstartUnknown⟩ := hstart.stores htyped.toInstance
  have hfilled : (start.fill t.codecAttrs back).Clear := hstart.clear.fill hclass.attrsFree back
  have hstarts := fun attr (hattr : attr ∈ t.codecAttrs) =>
    hstart.toBlank.get?_eq hclass.toStoresApart (hfaithful.stores attr hattr)
  obtain ⟨n, hn, htype', hget, hext, hunknown, hmerges⟩ : ∃ n : Message, n.Clear ∧ n.type = m.type ∧
      (∀ attr ∈ t.codecAttrs, n.get? attr = some (back attr)) ∧
      n.extensions? = (m.extensions?.map fun _ => m.sortedExtensions) ∧ n.unknown? = m.unknown? ∧
      Merges reg t (t.codecAttrs.flatMap bytes ++ m.extensionBytes ++ m.unknown?.getD []) start n :=
    ⟨{ start.fill t.codecAttrs back with
        extensions? := m.extensions?.map fun _ => m.sortedExtensions, unknown? := m.unknown? },
      fun attr h => hfilled attr h, htype, fun attr hattr => (Record.get?_fill attr).trans (if_pos hattr),
      rfl, rfl, (restored_back hreg ht htyped hset hstart.clear hback hclass.attrsOnce
        (fun attr hattr => ⟨hattr, hstarts attr hattr⟩) (.refl _) hstartExt
        (Record.nodup_sortedExtensions htyped.numbersOnce)).append
          (unknown_back htyped (n := { start.fill t.codecAttrs back with
            extensions? := m.extensions?.map fun _ => m.sortedExtensions }) (fun attr h => hfilled attr h)
            hstartUnknown)⟩
  refine ⟨n, ?_, fun _ => hunknown, merge_of_merges hclass hclassOf hset hstart.clear hmerges,
    fun _ number hnumber rest => ?_, fun fuel hfuel => ?_⟩
  · refine equalTo_message hclass ht htyped.toInstance hfaithful.compares htype' hn
      (fun attr hattr => rel_of_eq_some (hvalue attr hattr) (hget attr hattr) (hback attr hattr).1)
      htyped.numbersOnce (hext ▸ Record.perm_extensions (.refl _))
  · have hread := hmerges true (writeKey number .endGroup ++ rest)
    rw [Decode.records_endGroup hnumber rest] at hread
    exact (mergeFrom_of_clear hclassOf hclass.toSettled hstart.clear true _).trans hread
  · have hsame : n.extensionBytes = m.extensionBytes := by
      unfold Record.extensionBytes Record.sortedExtensions
      rw [hext]
      cases hsome : m.extensions? with
      | none => rfl
      | some ext =>
        show List.flatMap _ (sortByNumber m.sortedExtensions) = _
        rw [Record.sortedExtensions, hsome]
        exact congrArg (List.flatMap (·.2)) (sortByNumber_sortByNumber ext)
    rw [← hsame, ← hunknown]
    exact encodeMessage_of_parts hclass (ht.of_eq htype') hset hn bytes (fun part hpart =>
      have hattr := codecAttr_of_part hpart
      ⟨_, hget _ hattr, (hback _ hattr).2.2 part hpart rfl⟩) hfuel

end Messages

/-- A message that is faithful throughout and holds what the encoder asks for is written, and read back
from what is written of it. -/
theorem backed_of_kept (hreg : reg.Regular) (fuel : Nat) :
    ∀ m : Message, m.weight ≤ fuel → reg.Throughout reg.Kept m → reg.Throughout reg.Faithful m →
      Backed reg (encodeMessage reg fuel) m := by
  induction fuel with
  | zero =>
    intro m hweight
    have hpos := m.weight_pos
    omega
  | succ fuel ih =>
    intro m hweight hkept hfaithful
    obtain ⟨t, ht, hm⟩ := hkept.here
    have hin : ∀ inner, reg.Writes m inner →
        reg.Constructs inner ∧ Backed reg (encodeMessage reg fuel) inner := by
      intro inner hwrites
      have hclass := hreg _ _ ht
      have hlt := weight_lt_of_writes hclass hm.oneofs ht (hm.clear hclass.toStoresApart) hwrites
      exact ⟨(hkept.inside hwrites).here.constructs,
        ih inner (by omega) (hkept.inside hwrites) (hfaithful.inside hwrites)⟩
    show Backed reg (message reg (encodeMessage reg fuel)) m
    cases hset : t.isMessageSet with
    | true =>
      obtain ⟨bs, hwritten, hback⟩ := messageSet_back hreg ht hm (hfaithful.here t ht) hset
      exact ⟨bs, hwritten, fun _ => hback⟩
    | false => exact plainMessage_back hreg ht hm (hfaithful.here t ht) hset hin

/-- A message that is well-typed and faithful throughout is written, and read back from what is
written of it. -/
theorem backed_encodeMessage (hreg : reg.Regular) (fuel : Nat) (m : Message) (hweight : m.weight ≤ fuel)
    (htyped : reg.Throughout reg.Typed m) (hfaithful : reg.Throughout reg.Faithful m) :
    Backed reg (encodeMessage reg fuel) m :=
  backed_of_kept hreg fuel m hweight (fun inner hpath => (htyped inner hpath).kept hreg) hfaithful

end Protobind

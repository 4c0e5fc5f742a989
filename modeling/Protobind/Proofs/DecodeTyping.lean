import Protobind.Proofs.DecodeSafety
import Protobind.Proofs.MessageRoundTrip
import Protobind.Proofs.Singles

/-!
# What is read is well-typed

Data that is merged into a message leaves values of the kinds and in the ranges that the tables ask
for (`Decode.grows_merge`). A number may be a NaN, and a required field need not be there. The
invariant is that every message inside a message holds what its class asks for (`Value.Filled`). One
record keeps it, and by induction on the length of the data so do all of them.
-/

namespace Protobind

open List Registry Kind Varint Record Reader

open Decode (Nested)

variable {σ : Type} {reg : Registry} {t : MessageType} {f : Field} {slot : Slot} {m : Message}
  {v current w : Value} {bs rest raw rest' start : Bytes} {accepts : Kind → Value → Prop}
  {attr : String} {entries : List (Value × Value)} {ext : RawMap} {id : ClassId}
  {items : List Value} {kind : Kind} {member : VariantMember} {p : Value → Prop} {tag : Nat}

/-! ## Typing without required fields -/

section Takes

variable (reg : Registry) (accepts : Kind → Value → Prop)

/-- Whether a value is one that a field may have. A field may be unset even if it is required. -/
def Field.Takes : Field → Value → Prop
  | .plain slot, v =>
    if slot.tag.repeated then ∃ items, v = .list items ∧ ∀ item ∈ items, slot.Takes reg accepts item
    else v = .null ∧ slot.isImplicit = false ∨ slot.Takes reg accepts v
  | .map _ key val, v =>
    ∃ entries, v = .map entries ∧ DistinctKeys entries ∧
      ∀ k item, (k, item) ∈ entries →
        key.slot.Takes reg accepts k ∧ val.slot.Takes reg accepts item

/-- Whether a message is an instance of a class and has what the tables of the class ask for, but for
required fields. -/
structure MessageType.Takes (t : MessageType) (m : Message) : Prop extends t.Built m where
  fields : ∀ f ∈ t.fields, ∀ v, m.get? f.slot.attr = some v → f.Takes reg accepts v
  oneofs : ∀ group ∈ t.groups, ∀ v, m.get? group.attr = some v →
    v = .null ∨ group.Takes reg accepts v
  extension : ∀ ext, m.extensions? = some ext → ∀ number raw, (number, raw) ∈ ext →
    t.Stores number raw

/-- Whether a message has what its class asks for, but for required fields. -/
def Registry.Takes (m : Message) : Prop :=
  ∃ t, reg.messageType? m.type = some t ∧ t.Takes reg accepts m

end Takes

theorem Field.Types.takes (h : f.Types reg v) : f.Takes reg Accepts v := by
  cases f with
  | plain slot =>
    simp only [Field.Types, Field.Takes] at h ⊢
    split at h
    · rename_i hrepeated
      rwa [if_pos hrepeated]
    · rename_i hrepeated
      rw [if_neg hrepeated]
      exact h.imp_left fun hnull => ⟨hnull.1, hnull.2.2⟩
  | map slot key val => exact h

/-- A message inside a field is the value of the field, or in the list or the map that is. -/
theorem Field.Takes.holds_cases {inner : Message} (hf : f.Regular reg) (hv : f.Takes reg accepts v)
    (h : f.Holds v inner) : v = .message inner ∨ (∃ items, v = .list items ∧ .message inner ∈ items) ∨
      ∃ entries k, v = .map entries ∧ (k, .message inner) ∈ entries := by
  cases f with
  | plain slot =>
    obtain ⟨_, h⟩ := h
    simp only [Field.Takes] at hv
    split at h
    · rename_i hrepeated
      rw [if_pos hrepeated] at hv
      obtain ⟨items, rfl, _⟩ := hv
      obtain ⟨_, ⟨⟩, hmem⟩ := h
      exact .inr (.inl ⟨items, rfl, hmem⟩)
    · exact .inl h
  | map slot key val =>
    obtain ⟨entries, rfl, _⟩ := hv
    obtain ⟨_, k, item, hentries, hmem, h⟩ := h
    rw [Value.entries_map] at hentries
    cases hentries
    obtain ⟨key, val, rfl, rfl⟩ := hf.map_plain
    obtain ⟨_, hplain, _, _, _, hvalOnce, _⟩ := hf
    rcases h with ⟨hmessage, _⟩ | ⟨_, h⟩
    · rw [hplain] at hmessage
      cases hmessage
    · rw [if_neg (by simp [hvalOnce])] at h
      exact .inr (.inr ⟨entries, k, rfl, (show item = .message inner from h) ▸ hmem⟩)

theorem MessageType.Keeps.takes (hm : t.Keeps reg m) : t.Takes reg Accepts m where
  toBuilt := hm.toBuilt
  fields := fun f hf v hv => (hm.fields f hf v hv).takes
  oneofs := hm.oneofs
  extension := hm.extension

/-- What is written of a oneof is nothing, or what is written of the member that is set. -/
theorem member_of_oneof {codec : OneofCodec} {group : OneofSlot} {write : Writer}
    (hclass : t.Regular reg)
    (ht : m.HasType reg t) (hm : t.Takes reg accepts m) (hfaithful : t.Faithful reg m)
    (hset : t.isMessageSet = false) (hcodec : t.codec? = some codec) (hgroup : group ∈ codec.groups)
    (hv : m.get? group.attr = some v) :
    v = .null ∨ ∃ member ∈ group.members, ∃ held, member.Takes accepts held ∧
      Encode.oneofValue reg codec group write v = Encode.single write member.slot held ∧
      (member.kind.isMessage = true → ∀ inner, held = .message inner → reg.Writes m inner) := by
  have hmem := group_of_codec hcodec hgroup
  rcases hm.oneofs group hmem v hv with rfl | ⟨member, hmember, id, vt, held, hvariant, hvt, rfl, _, hheld⟩
  · exact .inl rfl
  · obtain ⟨hbound, hnames⟩ := hfaithful.oneofs codec hcodec group hgroup id vt.stored held hv
    have hfind := hclass.findMember_eq hmem hmember hvariant hvt held
    have hread := member_eq hvt (hnames member hmember hvariant vt hvt) held
    refine .inr ⟨member, hmember, held, hheld, oneofValue_eq write rfl hbound hfind hread, ?_⟩
    rintro hmessage inner rfl
    exact writes_of_member hclass ht hset (hm.clear hclass.toStoresApart) hcodec hgroup hv hfind hread
      hmessage

/-- Whether a value is a part of another one. The parts of a message are those that the tables of its
class name. -/
inductive Registry.Inside (reg : Registry) (v : Value) : Value → Prop
  | self : reg.Inside v v
  | item {items : List Value} {x : Value} (hmem : x ∈ items) (h : reg.Inside v x) :
      reg.Inside v (.list items)
  | key {entries : List (Value × Value)} {k x : Value} (hmem : (k, x) ∈ entries)
      (h : reg.Inside v k) : reg.Inside v (.map entries)
  | entry {entries : List (Value × Value)} {k x : Value} (hmem : (k, x) ∈ entries)
      (h : reg.Inside v x) : reg.Inside v (.map entries)
  | held {id : ClassId} {stored : String} {x : Value} (h : reg.Inside v x) :
      reg.Inside v (.variant id stored x)
  | attr {m : Message} {t : MessageType} {attr : String} {x : Value}
      (type : reg.messageType? m.type = some t) (hattr : attr ∈ t.codecAttrs)
      (hget : m.get? attr = some x) (h : reg.Inside v x) : reg.Inside v (.message m)

/-- Whether all messages inside a value have what their classes ask for, but for required fields. -/
def Value.Filled (reg : Registry) (accepts : Kind → Value → Prop) (v : Value) : Prop :=
  ∀ inner, reg.Inside (.message inner) v → reg.Takes accepts inner

namespace Value

theorem filled_of_isKey (h : v.isKey = true) : v.Filled reg accepts := by
  intro inner hin
  cases hin <;> cases h

theorem filled_list :
    (Value.list items).Filled reg accepts ↔ ∀ item ∈ items, item.Filled reg accepts := by
  constructor
  · exact fun h item hmem inner hin => h inner (.item hmem hin)
  · intro h inner hin
    cases hin with
    | item hmem hin => exact h _ hmem inner hin

theorem filled_map : (Value.map entries).Filled reg accepts ↔
      ∀ k x, (k, x) ∈ entries → k.Filled reg accepts ∧ x.Filled reg accepts := by
  constructor
  · exact fun h k x hmem =>
      ⟨fun inner hin => h inner (.key hmem hin), fun inner hin => h inner (.entry hmem hin)⟩
  · intro h inner hin
    cases hin with
    | key hmem hin => exact (h _ _ hmem).1 inner hin
    | entry hmem hin => exact (h _ _ hmem).2 inner hin

theorem filled_variant {stored : String} {held : Value} :
    (Value.variant id stored held).Filled reg accepts ↔ held.Filled reg accepts := by
  constructor
  · exact fun h inner hin => h inner (.held hin)
  · intro h inner hin
    cases hin with
    | held hin => exact h inner hin

theorem filled_message (ht : m.HasType reg t) :
    (Value.message m).Filled reg accepts ↔ t.Takes reg accepts m ∧
      ∀ attr ∈ t.codecAttrs, ∀ v, m.get? attr = some v → v.Filled reg accepts := by
  constructor
  · intro h
    obtain ⟨t', ht', htakes⟩ := h m .self
    cases ht.symm.trans ht'
    exact ⟨htakes, fun attr hattr v hv inner hin => h inner (.attr ht hattr hv hin)⟩
  · rintro ⟨htakes, hattrs⟩ inner hin
    cases hin with
    | self => exact ⟨t, ht, htakes⟩
    | attr ht' hattr hv hin =>
      cases ht.symm.trans ht'
      exact hattrs _ hattr _ hv inner hin

end Value

section

variable (hattr : attr ∈ t.storedAttrs)
  (hfields : ∀ f ∈ t.fields, f.slot.attr = attr → f.Takes reg accepts v)
  (hgroups : ∀ group ∈ t.groups, group.attr = attr → group.Takes reg accepts v)
include hattr hfields hgroups

theorem MessageType.Takes.set (hm : t.Takes reg accepts m) : t.Takes reg accepts (m.set attr v) where
  attrs := fun a => by
    rw [get?_set]
    split
    · rename_i heq
      have : attr = a := by simpa using heq
      simp [← this, hattr]
    · exact hm.attrs a
  extensions := hm.extensions
  unknown := hm.unknown
  constructs := hm.constructs
  fields := fun f hf w hw => by
    rw [get?_set] at hw
    split at hw
    · rename_i heq
      cases hw
      exact hfields f hf (beq_iff_eq.mp heq).symm
    · exact hm.fields f hf w hw
  oneofs := fun group hgroup w hw => by
    rw [get?_set] at hw
    split at hw
    · rename_i heq
      cases hw
      exact .inr (hgroups group hgroup (beq_iff_eq.mp heq).symm)
    · exact hm.oneofs group hgroup w hw
  numbersOnce := hm.numbersOnce
  extension := hm.extension
  unknownRecords := hm.unknownRecords

theorem Value.Filled.set (hm : (Value.message m).Filled reg accepts)
    (ht : m.HasType reg t) (hv : v.Filled reg accepts) :
    (Value.message (m.set attr v)).Filled reg accepts := by
  obtain ⟨htakes, hattrs⟩ := (Value.filled_message ht).mp hm
  refine (Value.filled_message (m := m.set attr v) ht).mpr
    ⟨htakes.set hattr hfields hgroups, fun a ha w hw => ?_⟩
  rw [get?_set] at hw
  split at hw
  · cases hw
    exact hv
  · exact hattrs a ha w hw

end

/-! ## Values that are read -/

/-- Whether a value is one that fields of a kind hold, unless it is a NaN. -/
def Kind.Reads (kind : Kind) (v : Value) : Prop :=
  (∀ d, v = .float d → d.isNaN = false) → kind.Accepts v

theorem signed32_bounds (n : Int) : -2147483648 ≤ signed32 n ∧ signed32 n < 2147483648 := by
  unfold signed32
  exact ⟨Int.le_bmod (by decide), Int.bmod_lt (by decide)⟩

theorem signed64_bounds (n : Int) :
    -9223372036854775808 ≤ signed64 n ∧ signed64 n < 9223372036854775808 := by
  unfold signed64
  exact ⟨Int.le_bmod (by decide), Int.bmod_lt (by decide)⟩

theorem unzigzag_bounds {w : Nat} {n : Nat} (h : w < 2 * n) :
    -(n : Int) ≤ unzigzag w ∧ unzigzag w < n := by
  unfold unzigzag
  split <;> omega

theorem readRun_lt {data : Bytes} (h : readRun bs = .ok data rest) : Short data := by
  obtain ⟨n, rest', hn, h⟩ := bind_ok.mp h
  obtain ⟨rfl, _⟩ := takeBytes_ok.mp h
  exact read_lt hn

namespace Decode

theorem mapParse_imp {α : Type} {f : α → Value} {r : Reader α}
    (h : mapParse f (ofReader r) bs = .ok (v, rest)) (hp : ∀ a rest, r bs = .ok a rest → p (f a)) :
    p v := by
  obtain ⟨a, ha, rfl⟩ := mapParse_eq_ok.mp h
  exact hp a rest (ofReader_eq_ok.mp ha)

theorem mapParse_lift_imp {f : Int → Value} {r : Reader Nat}
    (h : mapParse f (ofReader (r >>= fun a => pure (a : Int))) bs = .ok (v, rest))
    (hp : ∀ (a : Nat) rest, r bs = .ok a rest → p (f a)) : p v := by
  refine mapParse_imp h fun n rest hn => ?_
  obtain ⟨a, _, ha, hn⟩ := bind_ok.mp hn
  cases hn
  exact hp a _ ha

theorem reads_scalar (hslot : slot.Resolves reg) (hkind : slot.kind = .known kind)
    (hplain : kind.isMessage = false) (h : scalar reg slot bs = .ok (v, rest)) :
    kind.Reads v ∧ v.isKey = true := by
  have hsafe := safe_scalar hslot (by rw [hkind]; exact hplain) bs
  rw [h] at hsafe
  refine ⟨?_, hsafe.1⟩
  unfold scalar at h
  rw [hkind] at h
  cases kind with
  | message | group => cases hplain
  | double => exact mapParse_imp h fun n _ _ hnan => ⟨_, rfl, hnan _ rfl⟩
  | float =>
    refine mapParse_imp h fun n _ _ hnan => ?_
    have hnumber := hnan _ rfl
    exact ⟨_, rfl, hnumber, Double.toSingle?_ofSingle hnumber⟩
  | int64 | sfixed64 => exact mapParse_imp h fun n _ _ _ => ⟨_, rfl, signed64_bounds n⟩
  | int32 | sfixed32 => exact mapParse_imp h fun n _ _ _ => ⟨_, rfl, signed32_bounds n⟩
  | uint64 =>
    refine mapParse_lift_imp h fun n _ hn _ => ⟨_, rfl, ?_⟩
    have := read_lt hn
    omega
  | fixed64 =>
    refine mapParse_lift_imp h fun n _ hn _ => ⟨_, rfl, ?_⟩
    have := readFixed64_lt hn
    omega
  | uint32 =>
    refine mapParse_imp h fun n _ _ _ => ⟨_, rfl, ?_⟩
    have := word32_lt n
    omega
  | fixed32 =>
    refine mapParse_lift_imp h fun n _ hn _ => ⟨_, rfl, ?_⟩
    have := readFixed32_lt hn
    omega
  | enum =>
    obtain ⟨⟨n, rest'⟩, _, h⟩ := bind_eq_ok.mp h
    obtain ⟨w, hw, h⟩ := bind_eq_ok.mp h
    cases h
    intro _
    obtain ⟨w', hw', hint, _⟩ := hslot.enumValue hkind (signed32 n)
    cases hw.symm.trans hw'
    exact ⟨signed32 n, hint, signed32_bounds n⟩
  | bool =>
    refine mapParse_imp h fun n _ _ _ => ⟨if (n != 0) then 1 else 0, rfl, ?_⟩
    split
    · exact .inr rfl
    · exact .inl rfl
  | string => exact mapParse_imp h fun s _ _ _ => ⟨s, rfl⟩
  | bytes => exact mapParse_imp h fun bs _ _ _ => ⟨bs, rfl⟩
  | sint32 =>
    refine mapParse_imp h fun n rest hn _ => ⟨n, rfl, ?_⟩
    obtain ⟨w, _, rfl⟩ := map_ok.mp hn
    exact unzigzag_bounds (n := 2147483648) (by omega)
  | sint64 =>
    refine mapParse_imp h fun n rest hn _ => ⟨n, rfl, ?_⟩
    obtain ⟨w, hw, rfl⟩ := map_ok.mp hn
    have := read_lt hw
    exact unzigzag_bounds (n := 9223372036854775808) (by omega)

end Decode

/-! ## Fields -/

/-- Whether an outcome, if it is one of success, has a property. -/
abbrev Outcome.Yields (p : σ → Prop) (o : Outcome σ) : Prop := o.Ends p fun _ => True

/-- Whether a value is one that a table entry of single values asks for, and filled. -/
def Slot.Fills (reg : Registry) (slot : Slot) (v : Value) : Prop :=
  slot.Takes reg Reads v ∧ v.Filled reg Reads

/-- Whether a value is one that a field may have, and filled. -/
def Field.Fills (reg : Registry) (f : Field) (v : Value) : Prop :=
  f.Takes reg Reads v ∧ v.Filled reg Reads

/-- Whether merging leaves a filled message of the same class behind. -/
def Record.GrowsTo (reg : Registry) (m m' : Message) : Prop :=
  (Value.message m').Filled reg Reads ∧ m'.type = m.type

/-- The attributes of the classes that store their oneofs under the names that the codec uses. -/
def Registry.StoresOneofs (reg : Registry) : Prop :=
  ∀ id t, reg.messageType? id = some t → ∀ group ∈ t.groups, group.attr ∈ t.storedAttrs

theorem Kind.Reads.ne_null (h : kind.Reads v) : v ≠ .null := by
  rintro rfl
  have := (h fun d hd => by cases hd).isNull
  cases this

theorem Slot.Takes.isNull (h : slot.Takes reg Reads v) : v.isNull = false := by
  obtain ⟨kind, _, h⟩ := h
  split at h
  · obtain ⟨inner, _, rfl, _⟩ := h
    rfl
  · have hne := h.ne_null
    cases v with
    | null => exact absurd rfl hne
    | _ => rfl

theorem Slot.fills_of_reads (hkind : slot.kind = .known kind) (hplain : kind.isMessage = false)
    (hreads : kind.Reads v) (hkey : v.isKey = true) : slot.Fills reg v := by
  refine ⟨⟨kind, hkind, ?_⟩, Value.filled_of_isKey hkey⟩
  rwa [if_neg (by simp [hplain])]

theorem Field.Unset.fills (h : f.Unset v) : f.Fills reg v := by
  cases f with
  | map slot key val =>
    cases h
    refine ⟨⟨[], rfl, .nil, fun k item hmem => absurd hmem not_mem_nil⟩, ?_⟩
    exact Value.filled_map.mpr fun k x hmem => absurd hmem not_mem_nil
  | plain slot =>
    simp only [Field.Unset] at h
    simp only [Field.Fills, Field.Takes]
    split at h
    · cases h
      rename_i hrepeated
      rw [if_pos hrepeated]
      refine ⟨⟨[], rfl, forall_mem_nil _⟩, ?_⟩
      exact Value.filled_list.mpr (forall_mem_nil _)
    · rename_i hrepeated
      rw [if_neg hrepeated]
      split at h
      · rename_i himplicit
        obtain ⟨kind, hkind, haccepts, _⟩ := h
        have hplain := (Slot.isMessage_eq hkind).symm.trans (Slot.isMessage_of_isImplicit himplicit)
        exact (Slot.fills_of_reads hkind hplain (fun _ => haccepts) haccepts.isKey).imp_left .inr
      · rename_i himplicit
        cases h
        exact ⟨.inl ⟨rfl, by simpa using himplicit⟩, Value.filled_of_isKey rfl⟩

/-! ## New messages -/

section

variable (hm : m.Clear) (hkeys : ∀ attr, (m.get? attr).isSome = true → attr ∈ t.storedAttrs)
  (hext : t.hasExtensions = false → m.extensions? = none)
  (hunknown : t.keepsUnknown = false → m.unknown? = none)
include hm hkeys hext hunknown

theorem MessageType.StoresApart.instance_initialized (ht : t.StoresApart) :
    t.Instance (initialized t [] m) := by
  have hfresh := ht.fresh_initialized hm hext hunknown
  refine ⟨fun attr => ⟨fun hsome => ?_, fun hattr => ?_⟩, ?_, ?_⟩
  · by_contra hnot
    rw [ht.initialized_eq hm] at hsome
    have hframe : (m.setAll t.initialPairs).get? attr = m.get? attr :=
      get?_setAll_of_not_mem (by rwa [t.initialPairs_attrs])
    exact hnot (hkeys attr (hframe ▸ hsome))
  · obtain ⟨p, hp, rfl⟩ := mem_map.mp hattr
    rw [hfresh.stored p hp]
    rfl
  · rw [hfresh.extensions_eq]
    cases t.hasExtensions <;> rfl
  · rw [hfresh.unknown_eq]
    cases t.keepsUnknown <;> rfl

theorem MessageType.Regular.filled_initialized (hclass : t.Regular reg) (hcall : t.callFault? [] = none)
    (ht : m.HasType reg t) : m.GrowsTo reg (initialized t [] m) := by
  have hapart := hclass.toStoresApart
  have hinstance := hapart.instance_initialized hm hkeys hext hunknown
  have hfresh := hapart.fresh_initialized hm hext hunknown
  have htype := hapart.type_initialized hm
  -- What the constructor stores under a name is what the parameter of that name starts with.
  have hstart : ∀ attr v, (initialized t [] m).get? attr = some v →
      ∃ p ∈ t.params, p.attr = attr ∧ p.start = v := by
    intro attr v hv
    obtain ⟨p, hp, rfl⟩ := mem_map.mp ((hinstance.attrs attr).mp (by rw [hv]; rfl))
    exact ⟨p, hp, rfl, Option.some.inj ((hfresh.stored p hp).symm.trans hv)⟩
  have hnone : ∀ ext, (initialized t [] m).extensions? = some ext → ext = [] := fun ext h =>
    (Option.some.inj (Option.ite_none_right_eq_some.mp (hfresh.extensions_eq.symm.trans h)).2).symm
  refine ⟨(Value.filled_message (ht.of_eq htype)).mpr ⟨?_, ?_⟩, htype⟩
  · refine
      { toInstance := hinstance, constructs := hcall, numbersOnce := fun ext h => ?_,
        unknownRecords := fun raw h => ?_, fields := fun f hf v hv => ?_,
        oneofs := fun group hgroup v hv => ?_, extension := fun ext h number raw hmem => ?_ }
    · cases hnone ext h
      exact .nil
    · obtain ⟨_, hnil⟩ := Option.ite_none_right_eq_some.mp (hfresh.unknown_eq.symm.trans h)
      cases hnil
      exact .nil
    · obtain ⟨p, hp, hattr, rfl⟩ := hstart _ v hv
      exact (hclass.unset f hf p hp hattr).fills.1
    · obtain ⟨p, hp, hattr, rfl⟩ := hstart _ v hv
      exact .inl (hclass.unsetOneofs group hgroup p hp hattr)
    · cases hnone ext h
      exact absurd hmem not_mem_nil
  · intro attr hattr v hv
    obtain ⟨p, hp, heq, rfl⟩ := hstart attr v hv
    rcases MessageType.mem_codecAttrs.mp hattr with ⟨f, hf, rfl⟩ | ⟨group, hmem, rfl⟩
    · exact (hclass.unset f hf p hp heq).fills.2
    · rw [hclass.unsetOneofs group hmem p hp heq]
      exact Value.filled_of_isKey rfl

end

namespace Decode

/-- Whether readers for messages leave filled messages behind, on data of at most `n` bytes. A group is
no message set. -/
abbrev Nested.FillsUpTo (reg : Registry) (n : Nat) (nested : Nested) : Prop :=
  nested.KeepsUpTo (fun m => (Value.message m).Filled reg Reads)
    (fun id => ∀ t, reg.messageType? id = some t → t.isMessageSet = false) (fun _ => True) n

section Fields

variable (hreg : reg.Regular) {n : Nat} {nested : Nested}

theorem fills_scalar (hslot : slot.Resolves reg) (hplain : slot.kind.isMessage = false)
    (h : scalar reg slot bs = .ok (v, rest)) : slot.Fills reg v := by
  obtain ⟨kind, hkind⟩ := hslot.known
  have hkindPlain : kind.isMessage = false := Slot.isMessage_eq hkind ▸ hplain
  obtain ⟨hreads, hkey⟩ := reads_scalar hslot hkind hkindPlain h
  exact Slot.fills_of_reads hkind hkindPlain hreads hkey

theorem fills_message (hslot : slot.Resolves reg) (hmessage : slot.kind.isMessage = true) {name : String}
    (hname : slot.typeName? = some name)
    (hbound : reg.messageTypes.get? name = some (.type m.type))
    (hm : (Value.message m).Filled reg Reads) : slot.Fills reg (.message m) := by
  obtain ⟨kind, hkind⟩ := hslot.known
  refine ⟨⟨kind, hkind, ?_⟩, hm⟩
  rw [if_pos (show kind.isMessage = true from Slot.isMessage_eq hkind ▸ hmessage)]
  exact ⟨m, name, rfl, hname, hbound⟩

include hreg in
theorem filled_instantiate (ht : reg.messageType? id = some t)
    (h : reg.instantiate (.type id) = .ok v) :
    ∃ m : Message, v = .message m ∧ m.type = id ∧ (Value.message m).Filled reg Reads := by
  cases hcall : t.callFault? [] with
  | some fault => rw [instantiate_of_fault ht hcall] at h; cases h
  | none =>
    rw [instantiate_message ht hcall] at h
    cases h
    obtain ⟨hfilled, htype⟩ := MessageType.Regular.filled_initialized (m := { type := id, attrs := [] })
      (fun _ _ => rfl) (fun attr hsome => by cases hsome) (fun _ => rfl) (fun _ => rfl) (hreg _ _ ht)
      hcall ht
    exact ⟨_, rfl, htype, hfilled⟩

include hreg in
theorem fills_new (hslot : slot.Resolves reg) (hmessage : slot.kind.isMessage = true)
    (h : newMessage reg slot = .ok v) :
    ∃ m : Message, v = .message m ∧ slot.Fills reg (.message m) := by
  obtain ⟨name, id, t, hname, hbound, ht⟩ := hslot.message hmessage
  have hnew : reg.instantiate (.type id) = .ok v := by
    unfold newMessage messageClass at h
    simp only [hname, hbound] at h
    exact h
  obtain ⟨m, rfl, rfl, hfilled⟩ := filled_instantiate hreg ht hnew
  exact ⟨m, rfl, fills_message hslot hmessage hname hbound hfilled⟩

section Nested

variable (hn : nested.FillsUpTo reg n)
include hn

theorem grows_embedded (hm : (Value.message m).Filled reg Reads) (isGroup : Bool)
    (hgroup : isGroup = true → ∀ t, m.HasType reg t → t.isMessageSet = false)
    (hbs : bs.length ≤ n) :
    (embedded nested isGroup (.message m) bs).Yields fun v => ∃ m', v = .message m' ∧ m.GrowsTo reg m' :=
  ends_embedded (fun _ => trivial) (fun payload _ => (hn m payload (by omega) hm).1) fun h =>
    (hn m bs hbs hm).2 (hgroup h)

omit hn in
theorem fills_single_scalar (hslot : slot.Resolves reg) (hplain : slot.kind.isMessage = false)
    (nested : Nested) (current : Value) (bs : Bytes) :
    (single reg nested slot current bs).Yields (slot.Fills reg) := by
  rw [single_of_isMessage_eq_false hplain]
  cases hscalar : scalar reg slot bs with
  | error fault => trivial
  | ok r => exact fills_scalar hslot hplain hscalar

include hreg in
theorem fills_single (hslot : slot.Regular reg)
    (hcurrent : current = .null ∨ slot.Fills reg current) (hbs : bs.length ≤ n) :
    (single reg nested slot current bs).Yields (slot.Fills reg) := by
  cases hmessage : slot.kind.isMessage with
  | false => exact fills_single_scalar hslot.toResolves hmessage nested current bs
  | true =>
    obtain ⟨name, _, _, hname, _⟩ := hslot.message hmessage
    -- What grows out of a message that fills the entry fills it too.
    have hgrown : ∀ v, slot.Fills reg v →
        (embedded nested (slot.kind = .known .group) v bs).Yields (slot.Fills reg) := by
      rintro v ⟨⟨kind, hkind, htakes⟩, hfilled⟩
      rw [if_pos (by rwa [hkind] at hmessage)] at htakes
      obtain ⟨m, name', rfl, hname', hbound⟩ := htakes
      refine (grows_embedded hn hfilled _ (fun hgroup t =>
        hslot.group (by simpa using hgroup) name' m.type t hname' hbound) hbs).imp fun v hv => ?_
      obtain ⟨m', rfl, hfilled', htype⟩ := hv
      exact fills_message hslot.toResolves hmessage hname' (htype ▸ hbound) hfilled'
    refine ends_single_message hmessage (by rw [hname]; rfl) (fun _ => ?_) fun hnull => ?_
    · cases hnew : newMessage reg slot with
      | error fault => trivial
      | ok v =>
        obtain ⟨m, rfl, hfills⟩ := fills_new hreg hslot.toResolves hmessage hnew
        exact hgrown _ hfills
    · rcases hcurrent with rfl | hcurrent
      · cases hnull
      · exact hgrown _ hcurrent

/-! ### Lists -/

include hreg in
theorem fills_repeated (hslot : slot.Regular reg) (wire : Nat)
    (hitems : ∀ item ∈ items, slot.Fills reg item) (hbs : bs.length ≤ n) :
    (repeated reg nested slot wire (.list items) bs).Yields fun v =>
      ∃ items', v = .list items' ∧ ∀ item ∈ items', slot.Fills reg item :=
  ends_repeated (fun _ => trivial) (.inr ⟨items, rfl, hitems⟩) wire
    (fun hplain => fills_single_scalar hslot.toResolves hplain nested .null)
    (fills_single hreg hn hslot (.inl rfl) hbs)

/-! ### Maps -/

include hreg in
omit hn in
theorem fills_orZero (hslot : slot.Resolves reg) (hv : v = .null ∨ slot.Fills reg v)
    (h : orZero reg slot v = .ok w) : slot.Fills reg w := by
  unfold orZero at h
  rcases hv with rfl | hv
  · rw [if_pos (show Value.null.isNull = true from rfl)] at h
    obtain ⟨kind, hkind⟩ := hslot.known
    have hscalar (w : Value) (hplain : kind.isMessage = false) (haccepts : kind.Accepts w) :
        slot.Fills reg w := Slot.fills_of_reads hkind hplain (fun _ => haccepts) haccepts.isKey
    unfold zero at h
    rw [hkind] at h
    cases kind with
    | message | group =>
      obtain ⟨m, rfl, hfills⟩ := fills_new hreg hslot (by rw [hkind]; rfl) h
      exact hfills
    | double => cases h; exact hscalar _ rfl ⟨_, rfl, rfl⟩
    | float => cases h; exact hscalar _ rfl ⟨_, rfl, rfl, by decide⟩
    | string | bytes => cases h; exact hscalar _ rfl ⟨_, rfl⟩
    | bool => cases h; exact hscalar _ rfl ⟨0, rfl, .inl rfl⟩
    | _ => cases h; exact hscalar _ rfl ⟨0, rfl, by omega, by omega⟩
  · rw [if_neg (by simp [hv.1.isNull])] at h
    cases h
    exact hv

end Nested

end Fields

end Decode

namespace Value

theorem mem_setEntry {key value : Value} {e : Value × Value} (h : e ∈ setEntry key value entries) :
    (e.2 = value ∧ (e.1 = key ∨ ∃ x, (e.1, x) ∈ entries)) ∨ e ∈ entries := by
  induction entries with
  | nil =>
    cases mem_singleton.mp h
    exact .inl ⟨rfl, .inl rfl⟩
  | cons first entries ih =>
    obtain ⟨k, v⟩ := first
    unfold setEntry at h
    split at h
    · rcases mem_cons.mp h with rfl | h
      · exact .inl ⟨rfl, .inr ⟨v, mem_cons_self⟩⟩
      · exact .inr (mem_cons_of_mem _ h)
    · rcases mem_cons.mp h with rfl | h
      · exact .inr mem_cons_self
      · rcases ih h with ⟨hvalue, hkey⟩ | hmem
        · exact .inl ⟨hvalue, hkey.imp_right (·.imp fun _ => mem_cons_of_mem _)⟩
        · exact .inr (mem_cons_of_mem _ hmem)

theorem distinct_setEntry (h : DistinctKeys entries) (key value : Value) :
    DistinctKeys (setEntry key value entries) := by
  induction entries with
  | nil => exact pairwise_singleton _ _
  | cons first entries ih =>
    obtain ⟨k, v⟩ := first
    obtain ⟨hfirst, hrest⟩ := pairwise_cons.mp h
    unfold setEntry
    split
    · exact pairwise_cons.mpr ⟨hfirst, hrest⟩
    · rename_i hnot
      refine pairwise_cons.mpr ⟨fun e he => ?_, ih hrest⟩
      rcases mem_setEntry he with ⟨_, hkey | ⟨x, hx⟩⟩ | hmem
      · rw [hkey]
        simpa using hnot
      · exact hfirst (e.1, x) hx
      · exact hfirst e hmem

end Value

namespace Field

theorem fills_list (h : slot.tag.repeated = true) :
    (plain slot).Fills reg v ↔ ∃ items, v = .list items ∧ ∀ item ∈ items, slot.Fills reg item := by
  simp only [Fills, Takes, h, if_true]
  constructor
  · rintro ⟨⟨items, rfl, htakes⟩, hfilled⟩
    exact ⟨items, rfl, fun item hitem => ⟨htakes item hitem, Value.filled_list.mp hfilled item hitem⟩⟩
  · rintro ⟨items, rfl, hfills⟩
    exact ⟨⟨items, rfl, fun item hitem => (hfills item hitem).1⟩,
      Value.filled_list.mpr fun item hitem => (hfills item hitem).2⟩

theorem fills_single (h : slot.tag.repeated = false) (hv : slot.Fills reg v) :
    (plain slot).Fills reg v := by
  simp only [Fills, Takes, h, Bool.false_eq_true, if_false]
  exact ⟨.inr hv.1, hv.2⟩

theorem Fills.single (hv : (plain slot).Fills reg v) (h : slot.tag.repeated = false) :
    v = .null ∨ slot.Fills reg v := by
  simp only [Fills, Takes, h, Bool.false_eq_true, if_false] at hv
  rcases hv.1 with ⟨hnull, _⟩ | htakes
  · exact .inl hnull
  · exact .inr ⟨htakes, hv.2⟩

theorem fills_map {key val : Field} :
    (map slot key val).Fills reg v ↔ ∃ entries, v = .map entries ∧ DistinctKeys entries ∧
      ∀ k x, (k, x) ∈ entries → key.slot.Fills reg k ∧ val.slot.Fills reg x := by
  constructor
  · rintro ⟨⟨entries, rfl, hdistinct, htakes⟩, hfilled⟩
    refine ⟨entries, rfl, hdistinct, fun k x hmem => ?_⟩
    have hin := Value.filled_map.mp hfilled k x hmem
    exact ⟨⟨(htakes k x hmem).1, hin.1⟩, (htakes k x hmem).2, hin.2⟩
  · rintro ⟨entries, rfl, hdistinct, hfills⟩
    refine ⟨⟨entries, rfl, hdistinct, fun k x hmem => ?_⟩, Value.filled_map.mpr fun k x hmem => ?_⟩
    · exact ⟨(hfills k x hmem).1.1, (hfills k x hmem).2.1⟩
    · exact ⟨(hfills k x hmem).1.2, (hfills k x hmem).2.2⟩

end Field

namespace Decode

section Records

variable (hreg : reg.Regular) {n : Nat} {nested : Nested} (hn : nested.FillsUpTo reg n)
include hreg hn

theorem fills_member (hslot : slot.Regular reg) (honce : slot.tag.repeated = false) (wire : Nat)
    (hbs : bs.length ≤ n) :
    (field reg nested (.plain slot) wire .null bs).Yields fun v => v = .null ∨ slot.Fills reg v := by
  unfold field
  split
  · split <;> trivial
  rw [if_neg (by simp [honce])]
  split
  · trivial
  · exact (fills_single hreg hn hslot (.inl rfl) hbs).imp fun v hv => .inr hv

theorem fills_mapEntry {key val : Slot}
    (hf : (Field.map slot (.plain key) (.plain val)).Regular reg) (hlocal : nested.Local)
    (hcurrent : (Field.map slot (.plain key) (.plain val)).Fills reg current) (hbs : bs.length ≤ n)
    (h : mapEntry reg nested (.plain key) (.plain val) current bs = .ok v) :
    (Field.map slot (.plain key) (.plain val)).Fills reg v := by
  obtain ⟨hkey, _, hkeyOnce, _, hval, hvalOnce, _⟩ := hf
  obtain ⟨entries, rfl, hdistinct, hfills⟩ := Field.fills_map.mp hcurrent
  unfold mapEntry readEntry at h
  obtain ⟨⟨k, x⟩, hentry, h⟩ := bind_eq_ok.mp h
  obtain ⟨k', hk', h⟩ := bind_eq_ok.mp h
  obtain ⟨x', hx', hadd⟩ := bind_eq_ok.mp h
  have hsettled := settles_entry (n := n) (fun _ => trivial)
    (fun wire bs hbs => settles_member hlocal (fills_member hreg hn hkey hkeyOnce wire hbs))
    (fun wire bs hbs => settles_member hlocal (fills_member hreg hn hval hvalOnce wire hbs))
    bs.length .null .null bs hbs (.inl rfl) (.inl rfl)
  rw [show entry _ _ bs.length .null .null bs = .ok (k, x) from hentry] at hsettled
  obtain ⟨hk, hx⟩ := hsettled
  have hk' := fills_orZero hreg hkey.toResolves hk hk'
  have hx' := fills_orZero hreg hval.toResolves hx hx'
  unfold addEntry Value.setPart at hadd
  simp only [Value.isNull, Bool.false_eq_true, if_false] at hadd
  split at hadd
  · cases hadd
    refine Field.fills_map.mpr ⟨_, rfl, Value.distinct_setEntry hdistinct _ _, fun a y hmem => ?_⟩
    rcases Value.mem_setEntry hmem with ⟨rfl, rfl | ⟨z, hz⟩⟩ | hmem
    · exact ⟨hk', hx'⟩
    · exact ⟨(hfills a z hz).1, hx'⟩
    · exact hfills a y hmem
  · cases hadd

theorem fills_field (hf : f.Regular reg) (wire : Nat) (hcurrent : f.Fills reg current)
    (hbs : bs.length ≤ n) (hlocal : nested.Local) :
    (field reg nested f wire current bs).Yields (f.Fills reg) := by
  cases f with
  | map slot key val =>
    obtain ⟨key, val, rfl, rfl⟩ := hf.map_plain
    rw [field_map_eq]
    split
    · trivial
    · refine ends_reading (settles_ofReader (fun _ => trivial) readRun bs) fun r hrun _ =>
        ends_ofResult ?_ current
      have hshort := length_lt_of_readRun (ofReader_eq_ok.mp hrun)
      cases hentry : mapEntry reg nested (.plain key) (.plain val) current r.1 with
      | error fault => trivial
      | ok w => exact fills_mapEntry hreg hn hf hlocal hcurrent (by omega) hentry
  | plain slot =>
    have hslot : slot.Regular reg := hf
    unfold field
    split
    · split <;> trivial
    split
    · rename_i hrepeated
      obtain ⟨items, rfl, hitems⟩ := (Field.fills_list hrepeated).mp hcurrent
      exact (fills_repeated hreg hn hslot wire hitems hbs).imp fun v => (Field.fills_list hrepeated).mpr
    · rename_i hrepeated
      have honce : slot.tag.repeated = false := by simpa using hrepeated
      split
      · trivial
      · exact (fills_single hreg hn hslot (hcurrent.single honce) hbs).imp fun v =>
          Field.fills_single honce

theorem takes_readStep (hmember : member.Resolves reg)
    (hset : member.kind = .group → ∀ id t, member.type = .ok (.type id) →
      reg.messageType? id = some t → t.isMessageSet = false) (hbs : bs.length ≤ n)
    (h : readStep reg nested member.type bs (OneofCase.ofKind member.kind).read = .ok (v, rest)) :
    member.Takes Reads v ∧ v.Filled reg Reads := by
  unfold VariantMember.Takes
  by_cases hmessage : member.kind.isMessage = true
  · rw [if_pos hmessage]
    obtain ⟨id, t, hbound, ht⟩ := hmember.message hmessage
    rw [readStep_message hmessage, hbound, ok_bind] at h
    obtain ⟨w, hnew, hdone⟩ := bind_eq_ok.mp h
    obtain ⟨m, rfl, rfl, hfilled⟩ := filled_instantiate hreg ht hnew
    obtain ⟨m', rfl, hfilled', htype⟩ := (grows_embedded hn hfilled _
      (fun hgroup t' => hset (of_decide_eq_true hgroup) _ t' hbound) hbs).of_done
        (outcomeParse_eq_ok.mp hdone)
    exact ⟨⟨m', rfl, by rw [htype, hbound]⟩, hfilled'⟩
  · rw [if_neg hmessage]
    have hplain : member.kind.isMessage = false := by simpa using hmessage
    by_cases henum : member.kind = .enum
    · obtain ⟨id, hread⟩ := hmember.readStep_enum henum
      rw [hread] at h
      obtain ⟨n, _, rfl⟩ := mapParse_eq_ok.mp h
      rw [henum]
      exact ⟨fun _ => ⟨_, rfl, signed32_bounds n⟩, Value.filled_of_isKey rfl⟩
    · rw [readStep_eq_scalar hplain henum] at h
      obtain ⟨hreads, hkey⟩ := reads_scalar (member.slot_resolves reg hplain) rfl hplain h
      exact ⟨hreads, Value.filled_of_isKey hkey⟩

end Records

theorem wrap_eq_ok {vt : VariantType} (hvariant : member.variant = .ok (.type id))
    (hvt : reg.variantType? id = some vt) (h : wrap reg member v = .ok w) :
    vt.constructorFault? v = none ∧ w = .variant id vt.stored v := by
  unfold wrap apply call VariantType.call at h
  simp only [hvariant, class?_of_variantType? hvt, ok_bind, pure_eq_ok] at h
  cases hfault : vt.constructorFault? v with
  | some fault => rw [hfault] at h; cases h
  | none => rw [hfault] at h; cases h; exact ⟨rfl, rfl⟩

end Decode

/-! ## Raw records -/

theorem isRecord_of_skip (hkey : read start = .ok tag rest)
    (hskip : skipValue ((tag % 8 : Nat) : Int) rest = .ok () rest') :
    IsRecord (tag / 8) (start.take (start.length - rest'.length)) := by
  obtain ⟨key, rfl, hread⟩ := local_read _ _ _ hkey
  obtain ⟨used, rfl, hused⟩ := local_skipValue _ _ _ _ hskip
  rw [← append_assoc, length_append, Nat.add_sub_cancel, take_left' rfl, append_assoc] at *
  refine ⟨tag % 8, used, Nat.mod_lt _ (by decide), ?_, ?_⟩
  · rw [hread used]
    congr 1
    omega
  · have := hused []
    rwa [append_nil] at this

/-- Whether raw extensions are those that a message of a class may have. -/
def MessageType.Extensions (t : MessageType) (ext : Dictionary Int Bytes) : Prop :=
  (ext.map (·.1)).Nodup ∧ ∀ number raw, (number, raw) ∈ ext → t.Stores number raw

theorem MessageType.Extensions.set (h : t.Extensions ext) {number : Int}
    (hraw : t.Stores number raw) : t.Extensions (ext.set number raw) := by
  refine ⟨Dictionary.nodup_set h.1, fun n r hmem => ?_⟩
  rcases Dictionary.mem_set hmem with heq | hmem
  · cases heq
    exact hraw
  · exact h.2 n r hmem

namespace MessageSet

theorem readItem_bounds (fuel : Nat) : ∀ id? data? bs id data rest,
    (∀ id, id? = some id → id < 18446744073709551616) →
    (∀ data : Bytes, data? = some data → Short data) →
    readItem fuel id? data? bs = .ok (some id, some data) rest →
      id < 18446744073709551616 ∧ Short data := by
  induction fuel with
  | zero => intro id? data? bs id data rest _ _ h; cases h
  | succ fuel ih =>
    intro id? data? bs id data rest hid hdata h
    obtain ⟨key, rest₁, -, h⟩ := bind_ok.mp h
    split at h
    · cases h
      exact ⟨hid id rfl, hdata data rfl⟩
    split at h
    · obtain ⟨id', rest₂, hread, h⟩ := bind_ok.mp h
      refine ih _ _ _ _ _ _ (fun x hx => ?_) hdata h
      cases hx
      exact read_lt hread
    split at h
    · obtain ⟨data', rest₂, hread, h⟩ := bind_ok.mp h
      refine ih _ _ _ _ _ _ hid (fun x hx => ?_) h
      cases hx
      exact readRun_lt hread
    · obtain ⟨_, rest₂, -, h⟩ := bind_ok.mp h
      exact ih _ _ _ _ _ _ hid hdata h

variable (hset : t.isMessageSet = true)
include hset

theorem extensions_readEntry {ext' : RawMap} (hext : t.Extensions ext)
    (h : readEntry ext bs = .ok ext' rest) : t.Extensions ext' := by
  rw [readEntry_eq] at h
  split at h
  · split at h
    · split at h
      · rename_i id data rest₂ hitem
        cases h
        obtain ⟨hid, hdata⟩ := readItem_bounds _ _ _ _ _ _ _ (fun _ h => by cases h)
          (fun _ h => by cases h) hitem
        refine hext.set ⟨?_, ?_⟩
        · rw [if_pos hset]
          omega
        · unfold MessageType.KeepsRaw
          rw [if_pos hset]
          exact ⟨data, rfl, hdata⟩
      · cases h
      · cases h
    · split at h
      · cases h
        exact hext
      · cases h
  · cases h

theorem extensions_decodeEntries (fuel : Nat) : ∀ ext bs, t.Extensions ext →
    t.Extensions (decodeEntries fuel ext bs).1 := by
  induction fuel with
  | zero => intro ext bs hext; cases bs <;> exact hext
  | succ fuel ih =>
    intro ext bs hext
    cases bs with
    | nil => exact hext
    | cons b bs =>
      unfold decodeEntries
      cases hentry : readEntry ext (b :: bs) with
      | error e rest => exact hext
      | ok ext' rest => exact ih ext' rest (extensions_readEntry hset hext hentry)

end MessageSet

/-! ## Messages -/

theorem Value.Filled.records (hm : (Value.message m).Filled reg Reads)
    (ht : m.HasType reg t) (extensions? : Option (RawMap))
    (unknown? : Option Bytes) (hsomeExt : extensions?.isSome = t.hasExtensions)
    (hsomeUnknown : unknown?.isSome = t.keepsUnknown)
    (hext : ∀ ext, extensions? = some ext → t.Extensions ext)
    (hunknown : ∀ raw, unknown? = some raw → RecordsOf t.IsUnknown raw) :
    m.GrowsTo reg { m with extensions?, unknown? } := by
  obtain ⟨htakes, hattrs⟩ := (Value.filled_message ht).mp hm
  refine ⟨(Value.filled_message (m := { m with extensions?, unknown? }) ht).mpr ⟨?_, hattrs⟩, rfl⟩
  exact
    { attrs := htakes.attrs, extensions := hsomeExt, unknown := hsomeUnknown,
      constructs := htakes.constructs, fields := htakes.fields, oneofs := htakes.oneofs,
      numbersOnce := fun ext h => (hext ext h).1, extension := fun ext h => (hext ext h).2,
      unknownRecords := hunknown }

namespace Decode

section Records

variable (hreg : reg.Regular) (hstores : reg.StoresOneofs) {n : Nat} {nested : Nested}
  (hm : (Value.message m).Filled reg Reads) (ht : m.HasType reg t)
include hreg hm ht

theorem grows_mergeField (hn : nested.FillsUpTo reg n) (hf : f ∈ t.fields) (wire : Nat) (hbs : bs.length ≤ n)
    (hlocal : nested.Local) :
    (mergeField reg nested m f wire bs).Yields (m.GrowsTo reg) := by
  have hclass := hreg _ _ ht
  have hfree := hclass.field_attr_free hf
  have hattr : f.slot.attr ∈ t.codecAttrs := mem_append_left _ (mem_map_of_mem hf)
  obtain ⟨htakes, hattrs⟩ := (Value.filled_message ht).mp hm
  unfold mergeField
  rw [own?_eq_get? hfree]
  cases hv : m.get? f.slot.attr with
  | none => trivial
  | some v =>
    have hfills : f.Fills reg v := ⟨htakes.fields f hf v hv, hattrs _ hattr v hv⟩
    refine (fills_field hreg hn (hclass.entries f hf) wire hfills hbs hlocal).map fun w hw => ?_
    rw [store_eq_set hfree]
    refine ⟨hm.set ((htakes.attrs _).mp (by rw [hv]; rfl)) (fun g hg heq => ?_)
      (fun group hgroup heq => ?_) ht hw.2, rfl⟩
    · rw [hclass.field_eq_of_attr hg hf heq]
      exact hw.1
    · exact absurd heq (hclass.group_attr_ne hgroup hf)

include hstores in
theorem grows_mergeMember (hn : nested.FillsUpTo reg n) {group : OneofSlot}
    (hgroup : group ∈ t.groups) (hmember : member ∈ group.members) (wire : Nat)
    (hbs : bs.length ≤ n) :
    (mergeMember reg nested m group member wire bs).Yields (m.GrowsTo reg) := by
  have hclass := hreg _ _ ht
  have hfree := hclass.group_attr_free hgroup
  rw [mergeMember_eq]
  split
  · trivial
  have hresolves := hclass.members group hgroup member hmember
  obtain ⟨id, vt, hvariant, hvt⟩ := hresolves.variant
  cases hstep : readStep reg nested member.type bs (OneofCase.ofKind member.kind).read with
  | error fault => simp only [reading, hstep]; trivial
  | ok r =>
    obtain ⟨hv, hfilled⟩ := takes_readStep hreg hn hresolves
      (hclass.groupMembers group hgroup member hmember) hbs hstep
    cases hwrap : wrap reg member r.1 with
    | error fault => simp only [reading, hstep, hwrap]; trivial
    | ok w =>
      obtain ⟨hfault, rfl⟩ := wrap_eq_ok hvariant hvt hwrap
      simp only [reading, hstep, hwrap, ok_bind, store_eq_set hfree]
      refine ⟨hm.set (hstores _ _ ht group hgroup)
        (fun f hf heq => absurd heq.symm (hclass.group_attr_ne hgroup hf))
        (fun other hother heq => ?_) ht (Value.filled_variant.mpr hfilled), rfl⟩
      have hsame : other = group := inj_on_of_nodup_map
        (List.Nodup.of_append_right hclass.attrsOnce) hother hgroup heq
      subst hsame
      exact ⟨member, hmember, id, vt, r.1, hvariant, hvt, rfl, hfault, hv⟩

theorem grows_keep (hset : t.isMessageSet = false) {number : Nat} (hpos : 0 < number)
    (hnew : (number : Int) ∉ t.numbers) (hraw : IsRecord number raw) {m' : Message}
    (h : keep t.ranges m number raw = .ok m') : m.GrowsTo reg m' := by
  have hclass := hreg _ _ ht
  obtain ⟨htakes, -⟩ := (Value.filled_message ht).mp hm
  have hclear := htakes.clear hclass.toStoresApart
  rcases hclear.keep_cases h with ⟨hrange, ext, hext, rfl⟩ | ⟨hrange, rfl⟩
  · have hkept : t.Extensions ext := ⟨htakes.numbersOnce ext hext, htakes.extension ext hext⟩
    refine hm.records ht _ m.unknown? (by rw [← htakes.extensions, hext]; rfl) htakes.unknown
      (fun ext' h => ?_) htakes.unknownRecords
    cases h
    refine hkept.set ⟨by rw [if_neg (by simp [hset])]; exact hrange, ?_⟩
    unfold MessageType.KeepsRaw
    rw [if_neg (by simp [hset])]
    have hone : RecordsOf (fun k => (k : Int) = (number : Int)) raw := .single rfl hraw
    cases hknown : Dictionary.get? (number : Int) ext with
    | none => exact ⟨hraw.ne_nil, hone⟩
    | some known =>
      obtain ⟨_, hknownRaw⟩ := hkept.2 _ _ (Dictionary.mem_of_get? hknown)
      unfold MessageType.KeepsRaw at hknownRaw
      rw [if_neg (by simp [hset])] at hknownRaw
      exact ⟨fun hnil => hraw.ne_nil (append_eq_nil_iff.mp hnil).2, hknownRaw.2.append hone⟩
  · refine hm.records ht m.extensions? _ htakes.extensions
      (by rw [← htakes.unknown, Option.isSome_map]) (fun ext hext =>
        ⟨htakes.numbersOnce ext hext, htakes.extension ext hext⟩) fun raw' h => ?_
    obtain ⟨known, hknown, rfl⟩ := Option.map_eq_some_iff.mp h
    exact (htakes.unknownRecords known hknown).append (.single ⟨hpos, hnew, hrange⟩ hraw)

include hstores in
theorem grows_mergeRecord (hn : nested.FillsUpTo reg n) (hset : t.isMessageSet = false)
    (hkey : read start = .ok tag rest) (hpos : tag / 8 ≠ 0) (hrest : rest.length ≤ n)
    (hlocal : nested.Local) :
    (mergeRecord reg nested (Layout.ofType t) m (tag / 8) (tag % 8) start rest).Yields
      (m.GrowsTo reg) := by
  have hclass := hreg _ _ ht
  by_cases hnew : ((tag / 8 : Nat) : Int) ∈ t.numbers
  · rcases MessageType.mem_numbers.mp hnew with ⟨f, hf, hnumber⟩ | ⟨group, hgroup, member, hmember, hnumber⟩
    · rw [show tag / 8 = f.number.toNat by omega, hclass.mergeRecord_field hf]
      exact grows_mergeField hreg hm ht hn hf _ hrest hlocal
    · rw [show tag / 8 = member.number.toNat by omega, hclass.mergeRecord_member hgroup hmember]
      exact grows_mergeMember hreg hstores hm ht hn hgroup hmember _ hrest
  · rw [mergeRecord_unknown hnew]
    split
    · trivial
    · rename_i hskip
      split
      · rename_i hkeep
        exact grows_keep hreg hm ht hset (by omega) hnew (isRecord_of_skip hkey hskip) hkeep
      · trivial

theorem grows_mergeSet (hset : t.isMessageSet = true) (bs : Bytes) :
    (mergeSet m bs).Yields (m.GrowsTo reg) := by
  obtain ⟨htakes, -⟩ := (Value.filled_message ht).mp hm
  have hclear := htakes.clear (hreg _ _ ht).toStoresApart
  unfold mergeSet
  rw [hclear.extensionStore?_eq]
  cases hext : m.extensions? with
  | none => trivial
  | some ext =>
    simp only [Option.map_some, MessageSet.decodeStore]
    cases (MessageSet.decode ext bs).2 with
    | some e => trivial
    | none =>
      refine hm.records ht _ m.unknown? (by rw [← htakes.extensions, hext]; rfl)
        htakes.unknown (fun ext' h => ?_) htakes.unknownRecords
      cases h
      exact MessageSet.extensions_decodeEntries hset _ ext bs
        ⟨htakes.numbersOnce ext hext, htakes.extension ext hext⟩

end Records

section Messages

variable (hreg : reg.Regular) (hstores : reg.StoresOneofs)
include hreg hstores

/-- Whatever is merged into a filled message leaves a filled message behind. -/
theorem grows_merge (hm : (Value.message m).Filled reg Reads) (bs : Bytes) :
    (merge reg m bs).Yields (m.GrowsTo reg) := by
  have hkeeps : (readers reg).FillsUpTo reg bs.length := by
    refine keeps_readers (fun _ => trivial) (fun m hm => ?_)
      (fun m t bs hm ht hset => grows_mergeSet hreg hm ht hset bs)
      (fun id t ht hset t' ht' => Option.some.inj (ht.symm.trans ht') ▸ hset)
      (fun m t start tag rest hm ht hG hn hkey hpos => grows_mergeRecord hreg hstores hm ht hn (hG t ht)
        hkey hpos (Nat.le_refl _) (local_readers reg)) _
    obtain ⟨t, ht, htakes⟩ := hm m .self
    have hclass := hreg _ _ ht
    exact ⟨t, ht, (htakes.clear hclass.toStoresApart).layout_eq hclass.toSettled ht⟩
  exact (hkeeps m bs (Nat.le_refl _) hm).1

end Messages

end Decode

end Protobind

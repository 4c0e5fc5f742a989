import Protobind.Proofs.RoundTrip

/-!
# Whole records

What is written of a message is a sequence of whole records, and what is written of a field or of a
oneof is a sequence of records of its number (`records_encodeMessage`, `records_field`,
`records_oneof`), which a reader that does not know the number can skip.
-/

namespace Protobind

open List WireType

variable {bs value : Bytes} {f : Field} {group : OneofSlot} {kind : Kind} {number : Int}
  {p : Nat → Prop} {slot : Slot} {v : Value} {accepts : Kind → Value → Prop} {reg : Registry}
  {t : MessageType} {write : Writer}

/-! ## Skipping -/

/-- A value that is skipped at the end of some data is skipped anywhere, with any fuel that suffices
for its own bytes. -/
theorem skipValueWith_of_skipValue {wire : Int} (h : skipValue wire value = .ok () [])
    {fuel : Nat} (hfuel : value.length ≤ fuel) (rest : Bytes) :
    skipValueWith (skipGroup fuel) wire (value ++ rest) = .ok () rest := by
  unfold skipValue at h
  rcases skipValueWith_cases wire with hgroup | ⟨skip, hskip, heq⟩
  · rw [hgroup] at h ⊢
    obtain ⟨used, rfl, hmore⟩ := skipGroup_local _ _ _ h
    rw [append_nil] at hfuel ⊢
    exact hmore fuel rest hfuel
  · rw [heq] at h ⊢
    obtain ⟨used, rfl, hmore⟩ := hskip _ _ _ h
    rw [append_nil]
    exact hmore rest

/-- Whole records are skipped up to the end of their group. -/
theorem skipGroup_of_records (h : RecordsOf p bs) (hnumber : FitsKey number) :
    ∀ fuel, bs.length < fuel → ∀ rest,
      skipGroup fuel (bs ++ (writeKey number .endGroup ++ rest)) = .ok () rest := by
  induction h with
  | nil =>
    intro fuel hfuel rest
    obtain ⟨fuel, rfl⟩ : ∃ b, fuel = b + 1 := ⟨fuel - 1, by omega⟩
    have hmod : (number.toNat * 8 + endGroup.code) % 8 = endGroup.code := by
      rw [show endGroup.code = 4 from rfl]
      omega
    rw [nil_append, skipGroup_succ, read_writeKey hnumber]
    simp only [if_pos hmod]
  | @cons n raw more _ hrecord _ ih =>
    intro fuel hfuel rest
    obtain ⟨wire, value, hwire, hread, hskip⟩ := hrecord
    obtain ⟨key, rfl, hkey⟩ := Varint.local_read _ _ _ hread
    have hmod : (n * 8 + wire) % 8 = wire := by omega
    have hend : wire ≠ endGroup.code := by
      rintro rfl
      cases hskip
    have hpos := Varint.length_lt_of_read hread
    simp only [length_append] at hfuel hpos
    obtain ⟨fuel, rfl⟩ : ∃ b, fuel = b + 1 := ⟨fuel - 1, by omega⟩
    rw [skipGroup_succ]
    simp only [append_assoc, hkey, hmod, if_neg hend]
    rw [skipValueWith_of_skipValue hskip (by omega)]
    exact ih fuel (by omega) rest

/-! ## Records -/

theorem isRecord_writeKey (hnumber : FitsKey number) (wire : WireType)
    (h : skipValue wire.code value = .ok () []) : IsRecord number.toNat (writeKey number wire ++ value) :=
  ⟨wire.code, value, wire.code_lt, read_writeKey hnumber wire value, h⟩

theorem skipValue_run {data : Bytes} (h : Short data) :
    skipValue bytes.code (writeRun data) = .ok () [] := by
  have hread := readRun_writeRun h []
  rw [append_nil] at hread
  exact Reader.seqRight_unit hread

/-- What is written of a value is skipped by its wire type. -/
theorem skipValue_of_value (hgroup : kind ≠ .group)
    (h : Encode.value write (.known kind) v = .ok bs) (hlen : Short bs) :
    skipValue kind.encoding.wireType.code bs = .ok () [] := by
  have hvarint (n : Int) : skipValue varint.code (Varint.write n) = .ok () [] := by
    have hread := Varint.read_write n []
    rw [append_nil] at hread
    exact Reader.seqRight_unit hread
  have htake (width n : Nat) : takeBytes width (Bytes.ofNatLE width n) = .ok (Bytes.ofNatLE width n) [] :=
    takeBytes_ok.mpr ⟨Bytes.length_ofNatLE _ _, (append_nil _).symm⟩
  have hfixed64 (n : Int) : skipValue fixed64.code (writeFixed64 n) = .ok () [] :=
    Reader.seqRight_unit (htake 8 _)
  have hfixed32 (n : Int) : skipValue fixed32.code (writeFixed32 n) = .ok () [] :=
    Reader.seqRight_unit (htake 4 _)
  cases kind with
  | group => exact absurd rfl hgroup
  | bool =>
    cases h
    exact hvarint _
  | int64 | uint64 | int32 | uint32 | enum | sint32 | sint64 =>
    obtain ⟨n, _, hn⟩ := bind_eq_ok.mp h
    cases hn
    exact hvarint _
  | double | fixed64 | sfixed64 =>
    obtain ⟨n, _, hn⟩ := bind_eq_ok.mp h
    cases hn
    exact hfixed64 _
  | float | fixed32 | sfixed32 =>
    obtain ⟨n, _, hn⟩ := bind_eq_ok.mp h
    cases hn
    exact hfixed32 _
  | string | bytes | message =>
    obtain ⟨data, _, hdata⟩ := bind_eq_ok.mp h
    cases hdata
    exact skipValue_run (Short.of_writeRun hlen)

/-! ## What is written -/

/-- Whether what is written of a message that is no message set is a sequence of whole records. -/
def Whole (reg : Registry) (write : Message → Result Bytes) (m : Message) : Prop :=
  ∀ bs, write m = .ok bs → bs.length < 18446744073709551616 → ∀ t, reg.messageType? m.type = some t →
    t.isMessageSet = false → RecordsOf (0 < ·) bs

theorem isRecord_single (hkind : slot.kind = .known kind)
    (hwire : slot.tag.wireType = kind.encoding.wireType) (hnumber : FitsKey slot.tag.number)
    (h : Encode.single write slot v = .ok bs) (hlen : Short bs)
    (hin : kind = .group → ∀ inner raw, v = .message inner → write inner = .ok raw →
      Short raw → RecordsOf (0 < ·) raw) :
    IsRecord slot.tag.number.toNat bs := by
  unfold Encode.single at h
  rw [hkind] at h
  by_cases hgroup : kind = .group
  · rw [if_pos (by rw [hgroup])] at h
    obtain ⟨raw, hraw, hbs⟩ := bind_eq_ok.mp h
    cases hbs
    rw [append_assoc] at hlen ⊢
    have hrecords : RecordsOf (0 < ·) raw := by
      cases v with
      | message inner => exact hin hgroup inner raw rfl hraw hlen.right.left
      | _ => cases hraw
    refine isRecord_writeKey hnumber .startGroup ?_
    have hskip := skipGroup_of_records hrecords hnumber
      (raw ++ writeKey slot.tag.number .endGroup).length (by
        have hpos := Varint.length_lt_of_read (read_writeKey hnumber .endGroup [])
        simp only [length_append] at hpos ⊢
        omega) []
    rw [append_nil] at hskip
    exact hskip
  · rw [if_neg (by simpa using hgroup)] at h
    obtain ⟨raw, hraw, hbs⟩ := bind_eq_ok.mp h
    cases hbs
    rw [hwire]
    exact isRecord_writeKey hnumber _ (skipValue_of_value hgroup hraw hlen.right)

theorem records_each {α : Type} {part : α → Result Bytes} {parts : List α}
    (hpart : ∀ a ∈ parts, ∀ raw, part a = .ok raw → Short raw → RecordsOf p raw) :
    ∀ {bs : Bytes}, Encode.each part parts = .ok bs → Short bs → RecordsOf p bs := by
  induction parts with
  | nil =>
    intro bs h _
    cases h
    exact .nil
  | cons a parts ih =>
    intro bs h hlen
    obtain ⟨head, hhead, h⟩ := bind_eq_ok.mp h
    obtain ⟨tail, htail, h⟩ := bind_eq_ok.mp h
    cases h
    exact (hpart a mem_cons_self head hhead hlen.left).append
      (ih (fun b hb => hpart b (mem_cons_of_mem a hb)) htail hlen.right)

theorem record_of_slot (hslot : slot.Regular reg) (hnumber : FitsKey slot.tag.number)
    (hv : slot.Takes reg accepts v) (h : Encode.single write slot v = .ok bs) (hlen : Short bs)
    (hin : slot.kind.isMessage = true → ∀ inner, v = .message inner → Whole reg write inner) :
    IsRecord slot.tag.number.toNat bs := by
  obtain ⟨kind, hkind, hv⟩ := hv
  refine isRecord_single hkind (hslot.wire kind hkind) hnumber h hlen ?_
  rintro rfl inner raw rfl hraw hshort
  obtain ⟨inner', name, heq, hname, hbound⟩ := hv
  cases heq
  have hmessage : slot.kind.isMessage = true := by rw [hkind]; rfl
  obtain ⟨name', id, t, hname', hbound', ht⟩ := hslot.message hmessage
  cases hname.symm.trans hname'
  cases hbound.symm.trans hbound'
  exact hin hmessage inner rfl raw hraw hshort t ht (hslot.group hkind name inner.type t hname hbound ht)

theorem records_field (hf : f.Regular reg) (hnumber : FitsKey f.number) {always : Bool}
    (hv : f.Takes reg accepts v) (h : Encode.field write f always v = .ok bs) (hlen : Short bs)
    (hin : ∀ inner, f.Holds v inner → Whole reg write inner) :
    RecordsOf (fun n => (n : Int) = f.number) bs := by
  have hnat : ((f.number.toNat : Nat) : Int) = f.number := by omega
  cases f with
  | plain slot =>
    have hnull : slot.kind.isMap = false := isMap_eq_false hf
    simp only [Field.Takes] at hv
    unfold Encode.field at h
    rw [if_neg (by simp [hnull])] at h
    split at h
    · rename_i hrepeated
      rw [if_pos hrepeated] at hv
      obtain ⟨items, rfl, hitems⟩ := hv
      split at h
      · cases h
        exact .nil
      split at h
      · obtain ⟨_, hitems, h⟩ := bind_eq_ok.mp h
        obtain ⟨packed, _, h⟩ := bind_eq_ok.mp h
        cases h
        exact .single hnat (isRecord_writeKey hnumber .bytes (skipValue_run hlen.right.of_writeRun))
      · refine records_each (fun item hitem raw hraw hshort => .single hnat ?_) h hlen
        refine record_of_slot hf hnumber (hitems item hitem) hraw hshort fun hmessage inner hinner => ?_
        refine hin inner ⟨hmessage, ?_⟩
        rw [if_pos hrepeated]
        exact ⟨items, rfl, hinner ▸ hitem⟩
    · rename_i hrepeated
      rw [if_neg hrepeated] at hv
      split at h
      · split at h
        · cases h
        · cases h
          exact .nil
      · rename_i hnull
        split at h
        · cases h
          exact .nil
        · replace hv := hv.resolve_left fun hunset => hnull (by rw [hunset.1]; rfl)
          refine .single hnat (record_of_slot hf hnumber hv h hlen fun hmessage inner hinner => ?_)
          refine hin inner ⟨hmessage, ?_⟩
          rw [if_neg hrepeated]
          exact hinner
  | map slot key val =>
    rw [Encode.field_map_eq] at h
    obtain ⟨entries, _, h⟩ := bind_eq_ok.mp h
    refine records_each (fun e _ raw hraw hshort => ?_) h hlen
    obtain ⟨rawKey, _, hraw⟩ := bind_eq_ok.mp hraw
    obtain ⟨rawVal, _, hraw⟩ := bind_eq_ok.mp hraw
    cases hraw
    exact .single hnat (isRecord_writeKey hnumber .bytes (skipValue_run hshort.right.of_writeRun))

theorem record_of_member (ht : t.Regular reg) (hgroup : group ∈ t.groups) {member : VariantMember}
    (hmember : member ∈ group.members) {held : Value} (hheld : member.Takes accepts held)
    (h : Encode.single write member.slot held = .ok bs) (hlen : Short bs)
    (hin : member.kind.isMessage = true → ∀ inner, held = .message inner → Whole reg write inner) :
    IsRecord member.number.toNat bs := by
  have hnumber := ht.number_of_member hgroup hmember
  refine isRecord_single (show member.slot.kind = .known member.kind from rfl) rfl
    hnumber.fitsKey h hlen ?_
  intro hkind inner raw hinner hraw hshort
  have hmessage : member.kind.isMessage = true := by rw [hkind]; rfl
  unfold VariantMember.Takes at hheld
  rw [if_pos hmessage] at hheld
  obtain ⟨inner', rfl, htype⟩ := hheld
  cases hinner
  obtain ⟨id, t', htype', ht'⟩ := (ht.members group hgroup member hmember).message hmessage
  cases htype.symm.trans htype'
  exact hin hmessage inner rfl raw hraw hshort t' ht'
    (ht.groupMembers group hgroup member hmember hkind _ t' htype ht')

section Messages

variable (hreg : reg.Regular) {m : Message} (ht : m.HasType reg t)
  (hm : t.Takes reg accepts m) (hset : t.isMessageSet = false)
  (hin : ∀ inner, reg.Writes m inner → Whole reg write inner)
include hreg ht hm hset hin

theorem records_fieldOf (hf : f ∈ t.fields) (hv : m.get? f.slot.attr = some v)
    (h : Encode.field write f false v = .ok bs) (hlen : Short bs) :
    RecordsOf (fun n => (n : Int) = f.number) bs := by
  have hclass := hreg _ _ ht
  have hclear := hm.clear hclass.toStoresApart
  refine records_field (hclass.entries f hf) (hclass.number_of_field hf).fitsKey (hm.fields f hf v hv) h
    hlen fun inner hholds => hin inner (writes_of_field hclass ht hset hclear hf hv hholds)

theorem records_oneof {codec : OneofCodec} (hcodec : t.codec? = some codec)
    (hgroup : group ∈ codec.groups) (h : Encode.oneof reg write codec m group = .ok bs)
    (hlen : Short bs) : RecordsOf (0 < ·) bs := by
  have hclass := hreg _ _ ht
  have hclear := hm.clear hclass.toStoresApart
  have hmem := group_of_codec hcodec hgroup
  have hfree := hclass.group_attr_free hmem
  obtain ⟨v, hown, hwritten⟩ := bind_eq_ok.mp h
  rw [Record.require_eq_ok] at hown
  by_cases hne : v = .null
  · subst hne
    cases hwritten
    exact .nil
  obtain ⟨_, found, held, hfind, hread, hsingle⟩ := sets_of_written hown hne h
  have hv := (Record.own?_eq_get? hfree m).symm.trans hown
  obtain ⟨member, hmember, id, vt, held', hvariant, hvt, rfl, _, hheld⟩ :=
    (hm.oneofs group hmem v hv).resolve_left hne
  -- The member that the writer finds is the one that the variant belongs to.
  cases hfind.symm.trans (hclass.findMember_eq hmem hmember hvariant hvt held')
  obtain ⟨_, _, rfl⟩ := attr_of_member hvt hread
  have hnumber := hclass.number_of_member hmem hmember
  refine .single (by omega) (record_of_member hclass hmem hmember hheld hsingle hlen ?_)
  rintro hmessage inner rfl
  exact hin inner (writes_of_member hclass ht hset hclear hcodec hgroup hv hfind hread hmessage)

/-- What is written of a message is a sequence of whole records. -/
theorem records_message (h : Encode.message reg write m = .ok bs) (hlen : Short bs) :
    RecordsOf (0 < ·) bs := by
  have hclass := hreg _ _ ht
  have hclear := hm.clear hclass.toStoresApart
  rw [message_eq_each ht hset hclear] at h
  obtain ⟨parts, hparts, h⟩ := bind_eq_ok.mp h
  cases h
  refine (RecordsOf.append (records_each (fun part hpart raw hraw hshort => ?_) hparts hlen.left.left)
    ?_).append ?_
  · rcases MessageType.mem_parts.mp hpart with ⟨f, hf, rfl⟩ | ⟨codec, hcodec, group, hgroup, rfl⟩
    · have hattr : f.slot.attr ∈ t.codecAttrs := mem_append_left _ (mem_map_of_mem hf)
      have hnumber := hclass.number_of_field hf
      obtain ⟨v, hown, hraw⟩ := bind_eq_ok.mp hraw
      replace hown : m.get? f.slot.attr = some v :=
        (Record.own?_eq_get? (hclass.attrsFree _ hattr) m).symm.trans (Record.require_eq_ok.mp hown)
      exact (records_fieldOf hreg ht hm hset hin hf hown hraw hshort).imp fun n hn => by omega
    · exact records_oneof hreg ht hm hset hin hcodec hgroup hraw hshort
  · refine RecordsOf.flatMap fun p hp => ?_
    obtain ⟨hpos, _, _, _, hraw⟩ := extension_of_sorted hset hclass hm.extension hp
    exact hraw.imp fun n hn => by omega
  · cases hunknown : m.unknown? with
    | none => exact .nil
    | some raw => exact (hm.unknownRecords raw hunknown).imp fun n hn => hn.1

end Messages

/-- What is written of a message of any depth is a sequence of whole records. -/
theorem records_encodeMessage (hreg : reg.Regular) (fuel : Nat) :
    ∀ m : Message, reg.Throughout (reg.Takes accepts) m →
      Whole reg (encodeMessage reg fuel) m := by
  induction fuel with
  | zero =>
    intro m _ bs h
    cases h
  | succ fuel ih =>
    intro m htakes bs h hlen t ht hset
    obtain ⟨t', ht', hm⟩ := htakes.here
    cases ht.symm.trans ht'
    exact records_message hreg ht hm hset (fun inner hwrites => ih inner (htakes.inside hwrites)) h hlen

end Protobind

import Protobind.Proofs.DecodeSafety

/-!
# Decoding is total

A sound class can be decoded from every byte string; in any other there is a short byte string that
fails for another reason than that it is malformed: the empty one when the
constructor cannot be called, the key of a field whose attribute is not stored, or the smallest
record of a member whose variant cannot be made (`decodesAll_iff_sound`).
-/

namespace Protobind

open List Registry Decode

variable {id : ClassId} {t : MessageType} {m m' : Message} {bs rest : Bytes}
  {member : VariantMember} {reg : Registry}

/-! ## Variants -/

theorem VariantType.constructorFault?_ne_malformed (t : VariantType) (v : Value) (e : DecodeError) :
    t.constructorFault? v ≠ some (.malformed e) := by
  intro h
  unfold constructorFault? at h
  split at h
  · cases h
  · split at h
    · cases h
    · cases h
    · cases h
    · split at h <;> cases h
    · cases h

/-! ## Emptying a message -/

/-- Whether a message is of some class and has no attributes but those that the class knows. -/
def Registry.Instance (reg : Registry) (m : Message) : Prop :=
  ∃ t, reg.messageType? m.type = some t ∧
    ∀ attr v, m.get? attr = some v → attr ∈ t.storedAttrs ++ t.codecAttrs

section

variable (hwf : reg.WellFormed)
include hwf

theorem Registry.Instance.clear (hm : reg.Instance m) : m.Clear := by
  obtain ⟨t, ht, hattrs⟩ := hm
  intro attr hreserved
  cases hv : m.get? attr with
  | none => rfl
  | some v =>
    rcases mem_append.mp (hattrs attr v hv) with hstored | hcodec
    · exact absurd hreserved ((hwf _ _ ht).free attr hstored)
    · exact absurd hreserved ((hwf _ _ ht).attrsFree attr hcodec)

theorem reset_eq (hsound : reg.Sound) (hm : reg.Instance m) (ht : m.HasType reg t) :
    reg.reset m = .ok (initialized t [] m) := by
  have hclear := hm.clear hwf
  obtain ⟨t', ht', hattrs⟩ := hm
  cases ht.symm.trans ht'
  have hinit : m.get? "__init__" = none := by
    cases hv : m.get? "__init__" with
    | none => rfl
    | some v => exact absurd (hattrs _ v hv) (hsound _ _ ht).resets
  unfold reset
  rw [hclear "reset" (by decide), hinit]
  unfold reconstruct constructOn
  simp only [ht, (hsound _ _ ht).constructs]
  rfl

end

namespace Decode

theorem records_rest {l : Layout} (h : records reg false l m bs = .done m' rest) : rest = [] :=
  records_induction (motive := fun _ _ => rest = []) id (fun _ _ _ _ _ _ _ _ _ ih => ih) h

end Decode

theorem merge_rest (h : merge reg m bs = .done m' rest) : rest = [] := by
  unfold merge at h
  split at h
  · unfold mergeSet at h
    split at h
    · cases h
    · simp only at h
      split at h <;> cases h
      rfl
  · rw [mergeFrom_eq_records] at h
    split at h
    · cases h
    · exact records_rest h

/-! ## What fails in a class that is not sound -/

/-- Whether data of any kind can be decoded into every message: the message is emptied first, and
then the data is merged to its end, or found to be malformed. -/
def Registry.DecodesAll (reg : Registry) : Prop :=
  ∀ m bs, reg.Instance m → ∃ start, reg.reset m = .ok start ∧
    ((∃ m', merge reg start bs = .done m' []) ∨
      ∃ e m', merge reg start bs = .failed (.malformed e) m')

section

variable (hwf : reg.WellFormed) (hall : reg.DecodesAll) (ht : reg.messageType? id = some t)
include hall ht

theorem callFault?_of_decodesAll : t.callFault? [] = none := by
  obtain ⟨start, hstart, -⟩ := hall { type := id, attrs := [] } []
    ⟨t, ht, fun attr v hv => by cases hv⟩
  cases hcall : t.callFault? [] with
  | none => rfl
  | some fault =>
    unfold reset reconstruct constructOn at hstart
    simp only [ht, hcall] at hstart
    cases hstart

theorem init_not_mem_of_decodesAll : "__init__" ∉ t.storedAttrs ++ t.codecAttrs := by
  intro hmem
  have hinstance : reg.Instance { type := id, attrs := [("__init__", .null)] } := by
    refine ⟨t, ht, fun attr v hv => ?_⟩
    by_cases hattr : "__init__" = attr
    · exact hattr ▸ hmem
    · simp [Record.get?, Dictionary.get?, hattr] at hv
  obtain ⟨start, hstart, -⟩ := hall _ [] hinstance
  cases hstart

theorem reset_empty : reg.reset { type := id, attrs := [] } = .ok (t.empty id) := by
  unfold reset reconstruct constructOn
  simp only [ht, callFault?_of_decodesAll hall ht]
  rfl

include hwf

omit hall in
theorem blank_empty : t.Blank (t.empty id) ∧ reg.messageType? (t.empty id).type = some t := by
  have hclear : Record.Clear { type := id, attrs := [] } := fun _ _ => rfl
  exact ⟨(hwf _ _ ht).blank_initialized hclear, (hwf _ _ ht).type_initialized hclear ▸ ht⟩

theorem malformed_of_records (hset : t.isMessageSet = false) {fault : Fault}
    (h : records reg false (.ofType t) (t.empty id) bs = .failed fault m') :
    ∃ e, fault = .malformed e := by
  obtain ⟨hblank, ht'⟩ := blank_empty hwf ht
  have hmerge := (merge_of_clear ht' (hwf _ _ ht).toSettled hblank.clear hset bs).trans h
  obtain ⟨start, hstart, houtcome⟩ := hall { type := id, attrs := [] } bs
    ⟨t, ht, fun attr v hv => by cases hv⟩
  cases (reset_empty hall ht).symm.trans hstart
  rcases houtcome with ⟨m'', hdone⟩ | ⟨e, m'', hfailed⟩
  · cases hdone.symm.trans hmerge
  · cases hfailed.symm.trans hmerge
    exact ⟨e, rfl⟩

omit hall in
theorem isMessageSet_eq_false_of_mem (hsome : t.fields ≠ [] ∨ t.groups ≠ []) :
    t.isMessageSet = false := by
  cases hset : t.isMessageSet with
  | false => rfl
  | true =>
    obtain ⟨-, hfields, hcodec⟩ := (hwf _ _ ht).set hset
    rcases hsome with hne | hne
    · exact absurd hfields hne
    · exact absurd (by unfold MessageType.groups; rw [hcodec]; rfl) hne

/-- The record of a field whose attribute is not stored has nothing to be merged with. -/
theorem stored_of_decodesAll {f : Field} (hf : f ∈ t.fields) : f.slot.attr ∈ t.storedAttrs := by
  by_contra hnot
  have hclass := hwf _ _ ht
  have hset := isMessageSet_eq_false_of_mem hwf ht (.inl (ne_nil_of_mem hf))
  have hmissing : (t.empty id).get? f.slot.attr = none := by
    rw [MessageType.empty, hclass.initialized_eq fun _ _ => rfl]
    exact Record.get?_setAll_of_not_mem (by rwa [t.initialPairs_attrs])
  have hfailed := records_writeKey reg false (.ofType t) (t.empty id) (hclass.number_of_field hf)
    (show WireType.varint ≠ .endGroup by decide) []
  rw [hclass.mergeRecord_field hf] at hfailed
  simp only [mergeField, Record.own?_eq_get? (hclass.field_attr_free hf), hmissing] at hfailed
  obtain ⟨e, he⟩ := malformed_of_records hwf hall ht hset hfailed
  cases he

omit hall in
theorem merge_nil : ∃ m', merge reg (t.empty id) [] = .done m' [] := by
  obtain ⟨hblank, ht'⟩ := blank_empty hwf ht
  cases hset : t.isMessageSet with
  | true =>
    rw [merge_eq_mergeSet ht' hset, mergeSet_eq hblank.clear (hblank.extensions ((hwf _ _ ht).set hset).1)]
    exact ⟨_, rfl⟩
  | false =>
    rw [merge_of_clear ht' (hwf _ _ ht).toSettled hblank.clear hset]
    exact ⟨_, rfl⟩

omit hwf hall ht in
theorem exists_scalar {slot : Slot} (h : slot.Resolves reg) (hplain : slot.kind.isMessage = false)
    (henum : slot.kind ≠ .known .enum) :
    ∃ payload v, scalar reg slot payload = .ok (v, []) ∧ v.isKey = true := by
  obtain ⟨kind, hkind⟩ := h.known
  unfold scalar
  rw [hkind] at hplain henum ⊢
  cases kind with
  | message | group => cases hplain
  | enum => exact absurd rfl henum
  | double | fixed64 | sfixed64 => exact ⟨[0, 0, 0, 0, 0, 0, 0, 0], _, rfl, rfl⟩
  | float | fixed32 | sfixed32 => exact ⟨[0, 0, 0, 0], _, rfl, rfl⟩
  | string =>
    have hread : readText (writeText "" ++ []) = .ok "" [] :=
      readText_writeText (s := "") (by decide) []
    exact ⟨writeText "" ++ [], .text "",
      mapParse_eq_ok.mpr ⟨"", ofReader_eq_ok.mpr hread, rfl⟩, rfl⟩
  | _ => exact ⟨[0], _, rfl, rfl⟩

omit ht in
theorem exists_readStep (h : member.Resolves reg) :
    ∃ payload v, readStep reg (readers reg) member.type payload
        (OneofCase.ofKind member.kind).read = .ok (v, []) ∧ ∀ entries, v ≠ .map entries := by
  by_cases hmessage : member.kind.isMessage = true
  · obtain ⟨id, t, hbound, ht⟩ := h.message hmessage
    have hnew := instantiate_message ht (callFault?_of_decodesAll hall ht)
    obtain ⟨hblank, ht'⟩ := blank_empty hwf ht
    simp only [readStep_message hmessage, hbound, ok_bind, hnew, outcomeParse_eq_ok]
    cases hkind : member.kind with
    | message =>
      obtain ⟨m', hmerge⟩ := merge_nil hwf ht
      refine ⟨[0], .message m', ?_, fun entries => by simp⟩
      exact embedded_message (by decide) hmerge []
    | group =>
      refine ⟨writeKey 1 .endGroup ++ [], .message (t.empty id), ?_, fun entries => by simp⟩
      refine embedded_group ((mergeFrom_of_clear ht' (hwf _ _ ht).toSettled hblank.clear true _).trans ?_)
      exact records_endGroup (by decide) []
    | _ => rw [hkind] at hmessage; cases hmessage
  by_cases henum : member.kind = .enum
  · obtain ⟨id, hread⟩ := h.readStep_enum henum
    exact ⟨[0], .enum id (signed32 0), hread _ _, fun entries => by simp⟩
  · have hplain : member.kind.isMessage = false := by simpa using hmessage
    have hslot := member.slot_resolves reg hplain
    obtain ⟨payload, v, hread, hkey⟩ := exists_scalar hslot hplain fun h =>
      henum (SlotKind.known.inj h)
    refine ⟨payload, v, (readStep_eq_scalar hplain henum reg _ _ payload).trans hread, ?_⟩
    rintro entries rfl
    cases hkey

/-- The record of a member whose variant cannot be made has nothing to be held by. -/
theorem variant_of_decodesAll {group : OneofSlot} (hgroup : group ∈ t.groups) (hmember : member ∈ group.members) {vid : ClassId}
    {vt : VariantType} (hbound : member.variant = .ok (.type vid))
    (hvt : reg.variantType? vid = some vt) : vt.constructorFault? .null = none := by
  have hclass := hwf _ _ ht
  have hset := isMessageSet_eq_false_of_mem hwf ht (.inr (ne_nil_of_mem hgroup))
  obtain ⟨payload, v, hread, hmap⟩ :=
    exists_readStep hwf hall (hclass.members group hgroup member hmember)
  have hwire : (OneofCase.ofKind member.kind).wireType ≠ .endGroup := by
    cases member.kind <;> decide
  have hfailed := records_writeKey reg false (.ofType t) (t.empty id)
    (hclass.number_of_member hgroup hmember) hwire payload
  rw [hclass.mergeRecord_member hgroup hmember] at hfailed
  cases hfault : vt.constructorFault? v with
  | none => exact VariantType.constructorFault?_null hfault hmap
  | some fault =>
    have hwrap : wrap reg member v = .error fault := by
      unfold wrap apply call VariantType.call
      simp only [hbound, class?_of_variantType? hvt, ok_bind, pure_eq_ok, hfault]
      rfl
    simp only [mergeMember, oneofCase, ne_eq, not_true_eq_false, if_false, hread,
      ok_bind, hwrap] at hfailed
    obtain ⟨e, rfl⟩ := malformed_of_records hwf hall ht hset hfailed
    exact absurd hfault (VariantType.constructorFault?_ne_malformed vt v e)

end

/-! ## All data can be decoded -/

/-- Whether no loop of the decoder is cut short by its fuel: what it gives with as many steps as
there are bytes, it gives with any larger number of steps. -/
structure Decode.Terminates (reg : Registry) : Prop where
  records : ∀ fuel inGroup m bs, bs.length ≤ fuel →
    mergeFrom reg fuel inGroup m bs = mergeFrom reg bs.length inGroup m bs
  runs : ∀ slot : Slot, slot.kind.isPackable = true → ∀ fuel bs, bs.length ≤ fuel →
    unpack (fun bs => outcomeParse (single reg (readers reg) slot .null bs)) fuel bs =
      unpack (fun bs => outcomeParse (single reg (readers reg) slot .null bs)) bs.length bs
  entries : ∀ key val fuel k v bs, bs.length ≤ fuel →
    entry (fun wire bs => outcomeParse (field reg (readers reg) key wire .null bs))
        (fun wire bs => outcomeParse (field reg (readers reg) val wire .null bs)) fuel k v bs =
      entry (fun wire bs => outcomeParse (field reg (readers reg) key wire .null bs))
        (fun wire bs => outcomeParse (field reg (readers reg) val wire .null bs)) bs.length k v bs
  groups : ∀ fuel bs, bs.length ≤ fuel → skipGroup fuel bs = skipGroup bs.length bs
  items : ∀ fuel id? data? bs, bs.length ≤ fuel →
    MessageSet.readItem fuel id? data? bs = MessageSet.readItem bs.length id? data? bs
  sets : ∀ fuel extensions bs, bs.length ≤ fuel →
    MessageSet.decodeEntries fuel extensions bs = MessageSet.decode extensions bs

theorem Decode.terminates (reg : Registry) : Terminates reg where
  records fuel inGroup m bs h := by
    unfold mergeFrom
    simp only [mergeRecords_fuel reg fuel bs.length bs h (Nat.le_refl _)]
  runs slot hpack fuel bs h := by
    refine unpack_fuel (fun bs v rest hread => ?_) fuel bs.length bs h (Nat.le_refl _)
    rw [single_of_isMessage_eq_false (isMessage_eq_false_of_isPackable hpack)] at hread
    cases hscalar : scalar reg slot bs with
    | error fault => rw [hscalar] at hread; cases hread
    | ok r =>
      rw [hscalar] at hread
      cases hread
      exact scalar_length_lt hscalar
  entries key val fuel k v bs h :=
    entry_congr
      (fun _ _ _ _ hread => field_length_le (local_readers reg) (outcomeParse_eq_ok.mp hread))
      (fun _ _ _ _ hread => field_length_le (local_readers reg) (outcomeParse_eq_ok.mp hread))
      (fun _ _ _ => rfl) (fun _ _ _ => rfl) fuel bs.length bs h (Nat.le_refl _) (Nat.le_refl _) k v
  groups fuel bs h := skipGroup_fuel fuel bs.length bs h (Nat.le_refl _)
  items fuel id? data? bs h :=
    MessageSet.readItem_fuel fuel bs.length bs h (Nat.le_refl _) id? data?
  sets fuel extensions bs h :=
    MessageSet.decodeEntries_fuel fuel bs.length bs h (Nat.le_refl _) extensions

/-- In well-formed classes the decoder always comes to an end, and every byte string is decoded or
reported as malformed exactly when all classes are sound: the constructor can be called and called
again, it stores the attributes of all fields, and so do the constructors of the variants. -/
theorem decodesAll_iff_sound {reg : Registry} (hwf : reg.WellFormed) :
    Decode.Terminates reg ∧ (reg.DecodesAll ↔ reg.Sound) := by
  refine ⟨Decode.terminates reg, fun hall id t ht => ?_, fun hsound m bs hm => ?_⟩
  · exact ⟨callFault?_of_decodesAll hall ht, init_not_mem_of_decodesAll hall ht,
      fun f hf => stored_of_decodesAll hwf hall ht hf,
      fun group hgroup member hmember vid vt hbound hvt =>
        variant_of_decodesAll hwf hall ht hgroup hmember hbound hvt⟩
  · have hreset := fun t => reset_eq hwf hsound hm (t := t)
    have hclear := hm.clear hwf
    obtain ⟨t, ht, -⟩ := hm
    refine ⟨_, hreset t ht, ?_⟩
    have hsafe := Decode.safe_merge hwf hsound (ready_initialized hwf hsound hclear ht) bs
    cases hmerge : merge reg (Registry.initialized t [] m) bs with
    | done m' rest =>
      cases merge_rest hmerge
      exact .inl ⟨m', rfl⟩
    | failed fault m' =>
      rw [hmerge] at hsafe
      obtain ⟨e, rfl⟩ := hsafe
      exact .inr ⟨e, m', rfl⟩

/-- A class with a number, a message of its own class, and a oneof that has one member, a text. The
attribute of the number is given. -/
def treeRegistry (attr : String) : Registry where
  classes :=
    #[.message
        { name := "U"
          fields :=
            [.plain
              { attr, kind := .known .int32
                tag := { text := "", wireType := .varint, number := 1, repeated := false,
                         required := false, name := attr } },
             .plain
              { attr := "child", kind := .known .message, typeName? := some "u.U"
                tag := { text := "", wireType := .bytes, number := 2, repeated := false,
                         required := false, name := "child" } }]
          oneofs := ["o"]
          params := [{ name := attr, attr }, { name := "child", attr := "child" },
            { name := "o", attr := "o" }]
          codec? := some
            { owner := "U"
              groups :=
                [{ attr := "o", label := "o"
                   members :=
                    [{ number := 3, kind := .string, attr := "s", variant := .ok (.type 2) }] }] } },
      .discriminator "U_O",
      .variant { name := "U_S", base? := some 1, slot := "s", stored := "s", assigned := "s" }]
  messageTypes := [("u.U", .type 0)]

theorem v_free : "v" ∉ "child" :: "o" :: reservedAttrs := by decide

theorem wellFormed_treeRegistry {attr : String} (hattr : attr ∉ "child" :: "o" :: reservedAttrs) :
    (treeRegistry attr).WellFormed := by
  rw [mem_cons, mem_cons, not_or, not_or] at hattr
  obtain ⟨hchild, ho, hfree⟩ := hattr
  rintro (_ | _ | _ | id) t ht
  · cases ht
    refine
      { nodup := ?_, free := ?_, index := fun _ h => ?_, ranges := rfl, fields := ?_, members := ?_,
        numbered := ?_, numbersOnce := ?_, attrsOnce := ?_, attrsFree := ?_, starts := ?_,
        extensible := fun h => absurd rfl h, set := fun h => ?_ }
    · simp [MessageType.storedAttrs, hchild, ho]
    · intro a ha
      simp only [MessageType.storedAttrs, map_cons, map_nil, mem_cons, not_mem_nil, or_false] at ha
      rcases ha with rfl | rfl | rfl
      · exact hfree
      · decide
      · decide
    · cases h
    · intro f hf
      rcases mem_pair.mp hf with rfl | rfl
      · exact ⟨⟨_, rfl⟩, fun h => (by cases h), fun _ _ h => (by cases h)⟩
      · exact ⟨⟨_, rfl⟩, fun _ => ⟨"u.U", 0, _, rfl, rfl, rfl⟩, fun _ _ h => (by cases h)⟩
    · intro group hgroup member hmember
      cases mem_singleton.mp hgroup
      cases mem_singleton.mp hmember
      exact ⟨⟨2, _, rfl, rfl⟩, fun h => (by cases h), fun h => (by cases h)⟩
    · show ∀ n ∈ [(1 : Int), 2, 3], IsNumber n
      decide
    · show [(1 : Int), 2, 3].Nodup
      decide
    · show [attr, "child", "o"].Nodup
      simp [hchild, ho]
    · show ∀ a ∈ [attr, "child", "o"], a ∉ reservedAttrs
      simpa using ⟨hfree, by decide, by decide⟩
    · intro f hf p hp _
      have hstart : p.start = .null := by
        rcases mem_cons.mp hp with rfl | hp
        · rfl
        rcases mem_pair.mp hp with rfl | rfl
        · rfl
        · rfl
      rcases mem_pair.mp hf with rfl | rfl
      · exact fun _ => hstart
      · exact fun _ => hstart
    · cases h
  · cases ht
  · cases ht
  · cases ht

theorem sound_treeRegistry : (treeRegistry "v").Sound := by
  rintro (_ | _ | _ | id) t ht
  · cases ht
    refine ⟨by decide, by decide, fun f hf => ?_, ?_⟩
    · rcases mem_pair.mp hf with rfl | rfl
      · decide
      · decide
    · intro group hgroup member hmember id vt hbound hvt
      cases mem_singleton.mp hgroup
      cases mem_singleton.mp hmember
      cases hbound
      cases hvt
      decide
  · cases ht
  · cases ht
  · cases ht

theorem decodesAll_treeRegistry : (treeRegistry "v").WellFormed ∧ (treeRegistry "v").DecodesAll ∧
      (treeRegistry "__init__").WellFormed ∧ ¬(treeRegistry "__init__").DecodesAll := by
  have hv : (treeRegistry "v").WellFormed := wellFormed_treeRegistry (by decide)
  have hinit : (treeRegistry "__init__").WellFormed := wellFormed_treeRegistry (by decide)
  refine ⟨hv, (decodesAll_iff_sound hv).2.mpr sound_treeRegistry, hinit, fun hall => ?_⟩
  exact ((decodesAll_iff_sound hinit).2.mp hall 0 _ rfl).resets (by decide)

end Protobind

import Protobind.Proofs.SizeAgreement
import Protobind.Proofs.Classes

/-!
# The code for oneof members agrees with the table-driven codec

The two write the same bytes, add the same size and read the same value. The type of a member may
be a class that forwards to the registered one; messages of the two are read alike.
-/

namespace Protobind

open Decode Registry Record MessageType

variable {b : ClassId} {t u : MessageType} {v : Value}

/-! ## Messages of forwarding classes -/

/-- Whether two classes have the same tables and make the same instances. -/
structure MessageType.SameShape (t u : MessageType) : Prop where
  fields : u.fields = t.fields
  index : u.index? = t.index?
  params : u.params = t.params
  ranges : u.ranges? = t.ranges?
  displaced : u.displaced? = t.displaced?
  hasExtensions : u.hasExtensions = t.hasExtensions
  keepsUnknown : u.keepsUnknown = t.keepsUnknown
  isMessageSet : u.isMessageSet = t.isMessageSet
  codec : u.codec? = t.codec?
  callFault : u.callFault? [] = t.callFault? []

theorem MessageType.SameShape.refl (t : MessageType) : t.SameShape t :=
  ⟨rfl, rfl, rfl, rfl, rfl, rfl, rfl, rfl, rfl, rfl⟩

/-- Whether two classes count as the same type and messages of them are read alike. -/
def Registry.Interchangeable (reg : Registry) (a b : ClassId) : Prop :=
  reg.canonical a = reg.canonical b ∧
    ∃ t u, reg.messageType? a = some t ∧ reg.messageType? b = some u ∧ t.SameShape u

/-- A message as an instance of another class. -/
def Record.retyped (id : ClassId) (m : Message) : Message := { m with type := id }

namespace Record

variable (id : ClassId) (m : Message)

theorem storeOne_retyped (attr : String) (v : Value) :
    (m.retyped id).storeOne attr v = (m.storeOne attr v).retyped id := by
  unfold storeOne
  split
  · split
    · split <;> rfl
    · rfl
  · split
    · split <;> rfl
    · rfl

theorem foldl_retyped {f : Message → String × Value → Message}
    (hf : ∀ m p, f (m.retyped id) p = (f m p).retyped id) (pairs : List (String × Value)) (m : Message) :
    pairs.foldl f (m.retyped id) = (pairs.foldl f m).retyped id :=
  List.foldl_hom (retyped id) hf

theorem store_retyped (attr : String) (v : Value) :
    (m.retyped id).store attr v = (m.store attr v).retyped id := by
  unfold store
  split
  · split
    · exact foldl_retyped id (fun m p => m.storeOne_retyped id p.1 p.2) _ ⟨m.type, _, none, none⟩
    · rfl
  · exact m.storeOne_retyped id attr v

theorem storeAll_retyped (pairs : List (String × Value)) (m : Message) :
    (m.retyped id).storeAll pairs = (m.storeAll pairs).retyped id :=
  foldl_retyped id (fun m p => m.store_retyped id p.1 p.2) pairs m

theorem withStore_retyped (store : ExtensionStore) :
    (m.retyped id).withStore store = (m.withStore store).retyped id := by
  cases store with
  | records extensions => rfl
  | other v => exact m.store_retyped id extensionsAttr v

theorem addUnknown_retyped (raw : Bytes) :
    (m.retyped id).addUnknown raw = (m.addUnknown raw).map (retyped id) := by
  unfold addUnknown
  rw [show (m.retyped id).get? unknownAttr = m.get? unknownAttr from rfl]
  cases m.get? unknownAttr with
  | none => rfl
  | some v =>
    simp only
    cases v.asBytes with
    | error fault => rfl
    | ok bs => exact congrArg Except.ok (m.store_retyped id unknownAttr _)

end Record

section Retyping

variable (reg : Registry) (nested : Nested) (id : ClassId) (m : Message)

theorem Outcome.map_map {σ τ υ : Type} (f : σ → τ) (g : τ → υ) (o : Outcome σ) :
    (o.map f).map g = o.map (g ∘ f) := by
  cases o <;> rfl

theorem keep_retyped (ranges : List FieldRange) (number : Int) (raw : Bytes) :
    keep ranges (m.retyped id) number raw = (keep ranges m number raw).map (retyped id) := by
  unfold keep
  rw [show (m.retyped id).extensionStore? = m.extensionStore? from rfl]
  split
  · cases m.extensionStore? with
    | none => rfl
    | some store =>
      simp only
      cases store.add number raw with
      | error fault => rfl
      | ok store => exact congrArg Except.ok (m.withStore_retyped id store)
  · exact m.addUnknown_retyped id raw

theorem mergeField_retyped (f : Field) (wire : Nat) (rest : Bytes) :
    mergeField reg nested (m.retyped id) f wire rest =
      (mergeField reg nested m f wire rest).map (retyped id) := by
  unfold mergeField
  rw [show (m.retyped id).own? f.slot.attr = m.own? f.slot.attr from rfl]
  cases m.own? f.slot.attr with
  | none => rfl
  | some current =>
    simp only [Outcome.map_map]
    congr 1
    funext v
    exact m.store_retyped id f.slot.attr v

theorem mergeMember_retyped (group : OneofSlot) (member : VariantMember) (wire : Nat)
    (rest : Bytes) :
    mergeMember reg nested (m.retyped id) group member wire rest =
      (mergeMember reg nested m group member wire rest).map (retyped id) := by
  unfold mergeMember
  simp only
  split
  · simp only [Outcome.map, store_retyped]
  · rfl

theorem mergeRecord_retyped (l : Layout) (number wire : Nat) (start rest : Bytes) :
    mergeRecord reg nested l (m.retyped id) number wire start rest =
      (mergeRecord reg nested l m number wire start rest).map (retyped id) := by
  unfold mergeRecord
  split
  · exact mergeField_retyped reg nested id m _ wire rest
  · split
    · exact mergeMember_retyped reg nested id m _ _ wire rest
    · split
      · rfl
      · rw [keep_retyped]
        cases keep l.ranges m number (start.take (start.length - List.length _)) <;> rfl

/-- Records are merged in the same way into messages of any two classes, once the layout is
settled. -/
theorem mergeRecords_retyped (inGroup : Bool) (l : Layout) : ∀ (fuel : Nat) (m : Message)
    (bs : Bytes), mergeRecords reg fuel inGroup l (m.retyped id) bs =
      (mergeRecords reg fuel inGroup l m bs).map (retyped id)
  | fuel, m, [] => by
    rw [mergeRecords_nil, mergeRecords_nil]
    cases inGroup <;> rfl
  | 0, m, b :: bs => rfl
  | fuel + 1, m, b :: bs => by
    rw [mergeRecords_cons, mergeRecords_cons, step, step]
    cases Varint.read (b :: bs) with
    | error e _ => rfl
    | ok tag rest =>
      simp only
      split
      · cases inGroup <;> rfl
      · split
        · rfl
        · rw [mergeRecord_retyped]
          cases mergeRecord reg (boundedReaders reg fuel) l m (tag / 8) (tag % 8) (b :: bs) rest with
          | failed fault m => rfl
          | done m rest => exact mergeRecords_retyped inGroup l fuel m rest

variable {reg id m}

theorem mergeSet_retyped (m : Message) (bs : Bytes) :
    mergeSet (m.retyped id) bs = (mergeSet m bs).map (retyped id) := by
  unfold mergeSet
  rw [show (m.retyped id).extensionStore? = m.extensionStore? from rfl]
  cases m.extensionStore? with
  | none => rfl
  | some store =>
    simp only [withStore_retyped]
    cases (MessageSet.decodeStore store bs).2 <;> rfl

section Shapes

variable (ht : m.HasType reg t) (hu : reg.messageType? id = some u)
  (h : t.SameShape u)
include ht hu h

theorem layout_retyped : layout reg (m.retyped id) = layout reg m := by
  have hranges : u.ranges = t.ranges := by simp only [ranges, h.ranges]
  unfold layout
  rw [ht, show reg.messageType? (m.retyped id).type = some u from hu]
  simp only [indexOf, tableOf, codecOf, MessageType.rangesOf, h.fields, h.index, h.codec, h.displaced,
    hranges]
  rfl

theorem mergeFrom_retyped (fuel : Nat) (inGroup : Bool) (bs : Bytes) :
    mergeFrom reg fuel inGroup (m.retyped id) bs =
      (mergeFrom reg fuel inGroup m bs).map (retyped id) := by
  unfold mergeFrom
  rw [layout_retyped ht hu h]
  cases layout reg m with
  | error fault => rfl
  | ok l => exact mergeRecords_retyped reg id inGroup l fuel m bs

theorem merge_retyped (bs : Bytes) :
    merge reg (m.retyped id) bs = (merge reg m bs).map (retyped id) := by
  unfold merge
  rw [ht, show reg.messageType? (m.retyped id).type = some u from hu]
  simp only [Option.map_some, Option.getD_some, h.isMessageSet]
  split
  · exact mergeSet_retyped m bs
  · exact mergeFrom_retyped ht hu h bs.length false bs

/-- What two interchangeable classes make of the same data: both fail, or the two results differ in
their class only. -/
theorem outcomes_retyped (merge : Message → Bytes → Outcome Message)
    (hmerge : ∀ id' u', reg.messageType? id' = some u' → (∃ t, m.HasType reg t ∧
      t.SameShape u') → ∀ bs, merge (m.retyped id') bs = (merge m bs).map (retyped id'))
    (bs : Bytes) :
    (∃ fault v w, into merge (.message m) bs = .failed fault v ∧
      into merge (.message (m.retyped id)) bs = .failed fault w) ∨
    ∃ (n : Message) (rest : Bytes), n.type = m.type ∧
      into merge (.message m) bs = .done (.message n) rest ∧
      into merge (.message (m.retyped id)) bs = .done (.message (n.retyped id)) rest := by
  have hself := hmerge m.type t ht ⟨t, ht, .refl t⟩ bs
  have hother := hmerge id u hu ⟨t, ht, h⟩ bs
  rw [show m.retyped m.type = m from rfl] at hself
  unfold into
  simp only [hother]
  cases hread : merge m bs with
  | failed fault n => exact .inl ⟨fault, _, _, rfl, rfl⟩
  | done n rest =>
    rw [hread, Outcome.map, Outcome.done.injEq] at hself
    have htype : n.type = (n.retyped m.type).type := congrArg type hself.1
    exact .inr ⟨n, rest, htype, rfl, rfl⟩

/-- Messages inside a message are read alike, whichever of two interchangeable classes they have. -/
theorem embedded_retyped (isGroup : Bool) (bs : Bytes) :
    (∃ fault v w, embedded (readers reg) isGroup (.message m) bs = .failed fault v ∧
      embedded (readers reg) isGroup (.message (m.retyped id)) bs = .failed fault w) ∨
    ∃ (n : Message) (rest : Bytes), n.type = m.type ∧
      embedded (readers reg) isGroup (.message m) bs = .done (.message n) rest ∧
      embedded (readers reg) isGroup (.message (m.retyped id)) bs =
        .done (.message (n.retyped id)) rest := by
  unfold embedded reading
  cases isGroup with
  | true =>
    refine outcomes_retyped ht hu h (readers reg).group ?_ bs
    rintro id' u' hu' ⟨t', ht', h'⟩ bs
    exact mergeFrom_retyped ht' hu' h' bs.length true bs
  | false =>
    cases ofReader readRun bs with
    | error fault => exact .inl ⟨_, _, _, rfl, rfl⟩
    | ok r =>
      have hinto := outcomes_retyped ht hu h (readers reg).message ?_ r.1
      · rcases hinto with ⟨fault, v, w, hv, hw⟩ | ⟨n, left, htype, hv, hw⟩
        · exact .inl ⟨fault, v, w, by simp [hv, withRest], by simp [hw, withRest]⟩
        · exact .inr ⟨n, r.2, htype, by simp [hv, withRest], by simp [hw, withRest]⟩
      · rintro id' u' hu' ⟨t', ht', h'⟩ bs
        exact merge_retyped ht' hu' h' bs

end Shapes

theorem initialized_retyped (h : t.SameShape u) (m : Message) :
    initialized u [] (m.retyped id) = (initialized t [] m).retyped id := by
  unfold initialized
  simp only [h.params, h.hasExtensions, h.keepsUnknown, storeAll_retyped]
  split <;> split <;> simp only [store_retyped]

theorem newMessage_of_registered {slot : Slot} {name : String} (hname : slot.typeName? = some name)
    (hclass : reg.messageTypes.get? name = some (.type b)) :
    newMessage reg slot = reg.instantiate (.type b) := by
  unfold newMessage messageClass
  simp only [hname, hclass]
  rfl

theorem instantiate_retyped {a : ClassId} (ht : reg.messageType? b = some t)
    (hu : reg.messageType? a = some u) (h : t.SameShape u) :
    (∃ fault, reg.instantiate (.type b) = .error fault ∧ reg.instantiate (.type a) = .error fault) ∨
      ∃ m : Message, m.type = b ∧ reg.instantiate (.type b) = .ok (.message m) ∧
        reg.instantiate (.type a) = .ok (.message (m.retyped a)) := by
  cases hfault : t.callFault? [] with
  | some fault =>
    have hfault' : u.callFault? [] = some fault := h.callFault.trans hfault
    exact .inl ⟨fault, instantiate_of_fault ht hfault, instantiate_of_fault hu hfault'⟩
  | none =>
    have hfault' : u.callFault? [] = none := h.callFault.trans hfault
    refine .inr ⟨t.empty b, ?_, instantiate_message ht hfault, ?_⟩
    · have hself : t.empty b = (t.empty b).retyped b :=
        initialized_retyped (.refl t) { type := b, attrs := [] }
      exact congrArg type hself
    · rw [instantiate_message hu hfault', ← initialized_retyped h]
      rfl

end Retyping

/-! ## Members -/

/-- Whether a table entry is that of a single field of the kind, number and type of a member. The
type of the member may be another class than the registered one if the two are
interchangeable. -/
structure VariantMember.Mirrors (reg : Registry) (member : VariantMember) (slot : Slot) : Prop where
  kind : slot.kind = .known member.kind
  number : slot.tag.number = member.number
  wireType : slot.tag.wireType = member.kind.encoding.wireType
  single : slot.tag.repeated = false
  enum : member.kind = .enum → ∃ name type, slot.typeName? = some name ∧
    reg.enumTypes.get? name = some type ∧ member.type = .ok type
  message : member.kind.isMessage = true → ∃ name a b, slot.typeName? = some name ∧
    reg.messageTypes.get? name = some (.type b) ∧ member.type = .ok (.type a) ∧
    reg.Interchangeable b a

/-- Whether two values are the same, up to the class of a message, which may be one that counts as
the same type. -/
def Registry.SameContent (reg : Registry) (v w : Value) : Prop :=
  v = w ∨ ∃ (m : Message) (id : ClassId), v = .message m ∧ w = .message (m.retyped id) ∧
    reg.canonical m.type = reg.canonical id

/-- Whether the code for a member reads what a field would read: the same value from the same bytes,
or the same fault. -/
def ReadsLike (reg : Registry) (field : Outcome Value) (member : Result (Value × Bytes)) : Prop :=
  match field with
  | .failed fault _ => member = .error fault
  | .done v rest => ∃ w, reg.SameContent v w ∧ member = .ok (w, rest)

namespace VariantMember.Mirrors

variable {reg : Registry} {member : VariantMember} {slot : Slot} (h : member.Mirrors reg slot)
include h

theorem isMap_eq_false : slot.kind.isMap = false := by rw [h.kind]; rfl

theorem encode_single (write : Writer) (v : Value) :
    Encode.single write slot v = Encode.single write member.slot v := by
  unfold Encode.single
  rw [h.kind, h.number, h.wireType]
  rfl

theorem size_single (measure : Message → Result Nat) (v : Value) :
    Size.single measure slot v = Size.single measure member.slot v := by
  unfold Size.single
  rw [h.kind, h.number, h.wireType]
  rfl

theorem encode_field (write : Writer) (hv : v ≠ .null) :
    Encode.field write (.plain slot) true v = Encode.single write slot v := by
  have hnull : v.isNull = false := by
    cases v with
    | null => exact absurd rfl hv
    | _ => rfl
  unfold Encode.field
  simp [h.isMap_eq_false, h.single, hnull]

theorem size_field (measure : Message → Result Nat) (hv : v ≠ .null) :
    Size.field measure (.plain slot) true v = Size.single measure slot v := by
  have hnull : v.isNull = false := by
    cases v with
    | null => exact absurd rfl hv
    | _ => rfl
  unfold Size.field
  simp [h.isMap_eq_false, h.single, hnull]

theorem decode_field (wire : Nat) (bs : Bytes) :
    Decode.field reg (readers reg) (.plain slot) wire .null bs =
      if wire ≠ member.kind.encoding.wireType.code then
        .failed (.malformed (.badWireType member.number wire member.kind.encoding.wireType.code))
          .null
      else Decode.single reg (readers reg) slot .null bs := by
  unfold Decode.field badWireType
  simp only [h.isMap_eq_false, h.single, h.wireType, h.number, Bool.false_eq_true, if_false]

theorem scalar_eq (henum : member.kind ≠ .enum) (bs : Bytes) :
    scalar reg slot bs = scalar reg member.slot bs := by
  unfold scalar VariantMember.slot
  rw [h.kind]
  cases hkind : member.kind with
  | enum => exact absurd hkind henum
  | _ => rfl

/-- A number is read and made a value of the enum class, which is looked up by its name or known. -/
theorem readsLike_enum (henum : member.kind = .enum) (bs : Bytes) :
    readStep reg (readers reg) member.type bs (OneofCase.ofKind member.kind).read =
      scalar reg slot bs := by
  obtain ⟨name, type, hname, hclass, htype⟩ := h.enum henum
  have hvalue : ∀ n, reg.enumValue slot.typeName? n = reg.apply type (.int n) := by
    intro n
    unfold enumValue
    rw [hname, Option.bind_some, hclass]
  unfold scalar
  rw [h.kind, htype, henum]
  simp only [OneofCase.ofKind, readStep, readSource, mapParse, ofReader_lift, convert, hvalue]
  cases ofReader Varint.read bs <;> rfl

/-- A message is made and read in the same way from either class. -/
theorem readsLike_message (hmessage : member.kind.isMessage = true) (isGroup : Bool) (bs : Bytes) :
    ReadsLike reg
      (match newMessage reg slot with
        | .error fault => .failed fault .null
        | .ok v =>
          match embedded (readers reg) isGroup v bs with
          | .done v rest => .done v rest
          | .failed fault _ => .failed fault .null)
      (do outcomeParse (embedded (readers reg) isGroup (← reg.instantiate (← member.type)) bs)) := by
  obtain ⟨name, a, b, hname, hclass, htype, hcanonical, t, u, ht, hu, hshape⟩ := h.message hmessage
  rw [newMessage_of_registered hname hclass, htype, ok_bind]
  rcases instantiate_retyped ht hu hshape with ⟨fault, hb, ha⟩ | ⟨m, hm, hb, ha⟩
  · rw [hb, ha]
    rfl
  · rw [hb, ha, ok_bind]
    rcases embedded_retyped (by rw [Record.HasType, hm]; exact ht) hu hshape isGroup bs with
      ⟨fault, v, w, hv, hw⟩ | ⟨n, rest, hn, hv, hw⟩
    · simp only [hv, hw]
      rfl
    · simp only [hv, hw]
      exact ⟨_, .inr ⟨n, a, rfl, rfl, by rw [hn, hm, hcanonical]⟩, rfl⟩

/-- The code for a member reads what a field of the same kind, number and type reads. -/
theorem readsLike (wire : Nat) (bs : Bytes) :
    ReadsLike reg (Decode.field reg (readers reg) (.plain slot) wire .null bs)
      (oneofCase reg (readers reg) (OneofCase.ofKind member.kind) member.number member.type wire
        bs) := by
  have hwire : (OneofCase.ofKind member.kind).wireType = member.kind.encoding.wireType := by
    cases member.kind <;> rfl
  rw [h.decode_field]
  unfold oneofCase
  rw [hwire]
  by_cases hcode : wire ≠ member.kind.encoding.wireType.code
  · rw [if_pos hcode, if_pos hcode]
    rfl
  rw [if_neg hcode, if_neg hcode]
  unfold Decode.single
  cases hmessage : member.kind.isMessage with
  | true =>
    obtain ⟨name, a, b, hname, -⟩ := h.message hmessage
    have hstep : readStep reg (readers reg) member.type bs (OneofCase.ofKind member.kind).read =
        (do outcomeParse (embedded (readers reg) (slot.kind = .known .group)
          (← reg.instantiate (← member.type)) bs)) := by
      rw [h.kind]
      cases hkind : member.kind with
      | message | group => rfl
      | _ => rw [hkind] at hmessage; cases hmessage
    rw [if_pos (by rw [h.kind]; exact hmessage), if_neg (by rw [hname]; simp), hstep]
    exact h.readsLike_message hmessage (slot.kind = .known .group) bs
  | false =>
    have hscalar : readStep reg (readers reg) member.type bs (OneofCase.ofKind member.kind).read =
        scalar reg slot bs := by
      by_cases henum : member.kind = .enum
      · exact h.readsLike_enum henum bs
      · rw [h.scalar_eq henum, readStep_eq_scalar hmessage henum]
    rw [if_neg (by rw [h.kind]; exact ne_true_of_eq_false hmessage), hscalar]
    cases scalar reg slot bs with
    | error fault => rfl
    | ok p => exact ⟨p.1, .inl rfl, rfl⟩

end VariantMember.Mirrors

/-- The class of the variant that holds the value of a member. -/
structure VariantMember.HeldBy (reg : Registry) (member : VariantMember) (id : ClassId)
    (vt : VariantType) : Prop where
  variant : member.variant = .ok (.type id)
  type : reg.variantType? id = some vt
  constructs : vt.constructorFault? .null = none

theorem wrap_of_heldBy {reg : Registry} {member : VariantMember} {id : ClassId} {vt : VariantType}
    (h : member.HeldBy reg id vt) (v : Value) :
    wrap reg member v = .ok (.variant id vt.stored v) := by
  have hfault := VariantType.constructorFault?_of_null h.constructs v
  unfold wrap apply call VariantType.call
  simp only [h.variant, class?_of_variantType? h.type, bind, Except.bind, pure, Except.pure, hfault]

/-- The code for a member of a oneof does what the table-driven codec does for a single field of the
same kind, number and type whose zero value is written. For every value that is set, the two write the
same bytes or fail with the same fault, and so do the two sizes, provided that the module of the code
has not rebound the function that measures texts and runs of bytes. For every wire type and all data,
the two fail with the same fault, or they leave the same data and the message gets a variant that
holds what the field would hold. -/
theorem oneofCode_agrees {reg : Registry} {member : VariantMember} {slot : Slot}
    (h : member.Mirrors reg slot) {id : ClassId} {vt : VariantType} (hheld : member.HeldBy reg id vt)
    {codec : OneofCodec} (hcodec : codec.Measures member) :
    (∀ write v, v ≠ .null →
      Encode.oneofCase write (.ofKind member.kind) member.number v =
        Encode.field write (.plain slot) true v) ∧
    (∀ measure v, v ≠ .null →
      Size.oneofCase measure codec.rebound (.ofKind member.kind) member.number v =
        Size.field measure (.plain slot) true v) ∧
    (∀ (group : OneofSlot) (m : Message) (wire : Nat) (bs : Bytes),
      match Decode.field reg (readers reg) (.plain slot) wire .null bs with
      | .failed fault _ =>
        mergeMember reg (readers reg) m group member wire bs = .failed fault m
      | .done v rest => ∃ w, reg.SameContent v w ∧
        mergeMember reg (readers reg) m group member wire bs =
          .done (m.store group.attr (.variant id vt.stored w)) rest) := by
  refine ⟨fun write v hv => ?_, fun measure v hv => ?_, fun group m wire bs => ?_⟩
  · rw [oneofCase_eq_single, h.encode_field write hv, h.encode_single]
  · rw [size_oneofCase_eq_single measure hcodec, h.size_field measure hv, h.size_single]
  · have hread := h.readsLike wire bs
    unfold mergeMember
    cases hfield : Decode.field reg (readers reg) (.plain slot) wire .null bs with
    | failed fault v =>
      rw [hfield] at hread
      simp only [show oneofCase reg (readers reg) _ _ _ wire bs = .error fault from hread]
      rfl
    | done v rest =>
      rw [hfield] at hread
      obtain ⟨w, hsame, hcase⟩ := hread
      refine ⟨w, hsame, ?_⟩
      simp only [hcase, ok_bind, wrap_of_heldBy hheld, pure_eq_ok]

/-- A registry with a class of messages, a class that forwards to it, and a variant class. -/
def forwardedRegistry : Registry where
  classes :=
    #[.message { name := "D" },
      .message { name := "D", form := .forwarding false, standsFor? := some 0 },
      .variant { name := "U_D", base? := none, slot := "d", stored := "d", assigned := "d" }]
  messageTypes := [("d.D", .type 0)]

/-- A member of a oneof whose type is the forwarding class. -/
def forwardedMember : VariantMember where
  number := 7
  kind := .message
  attr := "d"
  variant := .ok (.type 2)
  type := .ok (.type 1)

theorem oneofCode_agrees_forwarded : (forwardedMember.Mirrors forwardedRegistry
        { forwardedMember.slot with typeName? := some "d.D" } ∧
      forwardedMember.HeldBy forwardedRegistry 2
        { name := "U_D", base? := none, slot := "d", stored := "d", assigned := "d" } ∧
      ({ owner := "U", groups := [], rebound := ["len"] } : OneofCodec).Measures forwardedMember) ∧
    ∃ w, forwardedRegistry.SameContent (.message { type := 0, attrs := [] }) w ∧
      mergeMember forwardedRegistry (readers forwardedRegistry) { type := 5, attrs := [] }
          { attr := "o", label := "o", members := [forwardedMember] } forwardedMember 2 [0, 9] =
        .done { type := 5, attrs := [("o", .variant 2 "d" w)] } [9] := by
  have hmirrors : forwardedMember.Mirrors forwardedRegistry
      { forwardedMember.slot with typeName? := some "d.D" } := by
    refine ⟨rfl, rfl, rfl, rfl, fun h => (by cases h), fun _ => ?_⟩
    refine ⟨"d.D", 1, 0, rfl, rfl, rfl, rfl, _, _, rfl, rfl, ?_⟩
    exact ⟨rfl, rfl, rfl, rfl, rfl, rfl, rfl, rfl, rfl, rfl⟩
  have hheld : forwardedMember.HeldBy forwardedRegistry 2
      { name := "U_D", base? := none, slot := "d", stored := "d", assigned := "d" } :=
    ⟨rfl, rfl, rfl⟩
  have hcodec : ({ owner := "U", groups := [], rebound := ["len"] } : OneofCodec).Measures
      forwardedMember := by
    unfold OneofCodec.Measures
    decide
  refine ⟨⟨hmirrors, hheld, hcodec⟩, ?_⟩
  have hfield : Decode.field forwardedRegistry (readers forwardedRegistry)
      (.plain { forwardedMember.slot with typeName? := some "d.D" }) 2 .null [0, 9] =
        .done (.message { type := 0, attrs := [] }) [9] := by rfl
  have hread := (oneofCode_agrees hmirrors hheld hcodec).2.2
    { attr := "o", label := "o", members := [forwardedMember] } { type := 5, attrs := [] } 2 [0, 9]
  rw [hfield] at hread
  exact hread

/-- A member of a oneof that holds a number. -/
def numberMember : VariantMember where
  number := 1
  kind := .int32
  attr := "n"
  variant := .ok (.type 0)

/-- The code for a member does not look whether the member is set: it fails on a variant that holds
nothing, where a field is left out. -/
theorem oneofCode_null : numberMember.Mirrors {} numberMember.slot ∧
      Encode.oneofCase (fun _ => .ok []) (.ofKind .int32) 1 .null = .error .wrongType ∧
      Encode.field (fun _ => .ok []) (.plain numberMember.slot) true .null = .ok [] := by
  refine ⟨⟨rfl, rfl, rfl, rfl, fun h => (by cases h), fun h => (by cases h)⟩, rfl, rfl⟩

end Protobind

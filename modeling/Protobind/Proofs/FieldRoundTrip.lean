import Protobind.Proofs.Typing

/-!
# Fields there and back

What is written of a field of a well-typed message is merged into a fresh message as an equal value
that is written in the same way again (`field_back`). The result for single values (`single_back`)
carries over to lists and maps, given that the messages inside are read back (`Backed`).
-/

namespace Protobind

open List Protobind.Decode Protobind.Field

open Value (weight truthy sameKey setEntry)

open Encode (each value mapRecord)

variable {f : Field} {slot key val : Slot} {v w current k start : Value} {items ws : List Value}
  {bs run raw rest : Bytes} {entries others : List (Value × Value)}
  {equal : Value → Value → Result Bool} {inner m m' : Message} {kind : Kind} {name : String}
  {reg : Registry} {wire : WireType} {t : MessageType} {write : Writer}

/-! ## Messages inside -/

/-- Whether some data reads back as a message that equals a given one, in a fresh message of its
class, as a whole or up to the end of a group, and is what the message read is written as. -/
def ReadsBack (reg : Registry) (m : Message) (bs : Bytes) : Prop :=
  ∀ t, reg.messageType? m.type = some t → ∀ start : Message, t.Fresh start → start.type = m.type →
    ∃ m' : Message, EqualTo reg (.message m) (.message m') ∧
      (t.isMessageSet = false → m'.unknown? = m.unknown?) ∧ merge reg start bs = .done m' [] ∧
      (t.isMessageSet = false → ∀ number, 0 ≤ number ∧ number < 2305843009213693952 → ∀ rest,
        (readers reg).group start (bs ++ (writeKey number .endGroup ++ rest)) = .done m' rest) ∧
      ∀ fuel, m'.weight ≤ fuel → encodeMessage reg fuel m' = .ok bs

/-- Whether a message is written, and what is written reads back if the length of a run can say how
long it is. -/
def Backed (reg : Registry) (write : Message → Result Bytes) (m : Message) : Prop :=
  ∃ bs, write m = .ok bs ∧ (bs.length < 18446744073709551616 → ReadsBack reg m bs)

/-- Whether a value, if it is a message, is of a class that can be called, and is read back. -/
def InnerBacked (reg : Registry) (write : Message → Result Bytes) (v : Value) : Prop :=
  ∀ inner, v = .message inner → reg.Constructs inner ∧ Backed reg write inner

theorem Encode.each_eq_flatMap {α : Type} {part : α → Result Bytes} {bytes : α → Bytes}
    {parts : List α} (h : ∀ a ∈ parts, part a = .ok (bytes a)) :
    each part parts = .ok (parts.flatMap bytes) := by
  induction parts with
  | nil => rfl
  | cons first parts ih =>
    unfold each
    rw [h first mem_cons_self, ih fun a ha => h a (mem_cons_of_mem _ ha)]
    rfl

theorem each_back {α : Type} (write : α → Result Bytes) (back : α → Bytes → Prop) {items : List α}
    (h : ∀ a ∈ items, ∃ bs, write a = .ok bs ∧ (Short bs → back a bs)) :
    ∃ raw : α → Bytes, each write items = .ok (items.flatMap raw) ∧
      (Short (items.flatMap raw) → ∀ a ∈ items, back a (raw a)) := by
  choose! raw hraw hback using h
  exact ⟨raw, Encode.each_eq_flatMap hraw, fun hlen a ha => hback a ha (hlen.of_flatMap ha)⟩

section Single

variable (hreg : reg.Regular) (write : Writer)

theorem single_of_new (hmessage : slot.kind.isMessage = true) (hname : slot.typeName? = some name)
    {new : Value} (hnew : newMessage reg slot = .ok new)
    (h : embedded (readers reg) (slot.kind = .known .group) new bs = .done v rest) :
    single reg (readers reg) slot .null bs = .done v rest := by
  unfold single
  rw [if_pos hmessage, if_neg (by simp [hname]), if_pos (by rfl)]
  simp only [hnew, h]

theorem single_of_message (hkind : slot.kind = .known .message) (h : write inner = .ok bs) :
    Encode.single write slot (.message inner) =
      .ok (writeKey slot.tag.number slot.tag.wireType ++ writeRun bs) := by
  unfold Encode.single
  rw [if_neg (by simp [hkind]), hkind]
  simp only [value, Encode.body, h]
  rfl

theorem single_of_group (hkind : slot.kind = .known .group)
    (hwire : slot.tag.wireType = .startGroup) (h : write inner = .ok bs) :
    Encode.single write slot (.message inner) =
      .ok (writeKey slot.tag.number slot.tag.wireType ++
        (bs ++ writeKey slot.tag.number .endGroup)) := by
  unfold Encode.single
  rw [if_pos hkind, hwire]
  simp only [Encode.body, h]
  exact congrArg Except.ok (append_assoc _ _ _)

theorem single_of_scalar (hkind : slot.kind = .known kind) (hplain : kind.isMessage = false)
    (h : value write (.known kind) v = .ok bs) :
    Encode.single write slot v = .ok (writeKey slot.tag.number slot.tag.wireType ++ bs) := by
  unfold Encode.single
  rw [if_neg (by rw [hkind]; rintro ⟨⟩; cases hplain), hkind, h]
  rfl

/-- A message is read back from what is written of it behind a key, as a run or as a group. -/
theorem message_back (hkind : slot.kind = .known kind) (hmessage : kind.isMessage = true)
    (hwire : slot.tag.wireType = kind.encoding.wireType) (hnumber : IsNumber slot.tag.number)
    (ht : inner.HasType reg t) (hset : kind = .group → t.isMessageSet = false)
    {start : Message} (hstart : t.Fresh start) (htype : start.type = inner.type)
    (hin : Backed reg write inner) :
    ∃ raw, Encode.single write slot (.message inner) =
        .ok (writeKey slot.tag.number slot.tag.wireType ++ raw) ∧
      (Short raw → ∃ m' : Message, EqualTo reg (.message inner) (.message m') ∧
        (∀ rest, embedded (readers reg) (kind = .group) (.message start) (raw ++ rest) =
          .done (.message m') rest) ∧
        ∀ fuel, m'.weight ≤ fuel → Encode.single (encodeMessage reg fuel) slot (.message m') =
          .ok (writeKey slot.tag.number slot.tag.wireType ++ raw)) := by
  obtain ⟨bs, hwritten, hback⟩ := hin
  cases kind with
  | message =>
    refine ⟨writeRun bs, single_of_message write hkind hwritten, fun hlen => ?_⟩
    have hshort := hlen.of_writeRun
    obtain ⟨m', hequal, _, hmerge, _, hagain⟩ := hback hshort t ht start hstart htype
    exact ⟨m', hequal, embedded_message hshort hmerge, fun fuel hfuel =>
      single_of_message _ hkind (hagain fuel hfuel)⟩
  | group =>
    refine ⟨bs ++ writeKey slot.tag.number .endGroup, single_of_group write hkind hwire hwritten,
      fun hlen => ?_⟩
    obtain ⟨m', hequal, _, _, hgroup, hagain⟩ := hback hlen.left t ht start hstart htype
    refine ⟨m', hequal, fun rest => ?_, fun fuel hfuel =>
      single_of_group _ hkind hwire (hagain fuel hfuel)⟩
    rw [append_assoc]
    exact embedded_group (hgroup (hset rfl) slot.tag.number hnumber.fitsKey rest)
  | _ => cases hmessage

include hreg

theorem newMessage_eq (hname : slot.typeName? = some name)
    (hbound : reg.messageTypes.get? name = some (.type inner.type))
    (hinner : reg.Constructs inner) :
    ∃ t start, inner.HasType reg t ∧ t.Fresh start ∧ start.type = inner.type ∧
      newMessage reg slot = .ok (.message start) := by
  obtain ⟨t, ht, hconstructs⟩ := hinner
  obtain ⟨hfresh, htype⟩ := fresh_new (hreg _ _ ht).toStoresApart inner.type
  refine ⟨t, _, ht, hfresh, htype, ?_⟩
  unfold newMessage Registry.messageClass
  simp only [hname, hbound]
  exact Registry.instantiate_message ht hconstructs

/-- One value of a field is read back from what is written of it, and written in the same way
again. -/
theorem single_back (hslot : slot.Regular reg) (hnumber : IsNumber slot.tag.number)
    (hv : slot.Types reg v) (hin : slot.kind.isMessage = true → InnerBacked reg write v) :
    ∃ raw, Encode.single write slot v =
        .ok (writeKey slot.tag.number slot.tag.wireType ++ raw) ∧
      (Short raw → ∃ w, EqualTo reg v w ∧ w.isNull = false ∧
        (slot.kind.isMessage = false → v.Alike w) ∧
        (∀ current rest, (slot.kind.isMessage = true → current = .null) →
          single reg (readers reg) slot current (raw ++ rest) = .done w rest) ∧
        ∀ fuel, w.weight ≤ fuel → Encode.single (encodeMessage reg fuel) slot w =
          .ok (writeKey slot.tag.number slot.tag.wireType ++ raw)) := by
  obtain ⟨kind, hkind, hv⟩ := hv
  have hwire := hslot.wire kind hkind
  have hsame := Slot.isMessage_eq hkind
  by_cases hmessage : kind.isMessage = true
  · rw [if_pos hmessage] at hv
    obtain ⟨inner, name, rfl, hname, hbound⟩ := hv
    obtain ⟨hconstructs, hback⟩ := hin (hsame.trans hmessage) inner rfl
    obtain ⟨t, start, ht, hfresh, htype, hnew⟩ := newMessage_eq hreg hname hbound hconstructs
    obtain ⟨raw, hwritten, hback⟩ := message_back write hkind hmessage hwire hnumber ht
      (fun hgroup => hslot.group (hgroup ▸ hkind) name inner.type t hname hbound ht) hfresh htype hback
    refine ⟨raw, hwritten, fun hlen => ?_⟩
    obtain ⟨m', hequal, hread, hagain⟩ := hback hlen
    refine ⟨.message m', hequal, rfl, (fun h => by cases (hsame.trans hmessage).symm.trans h),
      fun current rest hcurrent => ?_, hagain⟩
    rw [hcurrent (hsame.trans hmessage)]
    refine single_of_new (hsame.trans hmessage) hname hnew ?_
    rw [hkind]
    simpa only [SlotKind.known.injEq] using hread rest
  · rw [if_neg hmessage] at hv
    have hscalar : kind.isMessage = false := by simpa using hmessage
    have hplain : slot.kind.isMessage = false := hsame.trans hscalar
    obtain ⟨bs, w, hwritten, halike, hback⟩ := scalar_value hslot.toResolves hkind hv
    refine ⟨bs, single_of_scalar write hkind hscalar (hwritten write), fun hlen =>
      ⟨w, hv.equalTo halike reg, (hv.alike halike).isNull, fun _ => halike,
        fun current rest _ => ?_, fun fuel _ => ?_⟩⟩
    · rw [single_of_isMessage_eq_false hplain, hback hlen]
    · refine single_of_scalar _ hkind hscalar ?_
      rw [Encode.value_of_alike hv halike, hwritten write]

end Single

/-! ## Equal values -/

namespace Equality

section

variable (reg : Registry) (fuel : Nat)

theorem bounded_list (items ws : List Value) :
    bounded reg (fuel + 1) false (.list items) (.list ws) =
      all (bounded reg fuel false) items ws := rfl

theorem bounded_map (entries others : List (Value × Value)) :
    bounded reg (fuel + 1) false (.map entries) (.map others) =
      if entries.length ≠ others.length then .ok false
      else allEntries (bounded reg fuel false) others entries := rfl

theorem bounded_variant {id : ClassId} {vt : VariantType} (h : reg.variantType? id = some vt)
    (stored stored' : String) (held held' : Value) :
    bounded reg (fuel + 1) false (.variant id stored held) (.variant id stored' held') =
      if vt.hides "__eq__" then .error .wrongType
      else vt.slotFault?.elim (bounded reg fuel false held held') .error := by
  have hhides : hidesComparison reg id = vt.hides "__eq__" := by
    unfold hidesComparison
    rw [h]
    rfl
  show (if hidesComparison reg id then _ else if id ≠ id then _ else _) = _
  rw [hhides, if_neg (c := id ≠ id) (by simp)]
  simp only [h]
  cases vt.slotFault? <;> rfl

end

theorem found_eq_true (h : equal v w = .ok true) : found equal v w = .ok true := by
  unfold found
  split
  · rfl
  · exact h

theorem sameItems_eq_true (h : Forall₂ (fun v w => equal v w = .ok true) items ws) :
    sameItems equal items ws = .ok true := by
  induction h with
  | nil => rfl
  | cons hfirst _ ih =>
    unfold sameItems
    rw [found_eq_true hfirst]
    exact ih

end Equality

theorem equalTo_list (h : Forall₂ (EqualTo reg) items ws) :
    EqualTo reg (.list items) (.list ws) := by
  intro fuel hfuel
  obtain ⟨fuel, rfl⟩ : ∃ k, fuel = k + 1 := ⟨fuel - 1, by omega⟩
  rw [weight] at hfuel
  have hitems : Forall₂ (fun v w => Equality.bounded reg fuel false v w = .ok true)
      items ws := by
    have hweights : ∀ v ∈ items, v.weight < fuel := fun v hv => by
      have := Value.weight_le_weightItems hv
      omega
    clear hfuel
    induction h with
    | nil => exact .nil
    | cons hfirst _ ih =>
      exact .cons (hfirst fuel (hweights _ mem_cons_self))
        (ih fun v hv => hweights v (mem_cons_of_mem _ hv))
  rw [Equality.bounded_list]
  unfold Equality.all
  rw [if_neg (by simpa using h.length_eq)]
  exact Equality.sameItems_eq_true hitems

theorem equalTo_of_falsy (hv : kind.Accepts v) (hw : kind.Accepts w) (hv0 : v.truthy = false)
    (hw0 : w.truthy = false) : EqualTo reg v w := by
  have hzero : ∀ {u : Value} {n : Int}, u.asInt = .ok n → u.truthy = false → u.asInt = .ok 0 := by
    intro u n hn h0
    rw [Value.truthy_of_asInt hn] at h0
    have hn0 : n = 0 := by simpa using h0
    rw [hn, hn0]
  have hfloat : ∀ {d e : Double}, d.isNaN = false → e.isNaN = false →
      (Value.float d).truthy = false → (Value.float e).truthy = false →
        EqualTo reg (.float d) (.float e) := by
    intro d e hd he hd0 he0
    have hd0 : d.isZero = true := by simpa [truthy] using hd0
    have he0 : e.isZero = true := by simpa [truthy] using he0
    refine equalTo_of_sameKey rfl rfl (by simp) ?_
    simp [sameKey, Double.equal, hd, he, hd0, he0]
  cases kind with
  | message | group => exact hv.elim
  | double =>
    obtain ⟨d, rfl, hd⟩ := hv
    obtain ⟨e, rfl, he⟩ := hw
    exact hfloat hd he hv0 hw0
  | float =>
    obtain ⟨d, rfl, hd, _⟩ := hv
    obtain ⟨e, rfl, he, _⟩ := hw
    exact hfloat hd he hv0 hw0
  | string =>
    obtain ⟨s, rfl⟩ := hv
    obtain ⟨s', rfl⟩ := hw
    have hs : s = "" := by simpa [truthy] using hv0
    have hs' : s' = "" := by simpa [truthy] using hw0
    subst hs hs'
    exact equalTo_of_sameKey rfl rfl (by simp) rfl
  | bytes =>
    obtain ⟨bs, rfl⟩ := hv
    obtain ⟨bs', rfl⟩ := hw
    have hbs : bs = [] := by simpa [truthy] using hv0
    have hbs' : bs' = [] := by simpa [truthy] using hw0
    subst hbs hbs'
    exact equalTo_of_sameKey rfl rfl (by simp) rfl
  | _ =>
    obtain ⟨n, hn, _⟩ := hv
    obtain ⟨n', hn', _⟩ := hw
    exact equalTo_of_asInt (hzero hn hv0) (hzero hn' hw0)

/-! ## Fields -/

theorem Record.set_set (m : Message) (attr : String) (v w : Value) :
    (m.set attr v).set attr w = m.set attr w := by
  unfold Record.set
  rw [Dictionary.set_set]

theorem Record.set_eq_self {attr : String} (h : m.get? attr = some v) : m.set attr v = m := by
  unfold Record.set
  rw [Dictionary.set_eq_self h]

theorem Record.get?_set_self (m : Message) (attr : String) (v : Value) :
    (m.set attr v).get? attr = some v := by
  rw [Record.get?_set, if_pos (by simp)]

/-- Whether what is written of a part of a message turns the value that its attribute has at first into
a value that equals the one written, and that is written in the same way again. -/
def PartBack (reg : Registry) (t : MessageType) (part : Part) (start v : Value)
    (write : Message → Result Bytes) : Prop :=
  ∃ bs, part.write write v = .ok bs ∧ (bs.length < 18446744073709551616 →
    ∃ w, EqualTo reg v w ∧ (∀ m : Message, m.get? part.attr = some start →
      Merges reg t bs m (m.set part.attr w)) ∧
      ∀ fuel, w.weight ≤ fuel → part.write (encodeMessage reg fuel) w = .ok bs)

/-- Whether data are records of a field that lead, read one after another, from one value of the field
to another one. -/
inductive FieldReads (reg : Registry) (f : Field) : Value → Bytes → Value → Prop
  | nil (v : Value) : FieldReads reg f v [] v
  | record {current v w : Value} {wire : WireType} {raw bs : Bytes} (hwire : wire ≠ .endGroup)
      (h : ∀ rest, field reg (readers reg) f wire.code current (raw ++ rest) = .done v rest)
      (hrest : FieldReads reg f v bs w) :
      FieldReads reg f current (writeKey f.number wire ++ raw ++ bs) w

theorem FieldReads.single (hwire : wire ≠ .endGroup)
    (h : ∀ rest, field reg (readers reg) f wire.code current (raw ++ rest) = .done v rest) :
    FieldReads reg f current (writeKey f.number wire ++ raw) v := by
  have hone := FieldReads.record hwire h (.nil v)
  rwa [append_nil] at hone

theorem FieldReads.append (h : FieldReads reg f start bs v) (h' : FieldReads reg f v raw w) :
    FieldReads reg f start (bs ++ raw) w := by
  induction h with
  | nil v => exact h'
  | record hwire hread _ ih =>
    rw [append_assoc]
    exact .record hwire hread (ih h')

/-- Records that add items one by one add them all. An item may have to be new among those before. -/
theorem FieldReads.flatMap {α β : Type} {build : List β → Value} {raw : α → Bytes} {back : α → β}
    {new : β → α → Prop} : ∀ {items : List α} (acc : List β), (∀ a ∈ items, ∀ acc, (∀ b ∈ acc, new b a) →
      FieldReads reg f (build acc) (raw a) (build (acc ++ [back a]))) →
      (∀ b ∈ acc, ∀ a ∈ items, new b a) → items.Pairwise (fun a a' => new (back a) a') →
        FieldReads reg f (build acc) (items.flatMap raw) (build (acc ++ items.map back))
  | [], acc, _, _, _ => by
    rw [map_nil, append_nil]
    exact .nil _
  | a :: items, acc, h, hnew, hd => by
    obtain ⟨hfirst, hrest⟩ := pairwise_cons.mp hd
    have hmore := FieldReads.flatMap (acc ++ [back a]) (fun a' ha' => h a' (mem_cons_of_mem _ ha'))
      (fun b hb a' ha' => ?_) hrest
    · rw [append_assoc] at hmore
      exact (h a mem_cons_self acc fun b hb => hnew b hb a mem_cons_self).append hmore
    · rcases mem_append.mp hb with hb | hb
      · exact hnew b hb a' (mem_cons_of_mem _ ha')
      · exact mem_singleton.mp hb ▸ hfirst a' ha'

/-- Whether what is written of a field is read as a value that equals the one written, and that is
written in the same way again. -/
def FieldBack (reg : Registry) (f : Field) (start v : Value) (write : Message → Result Bytes) : Prop :=
  ∃ bs, Encode.field write f false v = .ok bs ∧ (bs.length < 18446744073709551616 →
    ∃ w, EqualTo reg v w ∧ FieldReads reg f start bs w ∧
      ∀ fuel, w.weight ≤ fuel → Encode.field (encodeMessage reg fuel) f false w = .ok bs)

theorem fieldBack_nil (h : EqualTo reg v start) (hv : Encode.field write f false v = .ok [])
    (hstart : ∀ write, Encode.field write f false start = .ok []) : FieldBack reg f start v write :=
  ⟨[], hv, fun _ => ⟨start, h, .nil _, fun _ _ => hstart _⟩⟩

section Fields

variable (ht : t.Regular reg)
include ht

theorem merges_field (hf : f ∈ t.fields) {m : Message} (hcurrent : m.get? f.slot.attr = some current)
    (hwire : wire ≠ .endGroup) {raw : Bytes}
    (h : ∀ rest, field reg (readers reg) f wire.code current (raw ++ rest) = .done v rest) :
    Merges reg t (writeKey f.number wire ++ raw) m (m.set f.slot.attr v) := by
  intro inGroup rest
  have hfree := ht.field_attr_free hf
  rw [append_assoc, records_writeKey reg inGroup _ m (ht.number_of_field hf) hwire,
    ht.mergeRecord_field hf]
  unfold mergeField
  rw [Record.own?_eq_get? hfree, hcurrent]
  simp only [h rest, Outcome.map, Record.store_eq_set hfree]

theorem merges_of_reads (hf : f ∈ t.fields) (h : FieldReads reg f current bs v) :
    ∀ m : Message, m.get? f.slot.attr = some current → Merges reg t bs m (m.set f.slot.attr v) := by
  induction h with
  | nil v =>
    intro m hm
    rw [Record.set_eq_self hm]
    exact Merges.nil m
  | @record current v w wire raw bs hwire hread _ ih =>
    intro m hm
    have hmore := ih (m.set f.slot.attr v) (Record.get?_set_self m _ _)
    rw [Record.set_set] at hmore
    exact (merges_field ht hf hm hwire hread).append hmore

theorem FieldBack.part (hf : f ∈ t.fields) (h : FieldBack reg f start v write) :
    PartBack reg t f.part start v write := by
  obtain ⟨bs, hwritten, hback⟩ := h
  refine ⟨bs, hwritten, fun hlen => ?_⟩
  obtain ⟨w, hequal, hreads, hagain⟩ := hback hlen
  exact ⟨w, hequal, merges_of_reads ht hf hreads, hagain⟩

end Fields

theorem Value.Alike.truthy_eq (h : v.Alike w) : w.truthy = v.truthy := by
  rcases h with rfl | ⟨n, hv, hw⟩
  · rfl
  · rw [truthy_of_asInt hv, truthy_of_asInt hw]

/-! ### Lists -/

theorem Slot.Types.accepts (hv : slot.Types reg v) (hplain : slot.kind.isMessage = false) :
    ∃ kind, slot.kind = .known kind ∧ kind.Accepts v := by
  obtain ⟨kind, hkind, hv⟩ := hv
  rw [if_neg (by simp [← Slot.isMessage_eq hkind, hplain])] at hv
  exact ⟨kind, hkind, hv⟩

theorem Slot.Types.isNull (hv : slot.Types reg v) : v.isNull = false := by
  obtain ⟨kind, _, hv⟩ := hv
  split at hv
  · obtain ⟨inner, _, rfl, _⟩ := hv
    rfl
  · exact hv.isNull

theorem unpack_flatMap {read : Decode.Parse Value} {raw : Value → Bytes} {back : Value → Value} :
    ∀ {items : List Value} {fuel : Nat}, (∀ v ∈ items, raw v ≠ [] ∧ ∀ rest,
      read (raw v ++ rest) = .ok (back v, rest)) → (items.flatMap raw).length ≤ fuel →
        unpack read fuel (items.flatMap raw) = (items.map back, none)
  | [], fuel, _, _ => by cases fuel <;> rfl
  | v :: items, fuel, h, hfuel => by
    obtain ⟨hne, hread⟩ := h v mem_cons_self
    obtain ⟨b, bs, hraw⟩ := exists_cons_of_ne_nil hne
    have hfirst := hread (items.flatMap raw)
    rw [flatMap_cons, hraw, cons_append, length_cons, length_append] at hfuel
    rw [hraw, cons_append] at hfirst
    obtain ⟨fuel, rfl⟩ : ∃ k, fuel = k + 1 := ⟨fuel - 1, by omega⟩
    rw [flatMap_cons, hraw, cons_append, unpack, hfirst]
    simp only [unpack_flatMap (fun v hv => h v (mem_cons_of_mem _ hv))
      (show (items.flatMap raw).length ≤ fuel by omega), map_cons]

section Lists

variable (hreg : reg.Regular) (hslot : slot.Regular reg)
  (hitems : ∀ item ∈ items, slot.Types reg item)
include hslot

theorem wireType_ne_endGroup : slot.tag.wireType ≠ .endGroup := by
  obtain ⟨kind, hkind⟩ := hslot.known
  rw [hslot.wire kind hkind]
  cases kind <;> decide

theorem wireType_code_ne_bytes (h : slot.kind.isPackable = true) :
    slot.tag.wireType.code ≠ WireType.bytes.code := by
  obtain ⟨kind, hkind⟩ := hslot.known
  rw [hslot.wire kind hkind]
  rw [hkind] at h
  cases kind with
  | string | bytes | message | group => cases h
  | _ => decide

theorem isMap_eq_false : slot.kind.isMap = false := by
  obtain ⟨kind, hkind⟩ := hslot.known
  rw [hkind]
  rfl

theorem field_of_single (hrepeated : slot.tag.repeated = false) (current : Value) (bs : Bytes) :
    field reg (readers reg) (.plain slot) slot.tag.wireType.code current bs =
      single reg (readers reg) slot current bs := by
  unfold field
  rw [if_neg (by simp [isMap_eq_false hslot]), if_neg (by simp [hrepeated]), if_neg (by simp)]

theorem field_of_optional (hrepeated : slot.tag.repeated = false) (write : Writer) (v : Value) :
    Encode.field write (.plain slot) false v =
      if v.isNull then
        if slot.tag.required then .error (.unencodable (.requiredUnset slot.tag.name)) else .ok []
      else if slot.isImplicit && !v.truthy then .ok []
      else Encode.single write slot v := by
  have himplicit : (slot.tag.proto3 && !false && !slot.kind.isMessage && !v.truthy) =
      (slot.isImplicit && !v.truthy) := by
    rw [Slot.isImplicit, Bool.not_false, Bool.and_true]
  rw [Encode.field, if_neg (by simp [isMap_eq_false hslot]), if_neg (by simp [hrepeated]), himplicit]

include hitems in
theorem unpack_back (write : Writer) (hpack : slot.kind.isPackable = true) :
    ∃ run, each (value write slot.kind) items = .ok run ∧
      (Short run → ∃ ws, Forall₂ (EqualTo reg) items ws ∧
        unpack (fun bs => outcomeParse (single reg (readers reg) slot .null bs)) run.length run =
          (ws, none) ∧
        ∀ write', each (value write' slot.kind) ws = .ok run) := by
  have hplain := isMessage_eq_false_of_isPackable hpack
  obtain ⟨raw, hwritten, hback⟩ := each_back (value write slot.kind)
    (fun item bs => ∃ w, EqualTo reg item w ∧ (bs ≠ [] ∧ ∀ rest,
      outcomeParse (single reg (readers reg) slot .null (bs ++ rest)) = .ok (w, rest)) ∧
      ∀ write', value write' slot.kind w = .ok bs) fun item (hitem : item ∈ items) => by
    obtain ⟨kind, hkind, haccepts⟩ := (hitems item hitem).accepts hplain
    obtain ⟨bs, w, hwritten, halike, hread⟩ := scalar_value hslot.toResolves hkind haccepts
    refine ⟨bs, hkind ▸ hwritten write, fun hlen => ⟨w, haccepts.equalTo halike reg, ⟨?_, ?_⟩, ?_⟩⟩
    · rintro rfl
      exact Nat.lt_irrefl _ (scalar_length_lt (hread hlen []))
    · intro rest
      rw [single_of_isMessage_eq_false hplain, hread hlen rest]
      rfl
    · intro write'
      rw [hkind, Encode.value_of_alike haccepts halike write' write, hwritten]
  refine ⟨_, hwritten, fun hlen => ?_⟩
  choose! back hequal hread hagain using hback hlen
  refine ⟨items.map back, forall₂_map_right_iff.mpr (forall₂_same.mpr hequal),
    unpack_flatMap hread (Nat.le_refl _), fun write' => ?_⟩
  rw [Encode.each_map]
  exact Encode.each_eq_flatMap fun item hitem => hagain item hitem write'

variable (hrepeated : slot.tag.repeated = true)
include hrepeated

theorem field_of_element (h : single reg (readers reg) slot .null (raw ++ rest) = .done w rest) (acc : List Value) :
    field reg (readers reg) (.plain slot) slot.tag.wireType.code (.list acc) (raw ++ rest) =
      .done (.list (acc ++ [w])) rest := by
  have hrun : ¬(slot.tag.wireType.code = WireType.bytes.code && slot.kind.isPackable) = true := by
    intro hboth
    obtain ⟨hcode, hpack⟩ := Bool.and_eq_true_iff.mp hboth
    exact wireType_code_ne_bytes hslot hpack (by simpa using hcode)
  unfold field
  rw [if_neg (by simp [isMap_eq_false hslot]), if_pos hrepeated]
  unfold repeated
  rw [if_neg hrun, if_neg (by simp)]
  exact reading_eq_done.mpr ⟨w, [], outcomeParse_eq_ok.mpr h, rfl⟩

theorem field_of_run (hpack : slot.kind.isPackable = true) (hlen : Short run)
    (hne : run ≠ [] → ws ≠ []) (h : unpack
      (fun bs => outcomeParse (single reg (readers reg) slot .null bs))
      run.length run = (ws, none)) (acc : List Value) (rest : Bytes) :
    field reg (readers reg) (.plain slot) WireType.bytes.code (.list acc)
        (writeRun run ++ rest) = .done (.list (acc ++ ws)) rest := by
  unfold field
  rw [if_neg (by simp [isMap_eq_false hslot]), if_pos hrepeated]
  unfold repeated
  rw [if_pos (by simp [hpack])]
  refine reading_eq_done.mpr ⟨run, [], ofReader_eq_ok.mpr (readRun_writeRun hlen rest), ?_⟩
  cases run with
  | nil =>
    cases h
    rw [append_nil]
    rfl
  | cons b run =>
    simp only [addedRun, appendFault?, appendTo, h]
    unfold added
    rw [if_neg (by simpa using hne (by simp))]
    rfl

theorem field_of_packed (hpacked : slot.tag.packed = true) (hne : items ≠ [])
    (h : each (value write slot.kind) items = .ok run) :
    Encode.field write (.plain slot) false (.list items) =
      .ok (writeKey slot.tag.number .bytes ++ writeRun run) := by
  unfold Encode.field
  rw [if_neg (by simp [isMap_eq_false hslot]), if_pos hrepeated,
    if_neg (by simp [truthy, hne]), if_pos hpacked]
  simp only [Value.items, ok_bind, h, pure_eq_ok]

theorem field_of_elements (hpacked : ¬slot.tag.packed = true) (items : List Value) :
    Encode.field write (.plain slot) false (.list items) =
      each (Encode.single write slot) items := by
  unfold Encode.field
  rw [if_neg (by simp [isMap_eq_false hslot]), if_pos hrepeated, if_neg hpacked]
  cases items with
  | nil => rfl
  | cons first others =>
    rw [if_neg (by simp [truthy])]
    simp only [Value.items, ok_bind]

variable (hnumber : IsNumber slot.tag.number)
  (hin : slot.kind.isMessage = true → ∀ item ∈ items, InnerBacked reg write item)
include hreg hitems hnumber hin

/-- Values that are written one by one are read back one by one, behind those that are there. -/
theorem elements_back :
    ∃ bs, each (Encode.single write slot) items = .ok bs ∧
      (Short bs → ∃ ws, Forall₂ (EqualTo reg) items ws ∧
        FieldReads reg (.plain slot) (.list []) bs (.list ws) ∧
        ∀ fuel, (∀ w ∈ ws, w.weight ≤ fuel) →
          each (Encode.single (encodeMessage reg fuel) slot) ws = .ok bs) := by
  obtain ⟨raw, hwritten, hback⟩ := each_back (Encode.single write slot)
    (fun item bs => ∃ w, EqualTo reg item w ∧
      (∀ acc, (∀ b ∈ acc, True) → FieldReads reg (.plain slot) (.list acc) bs (.list (acc ++ [w]))) ∧
      ∀ fuel, w.weight ≤ fuel → Encode.single (encodeMessage reg fuel) slot w = .ok bs)
    fun item (hitem : item ∈ items) => by
    obtain ⟨raw, hwritten, hback⟩ := single_back hreg write hslot hnumber (hitems item hitem)
      fun h => hin h item hitem
    refine ⟨_, hwritten, fun hlen => ?_⟩
    obtain ⟨w, hequal, _, _, hread, hagain⟩ := hback (Short.right hlen)
    refine ⟨w, hequal, fun acc _ => ?_, hagain⟩
    exact .single (f := .plain slot) (wireType_ne_endGroup hslot) fun rest =>
      field_of_element hslot hrepeated (hread .null rest fun _ => rfl) acc
  refine ⟨_, hwritten, fun hlen => ?_⟩
  choose! back hequal hreads hagain using hback hlen
  refine ⟨items.map back, forall₂_map_right_iff.mpr (forall₂_same.mpr hequal),
    .flatMap [] hreads (fun _ _ _ _ => trivial) (pairwise_of_forall fun _ _ => trivial),
    fun fuel hfuel => ?_⟩
  rw [Encode.each_map]
  exact Encode.each_eq_flatMap fun item hitem =>
    hagain item hitem fuel (hfuel _ (mem_map_of_mem hitem))

/-- A list is written as records that read it back from an empty list. -/
theorem list_reads : FieldBack reg (.plain slot) (.list []) (.list items) write := by
  by_cases hempty : items = []
  · subst hempty
    have hnothing : ∀ write, Encode.field write (.plain slot) false (.list []) = .ok [] := by
      intro write
      unfold Encode.field
      rw [if_neg (by simp [isMap_eq_false hslot]), if_pos hrepeated]
      rfl
    exact fieldBack_nil (equalTo_list .nil) (hnothing write) hnothing
  by_cases hpacked : slot.tag.packed = true
  · have hpack := hslot.packed hpacked
    obtain ⟨run, hwritten, hback⟩ := unpack_back hslot hitems write hpack
    refine ⟨_, field_of_packed hslot hrepeated hpacked hempty hwritten, fun hlen => ?_⟩
    have hshort := (Short.right hlen).of_writeRun
    obtain ⟨ws, hall, hunpack, hagain⟩ := hback hshort
    have hne : ws ≠ [] := by
      rintro rfl
      exact hempty (length_eq_zero_iff.mp hall.length_eq)
    refine ⟨.list ws, equalTo_list hall, ?_, fun fuel _ =>
      field_of_packed hslot hrepeated hpacked hne (hagain _)⟩
    exact .single (f := .plain slot) (by decide) fun rest =>
      field_of_run hslot hrepeated hpack hshort (fun _ => hne) hunpack [] rest
  · obtain ⟨bs, hwritten, hback⟩ := elements_back hreg hslot hitems hrepeated hnumber hin
    refine ⟨bs, (field_of_elements hslot hrepeated hpacked items).trans hwritten, fun hlen => ?_⟩
    obtain ⟨ws, hall, hreads, hagain⟩ := hback hlen
    refine ⟨.list ws, equalTo_list hall, hreads, fun fuel hfuel => ?_⟩
    refine (field_of_elements hslot hrepeated hpacked ws).trans (hagain fuel fun w hw => ?_)
    have := Value.weight_le_weightItems hw
    rw [weight] at hfuel
    omega

end Lists

/-- A single value of a field is read back, or need not be written. -/
theorem optional_back (hreg : reg.Regular) (ht : t.Regular reg)
    (hf : plain slot ∈ t.fields) (hrepeated : slot.tag.repeated = false)
    (hstart : (plain slot).Unset start) (hv : (plain slot).Types reg v)
    (hin : slot.kind.isMessage = true → InnerBacked reg write v) :
    FieldBack reg (plain slot) start v write := by
  have hslot : slot.Regular reg := ht.entries _ hf
  have hnot : ¬slot.tag.repeated = true := by simp [hrepeated]
  simp only [Unset, if_neg hnot] at hstart
  simp only [Types, if_neg hnot] at hv
  have hfield := field_of_optional hslot hrepeated
  rcases hv with ⟨rfl, hrequired, himplicit⟩ | hv
  · have hnothing : ∀ write, Encode.field write (plain slot) false .null = .ok [] := by
      intro write
      rw [hfield, if_pos (by rfl), if_neg (by simp [hrequired])]
    rw [if_neg (by simp [himplicit])] at hstart
    subst hstart
    exact fieldBack_nil (equalTo_null reg) (hnothing write) hnothing
  · by_cases hskip : (slot.isImplicit && !v.truthy) = true
    · -- Nothing is written for zero, and a fresh message has zero there.
      obtain ⟨himplicit, hfalsy⟩ := Bool.and_eq_true_iff.mp hskip
      have hfalsy : v.truthy = false := by simpa using hfalsy
      have hplain := Slot.isMessage_of_isImplicit himplicit
      rw [if_pos himplicit] at hstart
      obtain ⟨kind, hkind, haccepts, hstartFalsy⟩ := hstart
      have hnull := hv.isNull
      obtain ⟨kind', hkind', hv⟩ := hv.accepts hplain
      cases hkind.symm.trans hkind'
      refine fieldBack_nil (equalTo_of_falsy hv haccepts hfalsy hstartFalsy) ?_ fun write => ?_
      · rw [hfield, if_neg (by simp [hnull]), if_pos hskip]
      · rw [hfield, if_neg (by simp [haccepts.isNull]), if_pos (by simp [himplicit, hstartFalsy])]
    · obtain ⟨raw, hwritten, hback⟩ := single_back hreg write hslot (ht.number_of_field hf) hv hin
      refine ⟨writeKey slot.tag.number slot.tag.wireType ++ raw, ?_, fun hlen => ?_⟩
      · rw [hfield, if_neg (by simp [hv.isNull]), if_neg hskip, hwritten]
      obtain ⟨w, hequal, hnull, halike, hread, hagain⟩ := hback (Short.right hlen)
      refine ⟨w, hequal, ?_, fun fuel hfuel => ?_⟩
      · refine .single (f := plain slot) (wireType_ne_endGroup hslot) fun rest => ?_
        refine (field_of_single hslot hrepeated start _).trans (hread start rest fun hmessage => ?_)
        rwa [if_neg (by simp [Slot.isImplicit, hmessage])] at hstart
      · have hskip' : ¬(slot.isImplicit && !w.truthy) = true := by
          intro hboth
          obtain ⟨himplicit, hfalsy⟩ := Bool.and_eq_true_iff.mp hboth
          rw [(halike (Slot.isMessage_of_isImplicit himplicit)).truthy_eq] at hfalsy
          exact hskip (by rw [himplicit, hfalsy]; rfl)
        rw [hfield, if_neg (by simp [hnull]), if_neg hskip', hagain fuel hfuel]

/-! ### Maps -/

namespace Value

theorem Alike.sameKey_eq (h : v.Alike w) (x : Value) :
    sameKey w x = sameKey v x ∧ sameKey x w = sameKey x v := by
  rcases h with rfl | ⟨n, hv, hw⟩
  · exact ⟨rfl, rfl⟩
  · rcases cases_of_asInt hv with rfl | ⟨b, rfl, rfl⟩ | ⟨id, rfl⟩ <;>
      rcases cases_of_asInt hw with rfl | ⟨c, rfl, hn⟩ | ⟨id', rfl⟩ <;> cases x <;>
      simp_all [sameKey, asInt]

theorem setEntry_of_new {key : Value} (h : ∀ e ∈ entries, sameKey e.1 key = false) (v : Value) :
    setEntry key v entries = entries ++ [(key, v)] := by
  induction entries with
  | nil => rfl
  | cons e entries ih =>
    unfold setEntry
    rw [if_neg (by simp [h e mem_cons_self]), ih fun e' he => h e' (mem_cons_of_mem _ he)]
    rfl

end Value

/-- Whether one entry of a dictionary may come back in the place of another one. -/
def EntryBack (reg : Registry) (e e' : Value × Value) : Prop :=
  e.1.Alike e'.1 ∧ EqualTo reg e.2 e'.2

theorem valueOf?_of_entriesBack (h : Forall₂ (EntryBack reg) entries others)
    (hd : DistinctKeys entries) {e : Value × Value} (he : e ∈ entries)
    (hself : sameKey e.1 e.1 = true) :
    ∃ w, Value.valueOf? e.1 others = some w ∧ EqualTo reg e.2 w := by
  induction h with
  | nil => cases he
  | @cons first first' rest others hback _ ih =>
    obtain ⟨hfirst, hrest⟩ := pairwise_cons.mp hd
    unfold Value.valueOf?
    rcases mem_cons.mp he with rfl | he
    · rw [(hback.1.sameKey_eq _).1, if_pos hself]
      exact ⟨_, rfl, hback.2⟩
    · rw [(hback.1.sameKey_eq _).1, if_neg (by simp [hfirst e he])]
      exact ih hrest he

theorem equalTo_map (h : Forall₂ (EntryBack reg) entries others) (hd : DistinctKeys entries)
    (hself : ∀ e ∈ entries, sameKey e.1 e.1 = true) :
    EqualTo reg (.map entries) (.map others) := by
  intro fuel hfuel
  obtain ⟨fuel, rfl⟩ : ∃ k, fuel = k + 1 := ⟨fuel - 1, by omega⟩
  rw [weight] at hfuel
  have hall : ∀ some, (∀ e ∈ some, e ∈ entries) →
      Equality.allEntries (Equality.bounded reg fuel false) others some = .ok true := by
    intro some hsome
    induction some with
    | nil => rfl
    | cons e some ih =>
      have he := hsome e mem_cons_self
      obtain ⟨w, hw, hequal⟩ := valueOf?_of_entriesBack h hd he (hself e he)
      have hweight := (Value.weight_le_weightEntries he).2
      unfold Equality.allEntries
      rw [hw]
      simp only [Equality.found_eq_true (hequal fuel (by omega)), ok_bind, if_true]
      exact ih fun e' he' => hsome e' (mem_cons_of_mem _ he')
  rw [Equality.bounded_map, if_neg (by simpa using h.length_eq)]
  exact hall entries fun _ h => h

section Entries

variable (hreg : reg.Regular) (ht : t.Regular reg)

theorem Decode.entry_nil (readKey readValue : Nat → Parse Value) (fuel : Nat)
    (k v : Value) : entry readKey readValue fuel k v [] = .ok (k, v) := by
  cases fuel <;> rfl

theorem WireType.code_lt (wire : WireType) : wire.code < 8 := by
  cases wire <;> decide

theorem Decode.entry_writeKey {number : Int} (hnumber : number = 1 ∨ number = 2) (wire : WireType)
    (readKey readValue : Nat → Parse Value) (fuel : Nat) (k v : Value) (rest : Bytes) :
    entry readKey readValue (fuel + 1) k v (writeKey number wire ++ rest) =
      if number = 1 then readKey wire.code rest >>= fun p => entry readKey readValue fuel p.1 v p.2
      else readValue wire.code rest >>= fun p => entry readKey readValue fuel k p.1 p.2 := by
  have hread := read_writeKey (show FitsKey number by omega) wire rest
  have hcode := wire.code_lt
  have hwire : (number.toNat * 8 + wire.code) % 8 = wire.code := by omega
  obtain ⟨b, bs, hbs⟩ := exists_cons_of_ne_nil (l := writeKey number wire ++ rest) fun h => by
    rw [h] at hread
    cases hread
  rw [hbs] at hread ⊢
  rw [entry, ofReader_eq_ok.mpr hread, ok_bind]
  simp only [hwire]
  rcases hnumber with rfl | rfl
  · rw [if_pos (by omega), if_pos rfl]
  · rw [if_neg (by omega), if_pos (by omega), if_neg (by decide)]

theorem field_always (hslot : slot.Regular reg) (hrepeated : slot.tag.repeated = false)
    (hv : v.isNull = false) :
    Encode.field write (.plain slot) true v = Encode.single write slot v := by
  unfold Encode.field
  rw [if_neg (by simp [isMap_eq_false hslot]), if_neg (by simp [hrepeated]),
    if_neg (by simp [hv]), if_neg (by simp)]

/-- Reads the key or the value of an entry of a map. -/
abbrev part (reg : Registry) (slot : Slot) (wire : Nat) : Decode.Parse Value := fun bs =>
  outcomeParse (field reg (readers reg) (.plain slot) wire .null bs)

theorem part_of_single (hslot : slot.Regular reg) (honce : slot.tag.repeated = false)
    (h : single reg (readers reg) slot .null bs = .done v rest) :
    part reg slot slot.tag.wireType.code bs = .ok (v, rest) :=
  outcomeParse_eq_ok.mpr ((field_of_single hslot honce _ _).trans h)

theorem entry_back (hkey : key.Regular reg) (honce : key.tag.repeated = false)
    (hone : key.tag.number = 1) (hval : val.Regular reg) (hvalOnce : val.tag.repeated = false)
    (htwo : val.tag.number = 2) {rawKey rawVal : Bytes}
    (hreadKey : ∀ rest, single reg (readers reg) key .null (rawKey ++ rest) = .done k rest)
    (hreadVal : ∀ rest, single reg (readers reg) val .null (rawVal ++ rest) = .done v rest)
    (hrun : run = writeKey key.tag.number key.tag.wireType ++
      (rawKey ++ (writeKey val.tag.number val.tag.wireType ++ rawVal))) :
    entry (part reg key) (part reg val) run.length .null .null run = .ok (k, v) := by
  have hpart {slot : Slot} (wire : Nat) (bs : Bytes) (v : Value) (rest : Bytes)
      (h : part reg slot wire bs = .ok (v, rest)) : rest.length ≤ bs.length :=
    field_length_le (local_readers reg) (outcomeParse_eq_ok.mp h)
  have hlast := hreadVal []
  rw [append_nil] at hlast
  rw [entry_congr hpart hpart (fun _ _ _ => rfl) (fun _ _ _ => rfl) run.length (run.length + 2) _
    (Nat.le_refl _) (by omega) (Nat.le_refl _), hrun, hone, htwo, entry_writeKey (.inl rfl), if_pos rfl,
    part_of_single hkey honce (hreadKey _), ok_bind, entry_writeKey (.inr rfl), if_neg (by decide),
    part_of_single hval hvalOnce hlast, ok_bind, entry_nil]

theorem field_of_entry (hlen : Short run)
    (hentry : entry (part reg key) (part reg val) run.length .null .null run = .ok (k, v))
    (hk : k.isNull = false) (hkey : k.isKey = true) (hv : v.isNull = false) (acc : List (Value × Value)) (rest : Bytes) :
    field reg (readers reg) (.map slot (.plain key) (.plain val)) WireType.bytes.code
        (.map acc) (writeRun run ++ rest) = .done (.map (setEntry k v acc)) rest := by
  have hadd : addEntry (.map acc) k v = .ok (.map (setEntry k v acc)) := by
    unfold addEntry Value.setPart
    exact if_pos hkey
  have hread : mapEntry reg (readers reg) (.plain key) (.plain val) (.map acc) run =
      .ok (.map (setEntry k v acc)) := by
    unfold mapEntry readEntry orZero
    rw [hentry, ok_bind, if_neg (by simp [hk]), ok_bind, if_neg (by simp [hv]), ok_bind, hadd]
  rw [field_map_eq, if_neg (by simp), reading, ofReader_eq_ok.mpr (readRun_writeRun hlen rest)]
  simp only [hread, ofResult, withRest]

include hreg ht

/-- One entry of a map is read back behind those that are there, if its key is new. -/
theorem record_back (hf : map slot (.plain key) (.plain val) ∈ t.fields) (hk : key.Types reg k)
    (hv : val.Types reg v) (hin : val.kind.isMessage = true → InnerBacked reg write v) :
    ∃ bs, mapRecord write slot (.plain key) (.plain val) (k, v) = .ok bs ∧
      (Short bs → ∃ e, EntryBack reg (k, v) e ∧
        (∀ acc, (∀ a ∈ acc, sameKey a.1 k = false) →
          FieldReads reg (map slot (.plain key) (.plain val)) (.map acc) bs (.map (acc ++ [e]))) ∧
        ∀ fuel, e.1.weight ≤ fuel ∧ e.2.weight ≤ fuel →
          mapRecord (encodeMessage reg fuel) slot (.plain key) (.plain val) e = .ok bs) := by
  obtain ⟨hkey, hplain, honce, hone, hval, hvalOnce, htwo⟩ := ht.entries _ hf
  obtain ⟨rawKey, hwrittenKey, hbackKey⟩ := single_back hreg write hkey
    (by rw [hone]; decide) hk fun h => by rw [hplain] at h; cases h
  obtain ⟨rawVal, hwrittenVal, hbackVal⟩ := single_back hreg write hval (by rw [htwo]; decide) hv hin
  obtain ⟨run, hrunEq⟩ : ∃ run, run = writeKey key.tag.number key.tag.wireType ++ rawKey ++
    (writeKey val.tag.number val.tag.wireType ++ rawVal) := ⟨_, rfl⟩
  have hmapRecord : ∀ {write k v}, k.isNull = false → v.isNull = false →
      Encode.single write key k = .ok (writeKey key.tag.number key.tag.wireType ++ rawKey) →
      Encode.single write val v = .ok (writeKey val.tag.number val.tag.wireType ++ rawVal) →
      mapRecord write slot (.plain key) (.plain val) (k, v) =
        .ok (writeKey slot.tag.number .bytes ++ writeRun run) := by
    intro write k v hk hv hwrittenKey hwrittenVal
    unfold mapRecord
    rw [field_always hkey honce hk, field_always hval hvalOnce hv, hwrittenKey, ok_bind,
      hwrittenVal, hrunEq]
    rfl
  refine ⟨_, hmapRecord hk.isNull hv.isNull hwrittenKey hwrittenVal, fun hlen => ?_⟩
  have hrun := hlen.right.of_writeRun
  have hparts := hrunEq ▸ hrun
  obtain ⟨wk, _, hwkNull, halike, hreadKey, hagainKey⟩ := hbackKey hparts.left.right
  obtain ⟨w, hequal, hwNull, _, hreadVal, hagainVal⟩ := hbackVal hparts.right.right
  have hwk := halike hplain
  refine ⟨(wk, w), ⟨hwk, hequal⟩, fun acc hacc => ?_, fun fuel hfuel =>
    hmapRecord hwkNull hwNull (hagainKey fuel hfuel.1) (hagainVal fuel hfuel.2)⟩
  have hentry := entry_back hkey honce hone hval hvalOnce htwo
    (fun rest => hreadKey .null rest fun _ => rfl) (fun rest => hreadVal .null rest fun _ => rfl)
    (hrunEq.trans (append_assoc _ _ _))
  have hwkKey : wk.isKey = true := by
    obtain ⟨kind, -, hk⟩ := hk.accepts hplain
    exact (hk.alike hwk).isKey
  refine .single (f := map slot (.plain key) (.plain val)) (by decide) fun rest => ?_
  rw [← Value.setEntry_of_new (fun a ha => (hwk.sameKey_eq a.1).2.trans (hacc a ha)) w]
  exact field_of_entry hrun hentry hwkNull hwkKey hwNull acc rest

end Entries

section FieldBack

variable (hreg : reg.Regular) (ht : t.Regular reg) (write : Writer)

theorem Value.entries_map (entries : List (Value × Value)) :
    (Value.map entries).entries = .ok entries := by
  cases entries <;> rfl

include hreg ht

theorem map_back (hf : map slot (.plain key) (.plain val) ∈ t.fields)
    (hv : (map slot (.plain key) (.plain val)).Types reg v)
    (hin : val.kind.isMessage = true → ∀ entries, v = .map entries → ∀ e ∈ entries, InnerBacked reg write e.2) :
    FieldBack reg (map slot (.plain key) (.plain val)) (.map []) v write := by
  obtain ⟨entries, rfl, hd, htypes⟩ := hv
  have hself : ∀ e ∈ entries, sameKey e.1 e.1 = true := by
    intro e he
    obtain ⟨_, hplain, _⟩ := ht.entries _ hf
    obtain ⟨kind, -, hk⟩ := (htypes e.1 e.2 he).1.accepts hplain
    exact hk.sameKey_self
  have hfield : ∀ write entries, Encode.field write (.map slot (.plain key) (.plain val)) false
      (.map entries) = each (mapRecord write slot (.plain key) (.plain val)) entries := by
    intro write entries
    rw [Encode.field_map_eq, Value.entries_map, ok_bind]
  obtain ⟨raw, hwritten, hback⟩ := each_back _ _ fun e (he : e ∈ entries) =>
    record_back hreg ht hf (htypes e.1 e.2 he).1 (htypes e.1 e.2 he).2 fun h => hin h entries rfl e he
  refine ⟨_, (hfield write entries).trans hwritten, fun hlen => ?_⟩
  have : Nonempty (Value × Value) := ⟨(.null, .null)⟩
  choose! back hboth hreads hagain using hback hlen
  refine ⟨.map (entries.map back),
    equalTo_map (forall₂_map_right_iff.mpr (forall₂_same.mpr hboth)) hd hself,
    .flatMap [] hreads (forall_mem_nil _) ?_, fun fuel hfuel => ?_⟩
  · refine hd.imp_of_mem fun {e e'} he _ hne => ?_
    exact ((hboth e he).1.sameKey_eq e'.1).1.trans hne
  · rw [hfield, Encode.each_map]
    refine Encode.each_eq_flatMap fun e he => hagain e he fuel ?_
    have := Value.weight_le_weightEntries (mem_map_of_mem (f := back) he)
    rw [weight] at hfuel
    omega

/-- What is written of a field is read back, if the messages inside are. -/
theorem field_back (hf : f ∈ t.fields) (hstart : f.Unset start) (hv : f.Types reg v)
    (hin : ∀ inner, f.Holds v inner → reg.Constructs inner ∧ Backed reg write inner) :
    PartBack reg t f.part start v write := by
  refine FieldBack.part ht hf ?_
  cases f with
  | plain slot =>
    by_cases hrepeated : slot.tag.repeated = true
    · simp only [Unset, if_pos hrepeated] at hstart
      simp only [Types, if_pos hrepeated] at hv
      obtain ⟨items, rfl, hitems⟩ := hv
      rw [hstart]
      refine list_reads hreg (ht.entries _ hf) hitems hrepeated (ht.number_of_field hf)
        fun hmessage item hitem inner heq => ?_
      refine hin inner ⟨hmessage, ?_⟩
      rw [if_pos hrepeated]
      exact ⟨items, rfl, heq ▸ hitem⟩
    · have hsingle : slot.tag.repeated = false := by simpa using hrepeated
      refine optional_back hreg ht hf hsingle hstart hv fun hmessage inner heq => ?_
      refine hin inner ⟨hmessage, ?_⟩
      rw [if_neg hrepeated]
      exact heq
  | map slot key val =>
    obtain ⟨key, val, rfl, rfl⟩ := (ht.entries _ hf).map_plain
    have hvalOnce : val.tag.repeated = false := (ht.entries _ hf).2.2.2.2.2.1
    rw [show start = .map [] from hstart]
    refine map_back hreg ht write hf hv fun hmessage entries hentries e he inner heq => ?_
    refine hin inner ⟨entries, e.1, e.2, ?_, he, .inr ⟨hmessage, ?_⟩⟩
    · rw [hentries, Value.entries_map]
    · rw [if_neg (by simp [hvalOnce])]
      exact heq

end FieldBack

end Protobind

import Protobind.Proofs.RoundTrip

/-!
# Canonical encodings

Reading some data and writing the message gives data that reads back as an equal message and is
written as the same data again (`decoded_canonical`). The message is well-typed, and only a required
field that the data left out keeps it from being written.
-/

namespace Protobind

open List Kind

variable {reg : Registry} {slot : Slot} {v x : Value} {fault : Fault} {f : Field}
  {inner m : Message} {t : MessageType} {write : Writer}

/-! ## Numbers -/

/-- Whether no number inside a value is a NaN. -/
def Registry.NaNFree (reg : Registry) (v : Value) : Prop :=
  ∀ d, reg.Inside (.float d) v → d.isNaN = false

namespace Registry.NaNFree

theorem number (h : reg.NaNFree v) : ∀ d, v = .float d → d.isNaN = false := by
  rintro d rfl
  exact h d .self

theorem item {items : List Value} (h : reg.NaNFree (.list items)) (hx : x ∈ items) :
    reg.NaNFree x := fun d hd => h d (.item hx hd)

theorem entry {entries : List (Value × Value)} (h : reg.NaNFree (.map entries)) {k : Value}
    (hx : (k, x) ∈ entries) : reg.NaNFree k ∧ reg.NaNFree x :=
  ⟨fun d hd => h d (.key hx hd), fun d hd => h d (.entry hx hd)⟩

theorem held {id : ClassId} {stored : String} (h : reg.NaNFree (.variant id stored x)) :
    reg.NaNFree x := fun d hd => h d (.held hd)

theorem attr (h : reg.NaNFree (.message m)) (ht : m.HasType reg t) {attr : String}
    (hattr : attr ∈ t.codecAttrs) (hx : m.get? attr = some x) :
    reg.NaNFree x := fun d hd => h d (.attr ht hattr hx hd)

end Registry.NaNFree

theorem Registry.Inside.trans {u w : Value} (h : reg.Inside u v) (h' : reg.Inside v w) : reg.Inside u w := by
  induction h' with
  | self => exact h
  | item hmem _ ih => exact .item hmem ih
  | key hmem _ ih => exact .key hmem ih
  | entry hmem _ ih => exact .entry hmem ih
  | held _ ih => exact .held ih
  | attr ht hattr hget _ ih => exact .attr ht hattr hget ih

theorem Slot.Takes.accepts (h : slot.Takes reg Reads v) (hv : reg.NaNFree v) :
    slot.Takes reg Accepts v := by
  obtain ⟨kind, hkind, h⟩ := h
  refine ⟨kind, hkind, ?_⟩
  split at h
  · rename_i hmessage
    rw [if_pos hmessage]
    exact h
  · rename_i hmessage
    rw [if_neg hmessage]
    exact h hv.number

theorem Field.Takes.accepts (h : f.Takes reg Reads v) (hv : reg.NaNFree v) :
    f.Takes reg Accepts v := by
  cases f with
  | plain slot =>
    simp only [Field.Takes] at h ⊢
    split at h
    · rename_i hrepeated
      rw [if_pos hrepeated]
      obtain ⟨items, rfl, hitems⟩ := h
      exact ⟨items, rfl, fun item hitem => (hitems item hitem).accepts (hv.item hitem)⟩
    · rename_i hrepeated
      rw [if_neg hrepeated]
      exact h.imp_right fun h => h.accepts hv
  | map slot key val =>
    obtain ⟨entries, rfl, hdistinct, hentries⟩ := h
    refine ⟨entries, rfl, hdistinct, fun k item hmem => ?_⟩
    obtain ⟨hk, hitem⟩ := hentries k item hmem
    exact ⟨hk.accepts (hv.entry hmem).1, hitem.accepts (hv.entry hmem).2⟩

theorem OneofSlot.Takes.accepts {group : OneofSlot} (h : group.Takes reg Reads v) (hv : reg.NaNFree v) :
    group.Takes reg Accepts v := by
  obtain ⟨member, hmember, id, vt, held, hvariant, hvt, rfl, hfault, hheld⟩ := h
  refine ⟨member, hmember, id, vt, held, hvariant, hvt, rfl, hfault, ?_⟩
  unfold VariantMember.Takes at hheld ⊢
  split at hheld
  · rename_i hmessage
    rw [if_pos hmessage]
    exact hheld
  · rename_i hmessage
    rw [if_neg hmessage]
    exact hheld hv.held.number

/-- What is read without a NaN is in the ranges of its kinds. -/
theorem Value.Filled.accepts (h : v.Filled reg Reads) (hv : reg.NaNFree v) :
    v.Filled reg Accepts := by
  intro m hin
  obtain ⟨t, ht, htakes⟩ := h m hin
  have hm : reg.NaNFree (.message m) := fun d hd => hv d (hd.trans hin)
  refine ⟨t, ht, { htakes with fields := fun f hf x hx => ?_, oneofs := fun group hgroup x hx => ?_ }⟩
  · exact (htakes.fields f hf x hx).accepts (hm.attr ht (mem_append_left _ (mem_map_of_mem hf)) hx)
  · exact (htakes.oneofs group hgroup x hx).imp_right fun h => h.accepts
      (hm.attr ht (mem_append_right _ (mem_map_of_mem hgroup)) hx)

/-! ## Messages inside -/

theorem Field.Takes.inside (hf : f.Regular reg) (hv : f.Takes reg Accepts v)
    (h : f.Holds v inner) : reg.Inside (.message inner) v := by
  rcases hv.holds_cases hf h with rfl | ⟨items, rfl, hmem⟩ | ⟨entries, k, rfl, hmem⟩
  · exact .self
  · exact .item hmem .self
  · exact .entry hmem .self

/-! ## Required fields -/

/-- Whether a required field of a message is unset. -/
def Registry.Lacks (reg : Registry) (m : Message) (name : String) : Prop :=
  ∃ t slot, reg.messageType? m.type = some t ∧ .plain slot ∈ t.fields ∧ slot.tag.repeated = false ∧
    slot.tag.required = true ∧ slot.tag.name = name ∧ m.get? slot.attr = some .null

namespace Encode

theorem field_null (hslot : slot.Regular reg) (honce : slot.tag.repeated = false) (always : Bool) :
    field write (.plain slot) always .null =
      if slot.tag.required then .error (.unencodable (.requiredUnset slot.tag.name)) else .ok [] := by
  unfold field
  rw [if_neg (by simp [isMap_eq_false hslot]), if_neg (by simp [honce]),
    if_pos (show Value.null.isNull = true from rfl)]

theorem each_eq_error {α : Type} {part : α → Result Bytes} {parts : List α}
    (h : each part parts = .error fault) : ∃ a ∈ parts, part a = .error fault := by
  induction parts with
  | nil => cases h
  | cons a parts ih =>
    rw [each] at h
    cases ha : part a with
    | error fault' =>
      rw [ha] at h
      cases h
      exact ⟨a, mem_cons_self, ha⟩
    | ok head =>
      rw [ha, ok_bind] at h
      cases htail : each part parts with
      | error fault' =>
        rw [htail] at h
        cases h
        obtain ⟨b, hb, hfault⟩ := ih htail
        exact ⟨b, mem_cons_of_mem a hb, hfault⟩
      | ok tail =>
        rw [htail] at h
        cases h

theorem message_eq_error (hmessage : slot.kind.isMessage = true)
    (h : single write slot (.message inner) = .error fault) : write inner = .error fault := by
  obtain hkind | hkind : slot.kind = .known .message ∨ slot.kind = .known .group := by
    cases hkind : slot.kind with
    | other _ => rw [hkind] at hmessage; cases hmessage
    | known kind => cases kind <;> simp_all [SlotKind.isMessage, isMessage]
  · cases hwrite : write inner with
    | error _ => simpa [single, value, body, hkind, hwrite, bind, Except.bind] using h
    | ok bs => simp [single, value, body, hkind, hwrite, bind, Except.bind, pure, Except.pure] at h
  · cases hwrite : write inner with
    | error _ => simpa [single, body, hkind, hwrite, bind, Except.bind] using h
    | ok bs => simp [single, body, hkind, hwrite, bind, Except.bind, pure, Except.pure] at h

theorem single_eq_error (hslot : slot.Resolves reg) (hv : slot.Takes reg Accepts v)
    (h : single write slot v = .error fault) :
    slot.kind.isMessage = true ∧ ∃ inner, v = .message inner ∧ write inner = .error fault := by
  obtain ⟨kind, hkind, hv⟩ := hv
  split at hv
  · rename_i hmessage
    obtain ⟨inner, _, rfl, _⟩ := hv
    have hmessage : slot.kind.isMessage = true := hkind ▸ hmessage
    exact ⟨hmessage, inner, rfl, message_eq_error hmessage h⟩
  · rename_i hmessage
    obtain ⟨bs, _, hwritten, _⟩ := scalar_value hslot hkind hv
    unfold single at h
    rw [hkind, if_neg (by rintro ⟨⟩; exact hmessage rfl), hwritten] at h
    cases h

/-- A field that is not written is required and unset, or holds a message that is not written. -/
theorem field_eq_error (hf : f.Regular reg) (hv : f.Takes reg Accepts v)
    (h : field write f false v = .error fault) :
    (∃ slot, f = .plain slot ∧ slot.tag.repeated = false ∧ slot.tag.required = true ∧ v = .null ∧
        fault = .unencodable (.requiredUnset slot.tag.name)) ∨
      ∃ inner, f.Holds v inner ∧ write inner = .error fault := by
  cases f with
  | plain slot =>
    simp only [Field.Takes] at hv
    cases hrepeated : slot.tag.repeated with
    | true =>
      rw [if_pos hrepeated] at hv
      obtain ⟨items, rfl, hitems⟩ := hv
      unfold field at h
      rw [if_neg (by simp [isMap_eq_false hf]), if_pos hrepeated] at h
      split at h
      · cases h
      split at h
      · rename_i hpacked
        obtain ⟨kind, hkind⟩ := hf.known
        have hplain := Decode.isMessage_eq_false_of_isPackable (hf.packed hpacked)
        cases heach : each (value write slot.kind) items with
        | error fault' =>
          obtain ⟨item, hitem, hfault⟩ := each_eq_error heach
          obtain ⟨kind', hkind', haccepts⟩ := hitems item hitem
          cases hkind.symm.trans hkind'
          rw [hkind] at hplain hfault
          rw [if_neg (by rw [show kind.isMessage = false from hplain]; simp)] at haccepts
          obtain ⟨bs, _, hwritten, _⟩ := scalar_value hf.toResolves hkind haccepts
          rw [hwritten] at hfault
          cases hfault
        | ok bs =>
          simp only [Value.items, ok_bind, heach] at h
          cases h
      · obtain ⟨item, hitem, hfault⟩ := each_eq_error (show each (single write slot) items = _ from h)
        obtain ⟨hmessage, inner, rfl, hinner⟩ := single_eq_error hf.toResolves (hitems item hitem) hfault
        exact .inr ⟨inner, ⟨hmessage, by rw [if_pos hrepeated]; exact ⟨items, rfl, hitem⟩⟩, hinner⟩
    | false =>
      rw [if_neg (by simp [hrepeated])] at hv
      rcases hv with ⟨rfl, _⟩ | hv
      · rw [field_null hf hrepeated] at h
        split at h
        · rename_i hrequired
          cases h
          exact .inl ⟨slot, rfl, hrepeated, hrequired, rfl, rfl⟩
        · cases h
      · unfold field at h
        rw [if_neg (by simp [isMap_eq_false hf]), if_neg (by simp [hrepeated]),
          if_neg (by simp [Slot.Types.isNull hv])] at h
        split at h
        · cases h
        · obtain ⟨hmessage, inner, rfl, hinner⟩ := single_eq_error hf.toResolves hv h
          exact .inr ⟨inner, ⟨hmessage, by rw [if_neg (by simp [hrepeated])]⟩, hinner⟩
  | map slot key val =>
    obtain ⟨entries, rfl, _, hentries⟩ := hv
    obtain ⟨key, val, rfl, rfl⟩ := hf.map_plain
    obtain ⟨hkey, hplain, hkeyOnce, _, hval, hvalOnce, _⟩ := hf
    rw [field_map_eq, Value.entries_map, ok_bind] at h
    obtain ⟨⟨k, item⟩, hmem, h⟩ := each_eq_error h
    obtain ⟨hk, hitem⟩ := hentries k item hmem
    unfold mapRecord at h
    rw [field_always hkey hkeyOnce (Slot.Types.isNull hk),
      field_always hval hvalOnce (Slot.Types.isNull hitem)] at h
    cases hrawKey : single write key k with
    | error fault' =>
      obtain ⟨hmessage, _⟩ := single_eq_error hkey.toResolves hk hrawKey
      rw [hplain] at hmessage
      cases hmessage
    | ok rawKey =>
      rw [hrawKey, ok_bind] at h
      cases hrawVal : single write val item with
      | error fault' =>
        rw [hrawVal] at h
        cases h
        obtain ⟨hmessage, inner, rfl, hinner⟩ := single_eq_error hval.toResolves hitem hrawVal
        refine .inr ⟨inner, ⟨entries, k, _, Value.entries_map _, hmem, .inr ⟨hmessage, ?_⟩⟩, hinner⟩
        rw [if_neg (by simp [hvalOnce])]
      | ok rawVal =>
        rw [hrawVal] at h
        cases h

end Encode

section Written

variable (hreg : reg.Regular) (hm : (Value.message m).Filled reg Accepts)
include hreg hm

theorem filled_of_writes (h : reg.Writes m inner) : (Value.message inner).Filled reg Accepts := by
  obtain ⟨t, ht, htakes⟩ := hm m .self
  have hclass := hreg _ _ ht
  suffices hin : reg.Inside (.message inner) (.message m) from
    fun deeper hdeeper => hm deeper (hdeeper.trans hin)
  rcases cases_of_writes hclass htakes.oneofs ht (htakes.clear hclass.toStoresApart) h with
    ⟨f, hf, v, hv, hholds⟩ | ⟨group, hgroup, id, stored, hv⟩
  · exact .attr ht (mem_append_left _ (mem_map_of_mem hf)) hv
      ((htakes.fields f hf v hv).inside (hclass.entries f hf) hholds)
  · exact .attr ht (mem_append_right _ (mem_map_of_mem hgroup)) hv (.held .self)

omit hreg in
theorem kept_of_filled (h : ∀ name, ¬reg.Lacks m name) : reg.Kept m := by
  obtain ⟨t, ht, htakes⟩ := hm m .self
  refine ⟨t, ht, { htakes with fields := fun f hf v hv => ?_ }⟩
  have htaken := htakes.fields f hf v hv
  cases f with
  | map slot key val => exact htaken
  | plain slot =>
    simp only [Field.Takes, Field.Types] at htaken ⊢
    split at htaken
    · rename_i hrepeated
      rw [if_pos hrepeated]
      exact htaken
    · rename_i hrepeated
      rw [if_neg hrepeated]
      refine htaken.imp_left fun hnull => ⟨hnull.1, ?_, hnull.2⟩
      obtain ⟨rfl, _⟩ := hnull
      by_contra hrequired
      exact h _ ⟨t, slot, ht, hf, by simpa using hrepeated, by simpa using hrequired, rfl, hv⟩

theorem kept_of_written (h : ∃ fuel bs, encodeMessage reg fuel m = .ok bs) :
    reg.Kept m ∧ ∀ inner, reg.Writes m inner → ∃ fuel bs, encodeMessage reg fuel inner = .ok bs := by
  obtain ⟨fuel, bs, h⟩ := h
  obtain ⟨t, ht, htakes⟩ := hm m .self
  have hclass := hreg _ _ ht
  have hclear := htakes.clear hclass.toStoresApart
  cases hset : t.isMessageSet with
  | true =>
    obtain ⟨_, hfields, _⟩ := hclass.set hset
    refine ⟨kept_of_filled hm ?_, ?_⟩
    · rintro name ⟨t', slot, ht', hslot, _⟩
      cases ht.symm.trans ht'
      rw [hfields] at hslot
      cases hslot
    · rintro inner ⟨t', ht', hnot, _⟩
      cases ht.symm.trans ht'
      rw [hset] at hnot
      cases hnot
  | false =>
    obtain ⟨k, hparts⟩ := parts_of_written ht hset hclear h
    refine ⟨kept_of_filled hm ?_, fun inner hwrites =>
      ⟨k, written_of_writes ht hclear hparts hwrites⟩⟩
    rintro name ⟨t', slot, ht', hslot, honce, hrequired, _, hnull⟩
    cases ht.symm.trans ht'
    obtain ⟨raw, hraw⟩ := hparts _ (MessageType.mem_parts.mpr (.inl ⟨_, hslot, rfl⟩))
    have hown := (Record.own?_eq_get? (hclass.field_attr_free hslot) m).trans hnull
    have hnone := (((Field.plain slot).part.of_eq hown).symm.trans hraw).symm.trans
      (Encode.field_null (hclass.entries _ hslot) honce false)
    rw [if_pos hrequired] at hnone
    cases hnone

theorem failed_of_error (hfaithful : reg.Faithful m)
    (h : Encode.message reg write m = .error fault) :
    (∃ name, reg.Lacks m name ∧ fault = .unencodable (.requiredUnset name)) ∨
      ∃ inner, reg.Writes m inner ∧ write inner = .error fault := by
  obtain ⟨t, ht, htakes⟩ := hm m .self
  have hclass := hreg _ _ ht
  have hclear := htakes.clear hclass.toStoresApart
  have hnames := hfaithful t ht
  cases hset : t.isMessageSet with
  | true =>
    obtain ⟨_, hfields, _⟩ := hclass.set hset
    obtain ⟨t', ht', hkeeps⟩ := kept_of_filled hm (by
      rintro name ⟨t', slot, ht', hslot, _⟩
      cases ht.symm.trans ht'
      rw [hfields] at hslot
      cases hslot)
    cases ht.symm.trans ht'
    obtain ⟨bs, hwritten, _⟩ := messageSet_back hreg ht hkeeps hnames hset
    rw [hwritten] at h
    cases h
  | false =>
    rw [message_eq_each ht hset hclear] at h
    cases heach : Encode.each (·.of write m) (t.parts reg) with
    | ok bs =>
      rw [heach] at h
      cases h
    | error fault' =>
      rw [heach] at h
      cases h
      obtain ⟨part, hpart, hfault⟩ := Encode.each_eq_error heach
      have hattr := MessageType.codecAttr_of_part hpart
      obtain ⟨v, hv⟩ := htakes.get?_eq_some (hnames.stores _ hattr)
      rw [part.of_eq ((Record.own?_eq_get? (hclass.attrsFree _ hattr) m).trans hv)] at hfault
      rcases MessageType.mem_parts.mp hpart with ⟨f, hf, rfl⟩ | ⟨codec, hcodec, group, hgroup, rfl⟩
      · rcases Encode.field_eq_error (hclass.entries f hf) (htakes.fields f hf v hv) hfault with
          ⟨slot, rfl, honce, hrequired, rfl, rfl⟩ | ⟨inner, hholds, hinner⟩
        · exact .inl ⟨_, ⟨t, slot, ht, hf, honce, hrequired, rfl, hv⟩, rfl⟩
        · exact .inr ⟨inner, writes_of_field hclass ht hset hclear hf hv hholds, hinner⟩
      · have hmem : group ∈ t.groups := group_of_codec hcodec hgroup
        rcases member_of_oneof hclass ht htakes hnames hset hcodec hgroup hv with
          rfl | ⟨member, hmember, held, hheld, hsingle, hwrites⟩
        · cases hfault
        replace hfault := hsingle.symm.trans hfault
        cases hkind : member.kind.isMessage with
        | true =>
          unfold VariantMember.Takes at hheld
          rw [if_pos hkind] at hheld
          obtain ⟨inner, rfl, _⟩ := hheld
          exact .inr ⟨inner, hwrites hkind inner rfl,
            Encode.message_eq_error (show member.slot.kind.isMessage = true from hkind) hfault⟩
        | false =>
          obtain ⟨raw, hwritten, _⟩ := payload_back hreg write (hclass.members group hmem member hmember)
            (hclass.groupMembers group hmem member hmember) (hclass.number_of_member hmem hmember) hheld
            (fun hmessage => absurd (hkind.symm.trans hmessage) (by simp))
          rw [hwritten] at hfault
          cases hfault

end Written

/-- What keeps a filled and faithful message from being written is a required field that is unset in it
or in a message inside. -/
theorem lacks_of_failed (hreg : reg.Regular) (fuel : Nat) :
    ∀ m : Message, m.weight ≤ fuel → (Value.message m).Filled reg Accepts →
      reg.Throughout reg.Faithful m → encodeMessage reg fuel m = .error fault →
        ∃ inner name, Relation.ReflTransGen reg.Writes m inner ∧ reg.Lacks inner name ∧
          fault = .unencodable (.requiredUnset name) := by
  induction fuel with
  | zero =>
    intro m hweight
    have hpos := m.weight_pos
    omega
  | succ fuel ih =>
    intro m hweight hm hfaithful h
    rcases failed_of_error hreg hm hfaithful.here h with ⟨name, hlacks, hfault⟩ | ⟨inner, hwrites, hinner⟩
    · exact ⟨m, name, .refl, hlacks, hfault⟩
    · obtain ⟨t, ht, htakes⟩ := hm m .self
      have hclass := hreg _ _ ht
      have hlt := weight_lt_of_writes hclass htakes.oneofs ht (htakes.clear hclass.toStoresApart) hwrites
      obtain ⟨deeper, name, hpath, hlacks⟩ :=
        ih inner (by omega) (filled_of_writes hreg hm hwrites) (hfaithful.inside hwrites) hinner
      exact ⟨deeper, name, .head hwrites hpath, hlacks⟩

/-! ## Reading, writing, reading -/

theorem grows_reset (hreg : reg.Regular) {into start : Message}
    (ht : into.HasType reg t) (hinto : t.Instance into)
    (h : reg.reset into = .ok start) : "__init__" ∉ t.storedAttrs ∧ into.GrowsTo reg start := by
  have hclass := hreg _ _ ht
  have hclear := hinto.clear hclass.toStoresApart
  obtain ⟨hcall, hinit, rfl⟩ := hinto.eq_initialized hclass.toStoresApart ht h
  refine ⟨hinit, MessageType.Regular.filled_initialized hclear (fun attr => (hinto.attrs attr).mp)
    (fun hnone => ?_) (fun hnone => ?_) hclass hcall ht⟩
  · have hsome := hinto.extensions
    rw [hnone] at hsome
    simpa using hsome
  · have hsome := hinto.unknown
    rw [hnone] at hsome
    simpa using hsome

/-- Whether data reads, into a message that was emptied, as a message that is equal to a given one and
is written as the same data. -/
def Registry.Canonical (reg : Registry) (m into : Message) (e : Bytes) : Prop :=
  ∃ start m', reg.reset into = .ok start ∧ merge reg start e = .done m' [] ∧
    equalValues reg false (.message m) (.message m') = .ok true ∧ encode reg m' = .ok e

section Filled

variable (hreg : reg.Regular) (hm : (Value.message m).Filled reg Accepts)
include hreg hm

theorem throughout_kept (hwritten : ∃ fuel bs, encodeMessage reg fuel m = .ok bs) :
    reg.Throughout reg.Kept m := by
  refine Registry.throughout_of_step (q := fun m => (Value.message m).Filled reg Accepts ∧
    ∃ fuel bs, encodeMessage reg fuel m = .ok bs) ?_ ⟨hm, hwritten⟩
  rintro m ⟨hm, hwritten⟩
  obtain ⟨hkept, hinside⟩ := kept_of_written hreg hm hwritten
  exact ⟨hkept, fun inner hwrites => ⟨filled_of_writes hreg hm hwrites, hinside inner hwrites⟩⟩

theorem throughout_faithful (hwritten : ∃ fuel bs, encodeMessage reg fuel m = .ok bs)
    (hequal : ∃ fuel w, Equality.bounded reg fuel false (.message m) w = .ok true) :
    reg.Throughout reg.Faithful m := by
  refine Registry.throughout_of_step (q := fun m => (Value.message m).Filled reg Accepts ∧
    (∃ fuel bs, encodeMessage reg fuel m = .ok bs) ∧
      ∃ fuel w, Equality.bounded reg fuel false (.message m) w = .ok true) ?_
    ⟨hm, hwritten, hequal⟩
  rintro m ⟨hm, hwritten, hequal⟩
  obtain ⟨hkept, _⟩ := kept_of_written hreg hm hwritten
  obtain ⟨hfaithful, hinside⟩ := faithful_of_compared hreg hkept hwritten hequal
  exact ⟨hfaithful, fun inner hwrites => ⟨filled_of_writes hreg hm hwrites, hinside inner hwrites⟩⟩

/-- What is written of a message that is faithful at every level is read as an equal one by every
message of its class. -/
theorem exists_equal_read (ht : m.HasType reg t)
    (hfaithful : reg.Throughout reg.Faithful m) {e : Bytes} (hwritten : encode reg m = .ok e)
    (hshort : Short e) {other : Message} (hother : t.Instance other)
    (htype : other.type = m.type) (hinit : "__init__" ∉ t.storedAttrs) :
    ∃ start m', reg.reset other = .ok start ∧ merge reg start e = .done m' [] ∧
      EqualTo reg (.message m) (.message m') ∧ encode reg m' = .ok e := by
  have hkept := throughout_kept hreg hm ⟨_, e, hwritten⟩
  obtain ⟨bs, hbs, hback⟩ := backed_of_kept hreg m.weight m (Nat.le_refl _) hkept hfaithful
  cases hbs.symm.trans hwritten
  obtain ⟨start, hreset, hfresh, htype'⟩ := hother.reset_eq (hreg _ _ ht).toStoresApart
    (ht.of_eq htype) (hkept.here.constructs.elim fun _ h => by
      cases ht.symm.trans h.1
      exact h.2) hinit
  obtain ⟨m', hequal, _, hmerge, _, hagain⟩ := hback hshort t ht start hfresh (htype'.trans htype)
  exact ⟨start, m', hreset, hmerge, hequal, hagain _ (Nat.le_refl _)⟩

end Filled

/-- A message that was read from any data, and holds no NaN, is well-typed with all that is inside. If
it is stored, written and compared by the names that its classes have, only a required field that is
unset in it or in a message inside keeps it from being written. What is written of it is canonical
exactly in that case; the length of a run has 64 bits, so no longer encodings are considered. -/
theorem decoded_canonical {reg : Registry} (hreg : reg.Regular) (hstores : reg.StoresOneofs)
    {into other start m : Message} {t : MessageType} (ht : reg.messageType? into.type = some t)
    (hinto : t.Instance into) (hother : t.Instance other) (htype : other.type = into.type) {d : Bytes}
    (hreset : reg.reset into = .ok start) (hread : merge reg start d = .done m [])
    (hnan : reg.NaNFree (.message m)) :
    (Value.message m).Filled reg Kind.Accepts ∧
      (reg.Throughout reg.Faithful m → ∀ fault, encode reg m = .error fault →
        ∃ inner name, Relation.ReflTransGen reg.Writes m inner ∧ reg.Lacks inner name ∧
          fault = .unencodable (.requiredUnset name)) ∧
      ∀ e, encode reg m = .ok e → e.length < 18446744073709551616 →
        (reg.Canonical m other e ↔ reg.Throughout reg.Faithful m) := by
  obtain ⟨hinit, hstart, hstartType⟩ := grows_reset hreg ht hinto hreset
  obtain ⟨hread', hmType⟩ := (Decode.grows_merge hreg hstores hstart d).of_done hread
  have hm := hread'.accepts hnan
  have hmt : reg.messageType? m.type = some t := by rw [hmType, hstartType, ht]
  have hotherType : other.type = m.type := htype.trans (hmType.trans hstartType).symm
  refine ⟨hm, fun hfaithful fault h => lacks_of_failed hreg _ m (Nat.le_refl _) hm hfaithful h,
    fun e hwritten hshort => ⟨?_, fun hfaithful => ?_⟩⟩
  · rintro ⟨_, m', _, _, hequal, _⟩
    exact throughout_faithful hreg hm ⟨_, e, hwritten⟩ ⟨_, _, hequal⟩
  · obtain ⟨start', m', hreset', hmerge, hequal, hagain⟩ :=
      exists_equal_read hreg hm hmt hfaithful hwritten hshort hother hotherType hinit
    exact ⟨start', m', hreset', hmerge, hequal.holds, hagain⟩

/-- A message with nothing set. -/
def treeBlank (attr : String) : Message where
  type := 0
  attrs := [(attr, .null), ("child", .null), ("o", .null)]

/-- A message with a text, and maybe a message of its own class inside. -/
def treeWord (attr : String) (child : Value) : Message where
  type := 0
  attrs := [(attr, .null), ("child", child), ("o", .variant 2 "s" (.text "ab"))]

theorem storesOneofs_treeRegistry (attr : String) : (treeRegistry attr).StoresOneofs := by
  rintro (_ | _ | _ | id) t ht group hgroup
  · cases ht
    cases mem_singleton.mp hgroup
    simp [MessageType.storedAttrs]
  · cases ht
  · cases ht
  · cases ht

theorem nanFree_treeWord {attr : String} {child : Value} (h : (treeRegistry attr).NaNFree child) :
    (treeRegistry attr).NaNFree (.message (treeWord attr child)) := by
  rintro d (_ | _ | _ | _ | _ | @⟨_, _, a, x, ht, hattr, hget, hin⟩)
  have hsome : Dictionary.get? a (treeWord attr child).attrs = some x := hget
  rcases mem_cons.mp (Dictionary.mem_of_get? hsome) with heq | hmem
  · cases heq
    cases hin
  rcases mem_pair.mp hmem with heq | heq
  · cases heq
    exact h d hin
  · cases heq
    cases hin with
    | held hin => cases hin

/-- The oneof and the message inside come twice in the data, and in another order than in what is
written. -/
theorem decoded_canonical_tree :
    merge (treeRegistry "v") (treeBlank "v") [26, 1, 120, 18, 0, 26, 2, 97, 98, 18, 4, 26, 2, 97, 98] =
        .done (treeWord "v" (.message (treeWord "v" .null))) [] ∧
      (treeRegistry "v").Canonical (treeWord "v" (.message (treeWord "v" .null))) (treeLeaf "v")
        [18, 4, 26, 2, 97, 98, 26, 2, 97, 98] ∧
      ¬(treeRegistry "_compared_attributes").Canonical
        (treeWord "_compared_attributes" (.message (treeWord "_compared_attributes" .null)))
        (treeLeaf "_compared_attributes") [18, 4, 26, 2, 97, 98, 26, 2, 97, 98] := by
  have hnull (attr : String) : (treeRegistry attr).NaNFree .null := by rintro d ⟨⟩
  refine ⟨rfl, ?_, fun h => ?_⟩
  · obtain ⟨t, ht, hinto⟩ := typed_treeLeaf v_free rfl
    refine ((decoded_canonical (regular_treeRegistry v_free)
      (storesOneofs_treeRegistry "v") ht hinto.toInstance hinto.toInstance rfl rfl
      (d := [26, 1, 120, 18, 0, 26, 2, 97, 98, 18, 4, 26, 2, 97, 98]) rfl
      (nanFree_treeWord (nanFree_treeWord (hnull "v")))).2.2 _ rfl (by decide)).mpr ?_
    intro inner _ t ht
    have htype : inner.type = 0 := by
      rcases hid : inner.type with _ | _ | _ | id
      · rfl
      all_goals rw [hid] at ht; cases ht
    exact faithful_tree htype t ht
  · have hattr : "_compared_attributes" ∉ "child" :: "o" :: reservedAttrs := by decide
    obtain ⟨t, ht, hinto⟩ := typed_treeLeaf hattr rfl
    have hfaithful := ((decoded_canonical (regular_treeRegistry hattr)
      (storesOneofs_treeRegistry "_compared_attributes") ht hinto.toInstance hinto.toInstance rfl rfl
      (d := [26, 1, 120, 18, 0, 26, 2, 97, 98, 18, 4, 26, 2, 97, 98]) rfl
      (nanFree_treeWord (nanFree_treeWord (hnull "_compared_attributes")))).2.2 _ rfl (by decide)).mp h
    exact (hfaithful.here _ rfl).compares (by decide)

end Protobind

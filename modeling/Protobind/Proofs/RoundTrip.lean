import Protobind.Proofs.DecodeTotality
import Protobind.Proofs.DecodeTyping
import Protobind.Proofs.SizeAgreement

/-!
# The round trip

A well-typed message is written and read back as an equal one if its classes are stored, written and
compared by the names that they have (`roundTrip_iff_faithful`). That this is needed shows in the
result: what was written and compared tells which names were found.
-/

namespace Protobind

open List Equality Encode Record

variable {m inner : Message} {v w child held o : Value} {bs : Bytes} {attr stored : String}
  {fuel k : Nat} {codec : OneofCodec} {entries : List (Value × Value)}
  {equal : Value → Value → Result Bool} {f : Field} {group : OneofSlot} {id : ClassId}
  {items : List Value} {p : Message → Prop} {reg : Registry} {t : MessageType} {vt : VariantType}
  {write : Writer}

/-- A property holds throughout a message when something follows from one level to the next that
implies it. -/
theorem Registry.throughout_of_step {q : Message → Prop}
    (hstep : ∀ m, q m → p m ∧ ∀ inner, reg.Writes m inner → q inner) (hm : q m) :
    reg.Throughout p m := by
  intro inner hpath
  have hq : q inner := by
    induction hpath with
    | refl => exact hm
    | tail _ hwrites ih => exact (hstep _ ih).2 _ hwrites
  exact (hstep inner hq).1

/-! ## What was written -/

namespace Encode

theorem each_eq_ok {α : Type} {part : α → Result Bytes} {parts : List α} (h : each part parts = .ok bs) :
    ∀ a ∈ parts, ∃ raw, part a = .ok raw := by
  induction parts generalizing bs with
  | nil => exact forall_mem_nil _
  | cons first parts ih =>
    obtain ⟨raw, hfirst, h⟩ := bind_eq_ok.mp h
    obtain ⟨rest, hrest, _⟩ := bind_eq_ok.mp h
    intro a ha
    rcases mem_cons.mp ha with rfl | ha
    · exact ⟨raw, hfirst⟩
    · exact ih hrest a ha

/-- What is written inside a message has its length for a size. -/
theorem agrees_length (write : Writer) (m : Message) :
    Agrees True False (write m) ((write m).map List.length) := by
  cases write m with
  | ok bs => exact .of_ok bs
  | error fault => exact .of_error rfl

theorem written_of_length (h : ∃ n, (write inner).map List.length = .ok n) :
    ∃ raw, write inner = .ok raw := by
  obtain ⟨n, h⟩ := h
  cases hraw : write inner with
  | ok raw => exact ⟨raw, rfl⟩
  | error fault => rw [hraw] at h; cases h

theorem written_of_single {slot : Slot} (hmessage : slot.kind.isMessage = true)
    (h : single write slot (.message inner) = .ok bs) : ∃ raw, write inner = .ok raw := by
  have hagrees := agrees_single (v := .message inner) slot False.elim fun _ m _ =>
    agrees_length write m
  have hsize := (hagrees.ok bs h).resolve_right fun hnot => hnot.1 trivial
  exact written_of_length (Size.message_of_single hmessage hsize)

theorem written_of_field {always : Bool} (h : field write f always v = .ok bs)
    (hholds : f.Holds v inner) : ∃ raw, write inner = .ok raw := by
  have hagrees := agrees_field f always v False.elim fun m _ => agrees_length write m
  have hsize := (hagrees.ok bs h).resolve_right fun hnot => hnot.1 trivial
  exact written_of_length (Size.message_of_field hsize hholds)

end Encode

/-! ## What was compared -/

namespace Equality

theorem found_of_message (h : found equal (.message inner) w = .ok true) :
    equal (.message inner) w = .ok true := by
  unfold found at h
  exact h

theorem sameItems_of_mem {ws : List Value} (h : sameItems equal items ws = .ok true) {item : Value}
    (hmem : item ∈ items) : ∃ w, found equal item w = .ok true := by
  induction items generalizing ws with
  | nil => cases hmem
  | cons first items ih =>
    cases ws with
    | nil => cases h
    | cons w ws =>
      obtain ⟨same, hfirst, h⟩ := bind_eq_ok.mp h
      cases same with
      | false => cases h
      | true =>
        rcases mem_cons.mp hmem with rfl | hmem
        · exact ⟨w, hfirst⟩
        · exact ih h hmem

theorem allEntries_of_mem {others : List (Value × Value)}
    (h : allEntries equal others entries = .ok true) {e : Value × Value} (hmem : e ∈ entries) :
    ∃ w, found equal e.2 w = .ok true := by
  induction entries with
  | nil => cases hmem
  | cons first entries ih =>
    unfold allEntries at h
    split at h
    · cases h
    · obtain ⟨same, hfirst, h⟩ := bind_eq_ok.mp h
      cases same with
      | false => cases h
      | true =>
        rcases mem_cons.mp hmem with rfl | hmem
        · exact ⟨_, hfirst⟩
        · exact ih h hmem

theorem allAttrs_of_mem {n : Message} {attrs : List String}
    (h : allAttrs equal m n attrs = .ok true) (hmem : attr ∈ attrs) :
    ∃ w, equal ((m.own? attr).getD .null) w = .ok true := by
  induction attrs with
  | nil => cases hmem
  | cons first attrs ih =>
    obtain ⟨same, hfirst, h⟩ := bind_eq_ok.mp h
    cases same with
    | false => cases h
    | true =>
      rcases mem_cons.mp hmem with rfl | hmem
      · exact ⟨_, hfirst⟩
      · exact ih h hmem

theorem list_of_equal (h : bounded reg fuel false (.list items) w = .ok true) :
    ∃ k ws, sameItems (bounded reg k false) items ws = .ok true := by
  cases fuel with
  | zero => cases h
  | succ k =>
    cases w with
    | list ws =>
      rw [bounded_list] at h
      unfold all at h
      split at h
      · cases h
      · exact ⟨k, ws, h⟩
    | variant id stored held =>
      change (if hidesComparison reg id then Except.error Fault.wrongType else .ok false) = _ at h
      split at h <;> cases h
    | _ => cases h

theorem map_of_equal (h : bounded reg fuel false (.map entries) w = .ok true) :
    ∃ k others, allEntries (bounded reg k false) others entries = .ok true := by
  cases fuel with
  | zero => cases h
  | succ k =>
    cases w with
    | map others =>
      rw [bounded_map] at h
      split at h
      · cases h
      · exact ⟨k, others, h⟩
    | variant id stored held =>
      change (if hidesComparison reg id then Except.error Fault.wrongType else .ok false) = _ at h
      split at h <;> cases h
    | _ => cases h

/-- A variant equals only a variant of its class that holds an equal value; then its slot was found
under its declared name. -/
theorem variant_of_equal (hvt : reg.variantType? id = some vt)
    (h : bounded reg fuel false (.variant id stored held) w = .ok true) :
    vt.hides "__eq__" = false ∧ vt.slotFault? = none ∧
      ∃ k w', bounded reg k false held w' = .ok true := by
  cases fuel with
  | zero => cases h
  | succ k =>
    cases w with
    | variant id' stored' held' =>
      by_cases hid : id = id'
      · subst hid
        rw [bounded_variant reg k hvt] at h
        split at h
        · cases h
        · rename_i hhides
          cases hfault : vt.slotFault? with
          | some fault => rw [hfault] at h; cases h
          | none =>
            rw [hfault] at h
            exact ⟨by simpa using hhides, rfl, k, held', h⟩
      · change (if hidesComparison reg id then Except.error Fault.wrongType
          else if id ≠ id' then .ok false else _) = _ at h
        rw [if_pos hid] at h
        split at h <;> cases h
    | _ =>
      change (if hidesComparison reg id then Except.error Fault.wrongType else .ok false) = _ at h
      split at h <;> cases h

theorem message_of_equal (ht : m.HasType reg t) (hm : m.Clear)
    (h : bounded reg fuel false (.message m) w = .ok true) :
    m.has "_compared_attributes" = false ∧ ∀ attr ∈ t.fields.map (·.slot.attr) ++ t.oneofs,
      ∃ k w', bounded reg k false ((m.own? attr).getD .null) w' = .ok true := by
  cases fuel with
  | zero => cases h
  | succ k =>
    cases w with
    | message n =>
      by_cases hsame : reg.canonical m.type = reg.canonical n.type
      · rw [bounded_message ht hsame hm] at h
        split at h
        · cases h
        · rename_i hhas
          obtain ⟨same, hattrs, h⟩ := bind_eq_ok.mp h
          cases same with
          | false => cases h
          | true =>
            refine ⟨by simpa using hhas, fun attr hattr => ?_⟩
            obtain ⟨w', hw'⟩ := allAttrs_of_mem hattrs hattr
            exact ⟨k, w', hw'⟩
      · change (if reg.canonical m.type ≠ reg.canonical n.type then Except.ok false else _) = _ at h
        rw [if_pos hsame] at h
        cases h
    | _ => cases h

end Equality

/-- Where the values of a field are equal, the messages inside are equal to something. -/
theorem compared_of_holds (hf : f.Regular reg) (hv : f.Types reg v) (h : f.Holds v inner)
    (hequal : bounded reg fuel false v w = .ok true) :
    ∃ k w', bounded reg k false (.message inner) w' = .ok true := by
  rcases hv.takes.holds_cases hf h with rfl | ⟨items, rfl, hmem⟩ | ⟨entries, k, rfl, hmem⟩
  · exact ⟨fuel, w, hequal⟩
  · obtain ⟨k, ws, hitems⟩ := list_of_equal hequal
    obtain ⟨w', hw'⟩ := sameItems_of_mem hitems hmem
    exact ⟨k, w', found_of_message hw'⟩
  · obtain ⟨b, others, hall⟩ := map_of_equal hequal
    obtain ⟨w', hw'⟩ := allEntries_of_mem hall hmem
    exact ⟨b, w', found_of_message hw'⟩

/-! ## What a round trip shows -/

section

variable (hreg : reg.Regular)

theorem sets_of_written (hv : m.own? group.attr = some v) (hne : v ≠ .null)
    (h : oneof reg write codec m group = .ok bs) :
    "isinstance" ∉ codec.rebound ∧ ∃ member held, reg.findMember v group.members = .ok (some member) ∧
      reg.member v member.attr = .ok held ∧ single write member.slot held = .ok bs := by
  replace h : oneofValue reg codec group write v = .ok bs := ((group.part reg codec).of_eq hv).symm.trans h
  rw [oneofValue, if_neg fun hnull => hne (Value.isNull_iff.mp hnull)] at h
  obtain ⟨⟨member, held⟩, hheld, h⟩ := bind_eq_ok.mp h
  obtain ⟨hbound, hfind, hmember⟩ := heldMember_eq_ok.mp hheld
  rw [oneofCase_eq_single] at h
  exact ⟨hbound, member, held, hfind, hmember, h⟩

theorem attr_of_member (hvt : reg.variantType? id = some vt)
    (h : reg.member (.variant id vt.stored held) attr = .ok w) :
    vt.readingFault? = none ∧ vt.stored = attr ∧ w = held := by
  unfold Registry.member at h
  simp only [hvt, Option.bind_some] at h
  split at h
  · cases h
  · rename_i hfault
    split at h
    · rename_i hattr
      cases h
      exact ⟨hfault, hattr, rfl⟩
    · cases h

/-- Whether a message was written at some level, and found equal to something. -/
def Registry.Shown (reg : Registry) (m : Message) : Prop :=
  reg.Throughout reg.Typed m ∧ (∃ fuel bs, encodeMessage reg fuel m = .ok bs) ∧
    ∃ fuel w, bounded reg fuel false (.message m) w = .ok true

theorem parts_of_written (ht : m.HasType reg t) (hset : t.isMessageSet = false)
    (hm : m.Clear) (h : encodeMessage reg fuel m = .ok bs) :
    ∃ k, ∀ part ∈ t.parts reg, ∃ raw, part.of (encodeMessage reg k) m = .ok raw := by
  cases fuel with
  | zero => cases h
  | succ k =>
    rw [encodeMessage, message_eq_each ht hset hm] at h
    obtain ⟨raw, hraw, _⟩ := bind_eq_ok.mp h
    exact ⟨k, each_eq_ok hraw⟩

theorem written_of_writes (ht : m.HasType reg t) (hm : m.Clear)
    (hparts : ∀ part ∈ t.parts reg, ∃ raw, part.of (encodeMessage reg k) m = .ok raw)
    (h : reg.Writes m inner) : ∃ bs, encodeMessage reg k inner = .ok bs := by
  obtain ⟨t', ht', _, ⟨table, f, v, htable, hf, hown, hholds⟩ | ⟨codec, group, member, hcodec, hgroup,
    hmessage, v, hown, hne, hfind, hheld⟩⟩ := h
  · cases ht.symm.trans ht'
    rw [hm.tableOf_eq] at htable
    cases htable
    obtain ⟨raw, hraw⟩ := hparts f.part (MessageType.mem_parts.mpr (.inl ⟨f, hf, rfl⟩))
    exact written_of_field ((f.part.of_eq hown).symm.trans hraw) hholds
  · cases ht.symm.trans ht'
    rw [hm.codecOf_eq] at hcodec
    obtain ⟨raw, hraw⟩ := hparts (group.part reg codec)
      (MessageType.mem_parts.mpr (.inr ⟨codec, Except.ok.inj hcodec, group, hgroup, rfl⟩))
    obtain ⟨_, member', held', hfind', hheld', hbs⟩ := sets_of_written hown hne hraw
    cases hfind.symm.trans hfind'
    cases hheld.symm.trans hheld'
    exact written_of_single (show member.slot.kind.isMessage = true from hmessage) hbs

section Levels

variable (ht : m.HasType reg t) (hm : t.Keeps reg m)
include hreg ht hm

/-- A variant that was written and found equal has its slot under the names that were used. -/
theorem variant_of_shown (hgroup : group ∈ t.groups)
    (hwritten : oneof reg write codec m group = .ok bs)
    (hv : m.get? group.attr = some (.variant id stored held))
    (hequal : bounded reg k false (.variant id stored held) w = .ok true) :
    "isinstance" ∉ codec.rebound ∧ ∀ member ∈ group.members, member.variant = .ok (.type id) →
      ∀ vt, reg.variantType? id = some vt → vt.Faithful member := by
  have hclass := hreg _ _ ht
  have hfree := hclass.group_attr_free hgroup
  have hown : m.own? group.attr = some (.variant id stored held) := by
    rw [own?_eq_get? hfree, hv]
  obtain ⟨hbound, found, _, hfind, hmember, _⟩ := sets_of_written hown (by simp) hwritten
  refine ⟨hbound, fun member hmem hvariant vt hvt => ?_⟩
  obtain ⟨_, _, id', vt', held', _, hvt', heq, _⟩ :=
    (hm.oneofs group hgroup _ hv).resolve_left (by simp)
  cases heq
  cases hvt.symm.trans hvt'
  have hsame : found = member := by
    have := hclass.findMember_eq hgroup hmem hvariant hvt held
    rw [hfind] at this
    cases this
    rfl
  subst hsame
  obtain ⟨hreads, hattr, _⟩ := attr_of_member hvt hmember
  obtain ⟨hcompares, hslot, _⟩ := variant_of_equal hvt hequal
  refine ⟨?_, hcompares, hattr, ?_⟩
  · unfold VariantType.readingFault? at hreads
    split at hreads
    · cases hreads
    · rename_i hhides
      simpa using hhides
  · unfold VariantType.slotFault? at hslot
    rw [hreads] at hslot
    by_contra hne
    rw [if_neg hne] at hslot
    cases hslot

variable (hparts : ∀ part ∈ t.parts reg, ∃ raw, part.of (encodeMessage reg k) m = .ok raw)
  (hequal : ∀ attr ∈ t.codecAttrs, ∀ v, m.get? attr = some v →
    ∃ k w, bounded reg k false v w = .ok true)
include hparts hequal

/-- A message whose parts were written and found equal is stored, written and compared by its
names. -/
theorem faithful_of_parts (hcompared : "_compared_attributes" ∉ t.storedAttrs) :
    t.Faithful reg m := by
  have hclass := hreg _ _ ht
  refine ⟨fun attr hattr => ?_, hcompared, fun codec hcodec group hgroup id stored held hv => ?_⟩
  · have hfree := hclass.attrsFree attr hattr
    rw [← t.parts_attrs reg] at hattr
    obtain ⟨part, hpart, rfl⟩ := mem_map.mp hattr
    obtain ⟨raw, hraw⟩ := hparts part hpart
    obtain ⟨v, hown, _⟩ := bind_eq_ok.mp hraw
    rw [require_eq_ok, own?_eq_get? hfree] at hown
    exact (hm.attrs _).mp (by rw [hown]; rfl)
  · have hmem := group_of_codec hcodec hgroup
    obtain ⟨raw, hraw⟩ := hparts (group.part reg codec)
      (MessageType.mem_parts.mpr (.inr ⟨codec, hcodec, group, hgroup, rfl⟩))
    obtain ⟨k', w, hw⟩ := hequal _ (mem_append_right _ (mem_map_of_mem hmem)) _ hv
    exact variant_of_shown hreg ht hm hmem hraw hv hw

theorem inside_of_parts (h : reg.Writes m inner) :
    (∃ fuel bs, encodeMessage reg fuel inner = .ok bs) ∧
      ∃ fuel w, bounded reg fuel false (.message inner) w = .ok true := by
  have hclass := hreg _ _ ht
  have hclear := hm.clear hclass.toStoresApart
  refine ⟨⟨k, written_of_writes ht hclear hparts h⟩, ?_⟩
  rcases cases_of_writes hclass hm.oneofs ht hclear h with ⟨f, hf, v, hv, hholds⟩ |
    ⟨group, hgroup, id, stored, hv⟩
  · obtain ⟨b, w, hw⟩ := hequal _ (mem_append_left _ (mem_map_of_mem hf)) v hv
    exact compared_of_holds (hclass.entries f hf) (hm.fields f hf v hv) hholds hw
  · obtain ⟨_, _, _, vt, _, _, hvt, heq, _⟩ :=
      (hm.oneofs group hgroup _ hv).resolve_left (by simp)
    cases heq
    obtain ⟨b, w, hw⟩ := hequal _ (mem_append_right _ (mem_map_of_mem hgroup)) _ hv
    exact (variant_of_equal hvt hw).2.2

end Levels

include hreg

/-- A message that was written and found equal is stored, written and compared by its names, and the
messages inside were written and found equal too. -/
theorem faithful_of_compared (hkept : reg.Kept m)
    (hwritten : ∃ fuel bs, encodeMessage reg fuel m = .ok bs)
    (hequal : ∃ fuel w, bounded reg fuel false (.message m) w = .ok true) :
    reg.Faithful m ∧ ∀ inner, reg.Writes m inner →
      (∃ fuel bs, encodeMessage reg fuel inner = .ok bs) ∧
        ∃ fuel w, bounded reg fuel false (.message inner) w = .ok true := by
  obtain ⟨fuel, bs, hwritten⟩ := hwritten
  obtain ⟨k, w, hequal⟩ := hequal
  obtain ⟨t, ht, hm⟩ := hkept
  have hclass := hreg _ _ ht
  have hclear := hm.clear hclass.toStoresApart
  obtain ⟨hhas, hattrs⟩ := message_of_equal ht hclear hequal
  have hcompared : "_compared_attributes" ∉ t.storedAttrs := by
    intro hstored
    obtain ⟨v, hv⟩ := hm.get?_eq_some hstored
    unfold has at hhas
    rw [own?_eq_get? (by decide), hv] at hhas
    cases hhas
  have hcodecAttrs : ∀ attr ∈ t.codecAttrs, ∀ v, m.get? attr = some v →
      ∃ k w, bounded reg k false v w = .ok true := by
    intro attr hattr v hv
    rw [hclass.compared] at hattrs
    obtain ⟨k, w, hw⟩ := hattrs attr hattr
    rw [own?_eq_get? (hclass.attrsFree attr hattr), hv] at hw
    exact ⟨k, w, hw⟩
  cases hset : t.isMessageSet with
  | true =>
    obtain ⟨_, hfields, hcodec⟩ := hclass.set hset
    have hnone : t.codecAttrs = [] := by
      unfold MessageType.codecAttrs MessageType.groups
      rw [hfields, hcodec]
      rfl
    refine ⟨fun t' ht' => ?_, ?_⟩
    · cases ht.symm.trans ht'
      refine ⟨fun attr h => ?_, hcompared, fun codec h => ?_⟩
      · rw [hnone] at h
        exact absurd h not_mem_nil
      · rw [hcodec] at h
        cases h
    · rintro inner ⟨t', ht', hnot, _⟩
      cases ht.symm.trans ht'
      rw [hset] at hnot
      cases hnot
  | false =>
    obtain ⟨k', hparts⟩ := parts_of_written ht hset hclear hwritten
    refine ⟨fun t' ht' => ?_, fun inner hwrites => ?_⟩
    · cases ht.symm.trans ht'
      exact faithful_of_parts hreg ht hm hparts hcodecAttrs hcompared
    · exact inside_of_parts hreg ht hm hparts hcodecAttrs hwrites

/-- So are the messages inside a well-typed one. -/
theorem faithful_of_shown (h : reg.Shown m) :
    reg.Faithful m ∧ ∀ inner, reg.Writes m inner → reg.Shown inner := by
  obtain ⟨htyped, hwritten, hequal⟩ := h
  obtain ⟨hfaithful, hinside⟩ := faithful_of_compared hreg (htyped.here.kept hreg) hwritten hequal
  exact ⟨hfaithful, fun inner hwrites => ⟨htyped.inside hwrites, hinside inner hwrites⟩⟩

end

/-! ## The round trip -/

/-- Whether a message can be written, what is written can be read into another message after that was
emptied, and the two are equal then, with the same unknown records. -/
def Registry.RoundTrips (reg : Registry) (m into : Message) : Prop :=
  ∃ bs start m', encode reg m = .ok bs ∧ reg.reset into = .ok start ∧
    merge reg start bs = .done m' [] ∧
    equalValues reg false (.message m) (.message m') = .ok true ∧
    ∀ t, reg.messageType? m.type = some t → t.isMessageSet = false → m'.unknown? = m.unknown?

/-- A well-typed message of any depth makes the round trip exactly when no attribute takes the place of
the constructor of its class, and it and the messages inside are stored, written and compared by the
names that their classes have. The length of a run has 64 bits, so no longer encodings are considered. -/
theorem roundTrip_iff_faithful {reg : Registry} (hreg : reg.Regular) {m into : Message}
    (hm : reg.Throughout reg.Typed m) {t : MessageType} (ht : reg.messageType? m.type = some t)
    (hinto : t.Instance into) (htype : into.type = m.type)
    (hshort : ∀ bs, encode reg m = .ok bs → bs.length < 18446744073709551616) :
    reg.RoundTrips m into ↔ "__init__" ∉ t.storedAttrs ∧ reg.Throughout reg.Faithful m := by
  have hapart := (hreg _ _ ht).toStoresApart
  have hintoType : reg.messageType? into.type = some t := htype ▸ ht
  constructor
  · rintro ⟨bs, start, m', hwritten, hreset, _, hequal, _⟩
    constructor
    · intro hstored
      obtain ⟨v, hv⟩ := hinto.get?_eq_some hstored
      unfold Registry.reset at hreset
      rw [hv] at hreset
      simp at hreset
    · exact Registry.throughout_of_step (fun m => faithful_of_shown hreg)
        ⟨hm, ⟨_, bs, hwritten⟩, _, _, hequal⟩
  · rintro ⟨hinit, hfaithful⟩
    obtain ⟨t', ht', htyped⟩ := hm.here
    cases ht.symm.trans ht'
    obtain ⟨bs, hwritten, hback⟩ := backed_encodeMessage hreg m.weight m (Nat.le_refl _) hm hfaithful
    obtain ⟨start, hreset, hfresh, hstart⟩ :=
      hinto.reset_eq hapart hintoType htyped.constructs hinit
    obtain ⟨m', hequal, hunknown, hmerge, _⟩ :=
      hback (hshort bs hwritten) t ht start hfresh (hstart.trans htype)
    refine ⟨bs, start, m', hwritten, hreset, hmerge, hequal.holds, fun t'' ht'' hset => ?_⟩
    cases ht.symm.trans ht''
    exact hunknown hset

/-- A message that has its oneof set. -/
def treeLeaf (attr : String) : Message where
  type := 0
  attrs := [(attr, .int 5), ("child", .null), ("o", .variant 2 "s" (.text "ab"))]

/-- A message with a message of its own class inside. -/
def treeMessage (attr : String) : Message where
  type := 0
  attrs := [(attr, .int 7), ("child", .message (treeLeaf attr)), ("o", .null)]

section

variable (hattr : attr ∉ "child" :: "o" :: reservedAttrs)
include hattr

theorem regular_treeRegistry : (treeRegistry attr).Regular := by
  rintro (_ | _ | _ | id) t ht
  · have hwf := wellFormed_treeRegistry hattr 0 t ht
    cases ht
    refine
      { hwf with
        entries := ?_, unset := ?_, compared := rfl, unsetOneofs := ?_, separate := ?_,
        groupMembers := ?_, apart := fun n h => ?_ }
    · intro f hf
      have hresolves := hwf.fields f hf
      rcases mem_pair.mp hf with rfl | rfl
      all_goals
        refine { toResolves := hresolves, wire := ?_, packed := fun h => ?_, group := fun h => ?_ }
        · rintro kind ⟨⟩
          rfl
        · cases h
        · cases h
    · intro f hf p hp _
      have hstart : p.start = .null := by
        rcases mem_cons.mp hp with rfl | hp
        · rfl
        rcases mem_pair.mp hp with rfl | rfl
        · rfl
        · rfl
      rcases mem_pair.mp hf with rfl | rfl
      · exact hstart
      · exact hstart
    · intro group hgroup p hp _
      rcases mem_cons.mp hp with rfl | hp
      · rfl
      rcases mem_pair.mp hp with rfl | rfl
      · rfl
      · rfl
    · intro group hgroup member hmember id vt hvariant hvt other hother
      cases mem_singleton.mp hgroup
      cases mem_singleton.mp hmember
      cases mem_singleton.mp hother
      cases hvariant
      cases hvt
      refine ⟨fun _ => rfl, fun base hbase => ?_⟩
      cases hbase
      intro h
      cases h
    · intro group hgroup member hmember hkind
      cases mem_singleton.mp hgroup
      cases mem_singleton.mp hmember
      cases hkind
    · cases h
  · cases ht
  · cases ht
  · cases ht

/-- Messages of the class are well-typed when their three values are. -/
theorem typed_tree (hcall : attributeFault? attr .null = none)
    (hv : ∃ n, v = .int n ∧ -2147483648 ≤ n ∧ n < 2147483648)
    (hin : child = .null ∨ ∃ inner : Message, child = .message inner ∧ inner.type = 0)
    (hset : o = .null ∨ ∃ s, o = .variant 2 "s" (.text s)) :
    (treeRegistry attr).Typed { type := 0, attrs := [(attr, v), ("child", child), ("o", o)] } := by
  refine ⟨_, rfl, ?_⟩
  refine
    { attrs := fun a => ?_, extensions := rfl, unknown := rfl, constructs := ?_,
      numbersOnce := fun _ h => ?_, unknownRecords := fun _ h => ?_, fields := ?_, oneofs := ?_,
      extension := fun _ h => ?_ }
  · exact Dictionary.isSome_get?
  · show List.findSome? (fun p : String × Value => attributeFault? p.1 p.2)
      [(attr, .null), ("child", .null), ("o", .null)] = none
    rw [findSome?_cons, hcall]
    rfl
  · cases h
  · cases h
  · intro f hf w hw
    rcases mem_pair.mp hf with rfl | rfl
    · have hw : v = w := by simpa [get?, Dictionary.get?, Field.slot] using hw
      obtain ⟨n, rfl, hn⟩ := hv
      exact .inr ⟨.int32, rfl, hw ▸ ⟨n, rfl, hn⟩⟩
    · have hchild := ne_of_not_mem_cons hattr
      have hw : child = w := by simpa [get?, Dictionary.get?, Field.slot, hchild] using hw
      rcases hin with rfl | ⟨inner, rfl, hinner⟩
      · exact .inl ⟨hw.symm, rfl, rfl⟩
      · refine .inr ⟨.message, rfl, inner, "u.U", hw.symm, rfl, ?_⟩
        rw [hinner]
        rfl
  · intro group hgroup w hw
    cases mem_singleton.mp hgroup
    have ho := ne_of_not_mem_cons (not_mem_of_not_mem_cons hattr)
    have hw : o = w := by simpa [get?, Dictionary.get?, ho] using hw
    rcases hset with rfl | ⟨s, rfl⟩
    · exact .inl hw.symm
    · exact .inr ⟨_, mem_singleton.mpr rfl, 2, _, .text s, rfl, rfl, hw.symm, rfl, s, rfl⟩
  · cases h

theorem typed_treeMessage (hcall : attributeFault? attr .null = none) :
    (treeRegistry attr).Typed (treeMessage attr) :=
  typed_tree hattr hcall ⟨7, rfl, by decide⟩ (.inr ⟨_, rfl, rfl⟩) (.inl rfl)

theorem typed_treeLeaf (hcall : attributeFault? attr .null = none) :
    (treeRegistry attr).Typed (treeLeaf attr) :=
  typed_tree hattr hcall ⟨5, rfl, by decide⟩ (.inl rfl) (.inr ⟨"ab", rfl⟩)

theorem inside_tree (hm : m = { type := 0, attrs := [(attr, v), ("child", child), ("o", o)] })
    (hset : o = .null ∨ ∃ s, o = .variant 2 "s" (.text s)) (htyped : (treeRegistry attr).Typed m)
    (h : (treeRegistry attr).Writes m inner) : child = .message inner := by
  have hreg := regular_treeRegistry hattr
  obtain ⟨t, ht, htypes⟩ := htyped
  have hclear := htypes.clear (hreg _ _ ht).toStoresApart
  obtain ⟨t', ht', _, hinside⟩ := h
  cases ht.symm.trans ht'
  rw [hclear.tableOf_eq, hclear.codecOf_eq] at hinside
  subst hm
  cases ht
  rcases hinside with ⟨_, f, w, ⟨⟩, hf, hw, hin⟩ | ⟨_, group, member, ⟨⟩, hgroup, _, hsets⟩
  · rcases mem_pair.mp hf with rfl | rfl
    · cases hin.1
    · have hchild := ne_of_not_mem_cons hattr
      have hw : child = w := by
        simpa [own?_eq_get? (show "child" ∉ reservedAttrs by decide), get?,
          Dictionary.get?, Field.slot, hchild] using hw
      exact hw.trans hin.2
  · obtain ⟨id, vt, _, hheld⟩ := held_of_sets (hreg 0 _ rfl) htypes.oneofs hgroup hsets
    cases mem_singleton.mp hgroup
    have ho := ne_of_not_mem_cons (not_mem_of_not_mem_cons hattr)
    have hheld : o = .variant id vt.stored (.message inner) := by
      simpa [get?, Dictionary.get?, ho] using hheld
    rcases hset with rfl | ⟨s, rfl⟩
    · cases hheld
    · injection hheld with _ _ hheld
      cases hheld

theorem throughout_treeMessage (hcall : attributeFault? attr .null = none)
    (htop : p (treeMessage attr)) (hleaf : p (treeLeaf attr)) :
    (treeRegistry attr).Throughout p (treeMessage attr) := by
  refine Registry.throughout_iff.mpr ⟨htop, fun inner hw => ?_⟩
  cases inside_tree hattr rfl (.inl rfl) (typed_treeMessage hattr hcall) hw
  refine Registry.throughout_iff.mpr ⟨hleaf, fun inner hw => ?_⟩
  cases inside_tree hattr rfl (.inr ⟨_, rfl⟩) (typed_treeLeaf hattr hcall) hw

end

theorem faithful_tree (htype : m.type = 0) : (treeRegistry "v").Faithful m := by
  intro t ht
  rw [htype] at ht
  cases ht
  refine ⟨by decide, by decide, ?_⟩
  rintro codec ⟨⟩ group hgroup id stored held _
  refine ⟨not_mem_nil, fun member hmember hvariant vt hvt => ?_⟩
  cases mem_singleton.mp hgroup
  cases mem_singleton.mp hmember
  cases hvariant
  cases hvt
  exact ⟨rfl, rfl, rfl, rfl⟩

theorem roundTrip_treeMessage :
    encode (treeRegistry "v") (treeMessage "v") = .ok [8, 7, 18, 6, 8, 5, 26, 2, 97, 98] ∧
      (treeRegistry "v").RoundTrips (treeMessage "v") (treeLeaf "v") ∧
      ¬(treeRegistry "__init__").RoundTrips (treeMessage "__init__") (treeLeaf "__init__") := by
  have hshort {bs : Bytes}
      (h : (.ok [8, 7, 18, 6, 8, 5, 26, 2, 97, 98] : Result Bytes) = .ok bs) :
      bs.length < 18446744073709551616 := by
    cases h
    simp
  refine ⟨rfl, ?_, fun h => ?_⟩
  · obtain ⟨t, ht, hinto⟩ := typed_treeLeaf v_free rfl
    have htyped := throughout_treeMessage v_free rfl (typed_treeMessage v_free rfl) ⟨t, ht, hinto⟩
    have hfaithful := throughout_treeMessage v_free rfl (faithful_tree rfl) (faithful_tree rfl)
    refine (roundTrip_iff_faithful (regular_treeRegistry v_free) htyped ht
      hinto.toInstance rfl fun bs hbs => hshort hbs).mpr ⟨?_, hfaithful⟩
    cases ht
    decide
  · have hattr : "__init__" ∉ "child" :: "o" :: reservedAttrs := by decide
    obtain ⟨t, ht, hinto⟩ := typed_treeLeaf hattr rfl
    have htyped := throughout_treeMessage hattr rfl (typed_treeMessage hattr rfl) ⟨t, ht, hinto⟩
    have hinit := ((roundTrip_iff_faithful (regular_treeRegistry hattr) htyped ht
      hinto.toInstance rfl fun bs hbs => hshort hbs).mp h).1
    cases ht
    exact hinit (by decide)

end Protobind

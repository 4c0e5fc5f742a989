import Protobind.Proofs.ExtensionAccess
import Protobind.Proofs.Reordering

/-!
# Messages with extensions

A message is reached from a fresh one by setting and clearing extensions and by merging data
(`ExtensionStep`). Setting a list without values leaves an entry without records, for which nothing
is written; but for such entries each step keeps the message well-typed (`Registry.Trims`).
-/

namespace Protobind

open List Dictionary Record Equality

open Decode (readers recordNumber Step)

variable {e raw : Bytes} {ext full other : RawMap} {items : List Value}
  {m m' : Message} {number : Int} {p : Int × Bytes} {raw? : Option Bytes} {reg : Registry}
  {t : MessageType}

/-! ## Stores with the same records -/

/-- Whether two stores hold the same records under every number. One of them may have an entry without
records where the other one has no entry. -/
def SameRecords (ext full : Dictionary Int Bytes) : Prop :=
  ∀ n, (full.get? n).getD [] = (ext.get? n).getD []

theorem SameRecords.update (h : SameRecords ext full) (number : Int) {raw'? : Option Bytes}
    (hraw : raw'?.getD [] = raw?.getD []) :
    SameRecords (ext.update number raw?) (full.update number raw'?) := by
  intro n
  rw [get?_update, get?_update]
  split
  · exact hraw
  · exact h n

section Stores

variable (hext : (ext.map (·.1)).Nodup) (hfull : (full.map (·.1)).Nodup)
  (hsame : SameRecords ext full)
include hext hfull hsame

theorem SameRecords.mem_iff (hne : p.2 ≠ []) : p ∈ full ↔ p ∈ ext := by
  obtain ⟨n, raw⟩ := p
  have hget : ∀ {d d' : RawMap}, (d.map (·.1)).Nodup →
      (d.get? n).getD [] = (d'.get? n).getD [] → (n, raw) ∈ d → (n, raw) ∈ d' := by
    intro d d' hd hrecords hmem
    rw [get?_of_mem hd hmem, Option.getD_some] at hrecords
    cases hsome : d'.get? n with
    | none =>
      rw [hsome] at hrecords
      exact absurd hrecords hne
    | some raw' =>
      rw [hsome, Option.getD_some] at hrecords
      rw [hrecords]
      exact mem_of_get? hsome
  exact ⟨hget hfull (hsame n), hget hext (hsame n).symm⟩

theorem SameRecords.flatMap_eq :
    (sortByNumber full).flatMap (·.2) = (sortByNumber ext).flatMap (·.2) := by
  have hfilter : ∀ l : RawMap, l.flatMap (·.2) = (l.filter (·.2 ≠ [])).flatMap (·.2) := by
    intro l
    induction l with
    | nil => rfl
    | cons p l ih =>
      by_cases hp : p.2 = []
      · rw [flatMap_cons, hp, filter_cons_of_neg (by simpa using hp), ← ih]
        rfl
      · rw [filter_cons_of_pos (by simpa using hp), flatMap_cons, flatMap_cons, ih]
  have hperm : (full.filter (·.2 ≠ [])).Perm (ext.filter (·.2 ≠ [])) := by
    refine (perm_ext_iff_of_nodup (.filter _ (.of_map _ hfull)) (.filter _ (.of_map _ hext))).mpr ?_
    intro p
    simp only [mem_filter, decide_eq_true_eq]
    exact and_congr_left fun hne => hsame.mem_iff hext hfull hne
  have hsorted : ((sortByNumber full).filter (·.2 ≠ [])).Perm ((sortByNumber ext).filter (·.2 ≠ [])) :=
    (((perm_sortByNumber full).filter _).trans hperm).trans ((perm_sortByNumber ext).filter _).symm
  rw [hfilter, hfilter (sortByNumber ext)]
  refine congrArg (List.flatMap (·.2)) (hsorted.eq_of_pairwise (fun p q hp hq hle hge => ?_)
    ((pairwise_sortByNumber full).filter _) ((pairwise_sortByNumber ext).filter _))
  have hmem : ∀ {r : Int × Bytes}, r ∈ (sortByNumber ext).filter (·.2 ≠ []) → r ∈ ext := fun hr =>
    (perm_sortByNumber ext).mem_iff.mp (mem_of_mem_filter hr)
  exact inj_on_of_nodup_map hext (hmem (hsorted.mem_iff.mp hp)) (hmem hq) (Int.le_antisymm hle hge)

theorem SameRecords.perm (hnone : ∀ p ∈ ext, p.2 ≠ []) (hnone' : ∀ p ∈ full, p.2 ≠ []) :
    full.Perm ext := by
  refine (perm_ext_iff_of_nodup (.of_map _ hfull) (.of_map _ hext)).mpr fun p => ⟨fun hp => ?_, fun hp => ?_⟩
  · exact (hsame.mem_iff hext hfull (hnone' p hp)).mp hp
  · exact (hsame.mem_iff hext hfull (hnone p hp)).mpr hp

end Stores

theorem nodup_update (h : (ext.map (·.1)).Nodup) : ((ext.update number raw?).map (·.1)).Nodup := by
  cases raw? with
  | some raw => exact nodup_set h
  | none =>
    have hsub : (ext.erase number).Sublist ext := filter_sublist
    exact (hsub.map (·.1)).nodup h

theorem MessageType.Extensions.update (h : t.Extensions ext)
    (hraw : ∀ raw, raw? = some raw → t.Stores number raw) :
    t.Extensions (ext.update number raw?) := by
  cases raw? with
  | some raw => exact h.set (hraw raw rfl)
  | none => exact ⟨nodup_update h.1, fun n raw hmem => h.2 n raw (mem_of_mem_filter hmem)⟩

/-! ## Values of extensions -/

/-- Whether a value may be set as an extension: it is of the declared kind, single or in a list, and so are
the messages in it; numbers and texts are as the encoder takes them. Its records are not too long to be
read. -/
structure Extension.Declares (reg : Registry) (ext : Extension) (slot : Slot) (v : Value) : Prop extends
    ext.Describes reg slot where
  takes : (Field.plain slot).Takes reg (fun _ _ => True) v
  inside : ∀ inner, (Field.plain slot).Holds v inner → reg.Throughout (reg.Takes fun _ _ => True) inner
  short : ∀ raw, Encode.field (encodeMessage reg v.weight) (.plain slot) true v = .ok raw →
    raw.length < 18446744073709551616

theorem Encode.single_ne_nil {write : Writer} {slot : Slot} {v : Value} {bs : Bytes}
    (h : Encode.single write slot v = .ok bs) : bs ≠ [] := by
  unfold Encode.single at h
  simp only at h
  split at h
  · obtain ⟨body, _, h⟩ := bind_eq_ok.mp h
    cases h
    simp [writeKey_ne_nil]
  · obtain ⟨body, _, h⟩ := bind_eq_ok.mp h
    cases h
    simp [writeKey_ne_nil]

namespace Extension.Declares

variable {ext : Extension} {slot : Slot} {v : Value} (h : ext.Declares reg slot v)
  (hraw : Encode.field (encodeMessage reg v.weight) (.plain slot) true v = .ok raw)
include h hraw

/-- What is written of a value is a sequence of records of the number of the extension. -/
theorem records (hreg : reg.Regular) (hrange : IsNumber ext.number) :
    RecordsOf (fun n => (n : Int) = ext.number) raw := by
  have hnumber : FitsKey slot.tag.number := h.number ▸ hrange.fitsKey
  have hrecords := records_field (f := .plain slot) h.regular hnumber h.takes hraw (h.short raw hraw)
    fun inner hholds => records_encodeMessage hreg _ inner (h.inside inner hholds)
  rwa [show (Field.plain slot).number = ext.number from h.number] at hrecords

theorem eq_nil (hnull : v.isNull = false) (hnone : raw = []) : v = .list [] := by
  subst hnone
  have htakes := h.takes
  simp only [Field.Takes] at htakes
  unfold Encode.field at hraw
  rw [if_neg (by simp [isMap_eq_false h.regular])] at hraw
  split at hraw
  · rename_i hrepeated
    rw [if_pos hrepeated] at htakes
    obtain ⟨items, rfl, _⟩ := htakes
    cases items with
    | nil => rfl
    | cons first rest =>
      rw [if_neg (by simp [Value.truthy])] at hraw
      split at hraw
      · obtain ⟨_, _, hraw⟩ := bind_eq_ok.mp hraw
        obtain ⟨packed, _, hraw⟩ := bind_eq_ok.mp hraw
        simp [pure, Except.pure, writeKey_ne_nil] at hraw
      · obtain ⟨head, hhead, hraw⟩ := bind_eq_ok.mp (show Encode.each _ (first :: rest) = .ok [] from hraw)
        obtain ⟨tail, _, hraw⟩ := bind_eq_ok.mp hraw
        have := Encode.single_ne_nil hhead
        simp [pure, Except.pure, this] at hraw
  · rw [if_neg (by simp [hnull]), if_neg (by simp)] at hraw
    exact absurd rfl (Encode.single_ne_nil hraw)

end Extension.Declares

/-! ## Steps -/

/-- A step that changes a message: a call on one of its extensions, or data that is merged into it. -/
inductive ExtensionStep where
  | call (c : ExtensionCall)
  | merge (data : Bytes)

namespace ExtensionStep

/-- The message behind a step, if the step succeeds. -/
def make (reg : Registry) (m : Message) : ExtensionStep → Option Message
  | .call c =>
    match c.make reg (.message m) with
    | .ok (.message m') => some m'
    | _ => none
  | .merge data =>
    match Protobind.merge reg m data with
    | .done m' _ => some m'
    | .failed .. => none

/-- Whether a step sets nothing but values of the declared kinds. -/
def Declared (reg : Registry) : ExtensionStep → Prop
  | .call (.set ext v) => ∃ slot, ext.Declares reg slot v
  | _ => True

/-- Whether a step sets the extension of a number to a list without values. -/
def Empties (number : Int) (s : ExtensionStep) : Prop :=
  ∃ ext : Extension, s = .call (.set ext (.list [])) ∧ ext.number = number

end ExtensionStep

/-- Whether a message has a store of extensions that turns it into a well-typed one when another store with
the same records stands in its place. -/
structure Registry.Trims (reg : Registry) (m : Message) (ext full : Dictionary Int Bytes) : Prop where
  store : m.extensions? = some ext
  once : (ext.map (·.1)).Nodup
  same : SameRecords ext full
  filled : (Value.message { m with extensions? := some full }).Filled reg Kind.Reads

namespace Registry.Trims

variable (hreg : reg.Regular) (ht : m.HasType reg t) (h : reg.Trims m ext full)
include h

include ht

theorem takes : t.Takes reg Kind.Reads (m.keeping full) :=
  ((Value.filled_message (m := m.keeping full) ht).mp h.filled).1

theorem extensions : t.Extensions full :=
  ⟨(h.takes ht).numbersOnce full rfl, fun n raw hmem => (h.takes ht).extension full rfl n raw hmem⟩

theorem ne_nil (hset : t.isMessageSet = false) (hp : p ∈ full) : p.2 ≠ [] := by
  obtain ⟨_, hraw⟩ := (h.extensions ht).2 p.1 p.2 hp
  unfold MessageType.KeepsRaw at hraw
  rw [if_neg (by simp [hset])] at hraw
  exact hraw.1

include hreg

theorem clear : m.Clear := (h.takes ht).clear (hreg _ _ ht).toStoresApart

/-- A call on an extension keeps a message well-typed but for entries without records. It makes such an
entry only if it sets a list without values. -/
theorem of_call (hset : t.isMessageSet = false) {c : ExtensionCall}
    (hc : (ExtensionStep.call c).Declared reg)
    (hmake : (ExtensionStep.call c).make reg m = some m') :
    m'.type = m.type ∧ ∃ ext' full', reg.Trims m' ext' full' ∧ ∀ n, ext'.get? n = some [] →
      ext.get? n = some [] ∨ (ExtensionStep.call c).Empties n := by
  have hclear := h.clear hreg ht
  have hcall := ExtensionCall.make_store reg hclear ext c
  rw [keeping_eq h.store] at hcall
  rcases hcall with ⟨raw?, hleaves, hcall⟩ | ⟨_, fault, hcall⟩
  · simp only [ExtensionStep.make, hcall] at hmake
    cases hmake
    have hraw : ∀ raw, raw? = some raw → inRanges c.extension.number t.ranges = true ∧
        RecordsOf (fun n => (n : Int) = c.extension.number) raw ∧
        (raw = [] → (ExtensionStep.call c).Empties c.extension.number) := by
      rintro raw rfl
      cases c with
      | clear ext => cases hleaves
      | set ext v =>
        obtain ⟨hcheck, hnull, f, raw', hfield, hwritten, heq⟩ := hleaves
        cases heq
        obtain ⟨slot, hslot⟩ := hc
        cases hfield.symm.trans hslot.field
        have hin := inRanges_of_checkExtendable hreg ht hclear hcheck
        refine ⟨hin, hslot.records hwritten hreg ((hreg _ _ ht).apart _ hin).1, fun hnone => ?_⟩
        rw [hslot.eq_nil hwritten hnull hnone]
        exact ⟨ext, rfl, rfl⟩
    refine ⟨rfl, _, full.update c.extension.number (raw?.filter (· ≠ [])),
      ⟨rfl, nodup_update h.once, h.same.update _ ?_, ?_⟩, fun n hn => ?_⟩
    · cases raw? with
      | none => rfl
      | some raw =>
        cases raw with
        | nil => rfl
        | cons b raw => rfl
    · refine (h.filled.records ht (some (full.update c.extension.number (raw?.filter (· ≠ []))))
        m.unknown? (h.takes ht).extensions (h.takes ht).unknown ?_ (h.takes ht).unknownRecords).1
      rintro _ ⟨⟩
      refine (h.extensions ht).update fun raw hsome => ?_
      obtain ⟨hsome, hne⟩ := Option.filter_eq_some_iff.mp hsome
      obtain ⟨hin, hrecords, _⟩ := hraw raw hsome
      unfold MessageType.Stores MessageType.KeepsRaw
      rw [if_neg (by simp [hset]), if_neg (by simp [hset])]
      exact ⟨hin, by simpa using hne, hrecords⟩
    · rw [get?_update] at hn
      split at hn
      · rename_i hnumber
        exact .inr (hnumber ▸ (hraw [] hn).2.2 rfl)
      · exact .inl hn
  · simp only [ExtensionStep.make, hcall] at hmake
    cases hmake

end Registry.Trims

/-! ## Merging -/

/-- A record that no field takes is added to the entry of its number, or to the unknown records. -/
theorem Decode.keep_store (ranges : List FieldRange) (hm : m.Clear) (store : RawMap)
    (n : Nat) (raw : Bytes) :
    keep ranges (m.keeping store) n raw =
      .ok (if inRanges n ranges then
        m.keeping (update n (some ((store.get? (n : Int)).getD [] ++ raw)) store)
      else { m with extensions? := some store, unknown? := m.unknown?.map (· ++ raw) }) := by
  have hclear : Clear (m.keeping store) := hm
  unfold keep
  split
  · rw [hclear.extensionStore?_eq]
    rfl
  · exact hclear.addUnknown_eq raw

/-- Whether a message has a store with the records of another one, and entries without records only where
a third store has them. -/
structure Tracks (start : Dictionary Int Bytes) (m : Message) (ext full : Dictionary Int Bytes) : Prop where
  clear : m.Clear
  store : m.extensions? = some ext
  once : (ext.map (·.1)).Nodup
  same : SameRecords ext full
  empty : ∀ n, ext.get? n = some [] → start.get? n = some []

section Tracks

variable (hclass : t.Regular reg) {start : RawMap}
include hclass

/-- A record does the same to a message with another store of the same records. -/
theorem Tracks.step (h : Tracks start m ext full) (hstep : Step reg t m raw m') :
    ∃ ext' full', Tracks start m' ext' full' ∧
      Step reg t (m.keeping full) raw (m'.keeping full') := by
  obtain ⟨hclear, hstore, honce, hsame, hempty⟩ := h
  have hne : raw ≠ [] := by
    rintro rfl
    obtain ⟨⟨tag, value, hkey, _⟩, _⟩ := hstep
    cases hkey
  rcases Decode.step_cases hclass.toWellFormed hstep with ⟨f, hf, _, current, v, hcurrent, rfl, hany⟩ |
    ⟨group, hgroup, _, _, _, v, _, rfl, hany⟩ | ⟨_, hkeep, hany⟩
  · exact ⟨ext, full, ⟨hclear.set (hclass.field_attr_free hf) v, hstore, honce, hsame, hempty⟩,
      hany (m.keeping full) hcurrent⟩
  · exact ⟨ext, full, ⟨hclear.set (hclass.group_attr_free hgroup) v, hstore, honce, hsame, hempty⟩,
      hany (m.keeping full)⟩
  · have hkept := Decode.keep_store t.ranges hclear ext (recordNumber raw) raw
    have hkept' := hany _ _ (Decode.keep_store t.ranges hclear full (recordNumber raw) raw)
    rw [keeping_eq hstore, hkeep] at hkept
    cases hkept
    split at hkept'
    · rename_i hin
      rw [if_pos hin]
      refine ⟨_, _, ⟨hclear, rfl, nodup_update honce, hsame.update _ ?_, fun n hn => ?_⟩, hkept'⟩
      · rw [Option.getD_some, Option.getD_some, hsame]
      · rw [get?_update] at hn
        split at hn
        · simp [hne] at hn
        · exact hempty n hn
    · rename_i hin
      rw [if_neg hin]
      exact ⟨ext, full, ⟨hclear, rfl, honce, hsame, hempty⟩, hkept'⟩

theorem Tracks.run {rs : List Bytes} (hrun : Run (Step reg t) m rs m') :
    ∀ {ext full : RawMap}, Tracks start m ext full → ∃ ext' full', Tracks start m' ext' full' ∧
      Run (Step reg t) (m.keeping full) rs (m'.keeping full') := by
  induction hrun with
  | nil => exact fun h => ⟨_, _, h, .nil⟩
  | cons hstep _ ih =>
    intro ext full h
    obtain ⟨_, _, h₁, hstep'⟩ := h.step hclass hstep
    obtain ⟨ext', full', h', hrest⟩ := ih h₁
    exact ⟨ext', full', h', .cons hstep' hrest⟩

end Tracks

/-- Merging data keeps a message well-typed but for entries without records, and makes no such entry. -/
theorem Registry.Trims.of_merge (hreg : reg.Regular) (hstores : reg.StoresOneofs)
    (ht : m.HasType reg t) (hset : t.isMessageSet = false)
    (h : reg.Trims m ext full) {data : Bytes}
    (hmake : (ExtensionStep.merge data).make reg m = some m') :
    m'.type = m.type ∧ ∃ ext' full', reg.Trims m' ext' full' ∧
      ∀ n, ext'.get? n = some [] → ext.get? n = some [] := by
  have hclear := h.clear hreg ht
  cases hmerge : Protobind.merge reg m data with
  | failed fault state =>
    simp only [ExtensionStep.make, hmerge] at hmake
    cases hmake
  | done m₁ rest =>
    simp only [ExtensionStep.make, hmerge] at hmake
    cases hmake
    cases merge_rest hmerge
    rw [merge_of_clear ht (hreg _ _ ht).toSettled hclear hset] at hmerge
    obtain ⟨rs, rfl, hrun⟩ := Decode.exists_run_of_records hmerge
    obtain ⟨ext', full', htracks, hrun'⟩ :=
      Tracks.run (hreg _ _ ht) hrun ⟨hclear, h.store, h.once, h.same, fun _ hn => hn⟩
    have hread := Decode.records_of_run hrun'
    rw [← merge_of_clear (m := m.keeping full) ht (hreg _ _ ht).toSettled hclear hset] at hread
    obtain ⟨hfilled, htype⟩ := (Decode.grows_merge hreg hstores h.filled _).of_done hread
    exact ⟨htype, ext', full', ⟨htracks.store, htracks.once, htracks.same, hfilled⟩, htracks.empty⟩

/-- Steps keep a message well-typed but for entries without records. There is such an entry only where an
extension was set to a list without values. -/
theorem Registry.Trims.of_steps (hreg : reg.Regular) (hstores : reg.StoresOneofs)
    (hset : t.isMessageSet = false) (steps : List ExtensionStep) :
    ∀ {m m' : Message} {ext full : RawMap}, m.HasType reg t →
      reg.Trims m ext full → (∀ s ∈ steps, s.Declared reg) →
      steps.foldlM (ExtensionStep.make reg) m = some m' →
        m'.type = m.type ∧ ∃ ext' full', reg.Trims m' ext' full' ∧ ∀ n, ext'.get? n = some [] →
          ext.get? n = some [] ∨ ∃ s ∈ steps, s.Empties n := by
  induction steps with
  | nil =>
    intro m m' ext full _ h _ hrun
    cases hrun
    exact ⟨rfl, ext, full, h, fun n hn => .inl hn⟩
  | cons s steps ih =>
    intro m m' ext full ht h hdeclared hrun
    rw [foldlM_cons] at hrun
    obtain ⟨m₁, hmake, hrun⟩ := Option.bind_eq_some_iff.mp hrun
    have hstep : m₁.type = m.type ∧ ∃ ext₁ full₁, reg.Trims m₁ ext₁ full₁ ∧
        ∀ n, ext₁.get? n = some [] → ext.get? n = some [] ∨ s.Empties n := by
      cases s with
      | call c => exact h.of_call hreg ht hset (hdeclared _ mem_cons_self) hmake
      | merge data =>
        obtain ⟨htype, ext₁, full₁, h₁, hempty⟩ := h.of_merge hreg hstores ht hset hmake
        exact ⟨htype, ext₁, full₁, h₁, fun n hn => .inl (hempty n hn)⟩
    obtain ⟨htype, ext₁, full₁, h₁, hempty⟩ := hstep
    obtain ⟨htype', ext', full', h', hempty'⟩ :=
      ih (ht.of_eq htype) h₁ (fun s hs => hdeclared s (mem_cons_of_mem _ hs)) hrun
    refine ⟨htype'.trans htype, ext', full', h', fun n hn => ?_⟩
    rcases hempty' n hn with hn | ⟨s', hs', hn⟩
    · exact (hempty n hn).imp_right fun hs => ⟨s, mem_cons_self, hs⟩
    · exact .inr ⟨s', mem_cons_of_mem _ hs', hn⟩

/-! ## What the store does not change -/

theorem Encode.each_congr {α : Type} {part part' : α → Result Bytes} {parts : List α}
    (h : ∀ a ∈ parts, part a = part' a) : Encode.each part parts = Encode.each part' parts := by
  induction parts with
  | nil => rfl
  | cons a parts ih =>
    unfold Encode.each
    rw [h a mem_cons_self, ih fun b hb => h b (mem_cons_of_mem _ hb)]

theorem Record.weight_eq (m : Message) :
    m.weight = Value.weightAttrs m.attrs + 2 * m.extensionBytes.length + 1 := by
  have hraw : ∀ store : RawMap, Value.rawWeight store = 2 * (store.flatMap (·.2)).length := by
    intro store
    induction store with
    | nil => rfl
    | cons p store ih =>
      rw [Value.rawWeight, ih, flatMap_cons, length_append]
      omega
  have hsorted := ((perm_sortByNumber (m.extensions?.getD [])).flatMap_right (·.2)).length_eq
  unfold weight extensionBytes sortedExtensions
  rw [hsorted, ← hraw]
  cases m
  rw [Value.weight]

section Store

variable (hclass : t.Regular reg) (hm : m.Clear) (ht : m.HasType reg t)
  (store? : Option (RawMap))
include hclass

theorem own?_store {attr : String} (hattr : attr ∈ t.codecAttrs) :
    own? { m with extensions? := store? } attr = m.own? attr := by
  have hfree := hclass.attrsFree attr hattr
  rw [own?_eq_get? hfree, own?_eq_get? hfree]
  rfl

include hm ht

theorem writes_store {inner : Message} :
    reg.Writes { m with extensions? := store? } inner ↔ reg.Writes m inner := by
  have hgo : ∀ {m u : Message}, m.Clear → u.Clear → m.HasType reg t → u.type = m.type →
      (∀ attr ∈ t.codecAttrs, u.own? attr = m.own? attr) → reg.Writes m inner → reg.Writes u inner := by
    rintro m u hm hu ht htype hown ⟨t', ht', hset, h⟩
    cases ht.symm.trans ht'
    refine ⟨t, ht.of_eq htype, hset, h.imp ?_ ?_⟩
    · rintro ⟨table, f, v, htable, hf, hv, hholds⟩
      rw [hm.tableOf_eq] at htable
      cases htable
      exact ⟨_, f, v, hu.tableOf_eq t, hf,
        (hown _ (mem_append_left _ (mem_map_of_mem hf))).trans hv, hholds⟩
    · rintro ⟨codec, group, member, hcodec, hgroup, hmessage, v, hv, hset⟩
      rw [hm.codecOf_eq] at hcodec
      have hmem := group_of_codec (Except.ok.inj hcodec) hgroup
      exact ⟨codec, group, member, (hu.codecOf_eq t).trans hcodec, hgroup, hmessage, v,
        (hown _ (mem_append_right _ (mem_map_of_mem hmem))).trans hv, hset⟩
  have hstore : Clear { m with extensions? := store? } := hm
  exact ⟨hgo hstore hm ht rfl fun attr hattr => (own?_store hclass store? hattr).symm,
    hgo hm hstore ht rfl fun attr hattr => own?_store hclass store? hattr⟩

theorem throughout_faithful_store :
    reg.Throughout reg.Faithful { m with extensions? := store? } ↔ reg.Throughout reg.Faithful m := by
  have hhere : reg.Faithful { m with extensions? := store? } ↔ reg.Faithful m :=
    ⟨fun h t ht => ⟨(h t ht).stores, (h t ht).compares, (h t ht).oneofs⟩,
      fun h t ht => ⟨(h t ht).stores, (h t ht).compares, (h t ht).oneofs⟩⟩
  rw [Registry.throughout_iff, Registry.throughout_iff (m := m)]
  exact and_congr hhere (forall_congr' fun inner => imp_congr_left (writes_store hclass hm ht store?))

theorem encode_store (hset : t.isMessageSet = false)
    (hbytes : extensionBytes { m with extensions? := store? } = m.extensionBytes) :
    encode reg { m with extensions? := store? } = encode reg m := by
  have hstore : Clear { m with extensions? := store? } := hm
  obtain ⟨fuel, hfuel⟩ := Nat.exists_eq_add_one.mpr m.weight_pos
  have hweight : weight { m with extensions? := store? } = m.weight := by
    rw [weight_eq, weight_eq, hbytes]
  unfold encode
  rw [hweight, hfuel, encodeMessage, encodeMessage, message_eq_each ht hset hm,
    message_eq_each (m := { m with extensions? := store? }) ht hset hstore, hbytes]
  congr 1
  refine Encode.each_congr fun part hpart => ?_
  have hattr : part.attr ∈ t.codecAttrs := t.parts_attrs reg ▸ mem_map_of_mem hpart
  unfold Part.of require
  rw [own?_store hclass store? hattr]

end Store

/-! ## Equal messages with other stores -/

theorem Dictionary.get?_of_perm (hext : (ext.map (·.1)).Nodup) (h : other.Perm ext) (n : Int) :
    other.get? n = ext.get? n := by
  have hother : (other.map (·.1)).Nodup := (h.map (·.1)).nodup_iff.mpr hext
  cases hget : ext.get? n with
  | some raw => exact get?_of_mem hother (h.mem_iff.mpr (mem_of_get? hget))
  | none =>
    cases hget' : other.get? n with
    | none => rfl
    | some raw =>
      have hmem := get?_of_mem hext (h.mem_iff.mp (mem_of_get? hget'))
      rw [hget] at hmem
      cases hmem

section Equal

variable (hclass : t.Regular reg) {n : Message} (hm : m.Clear) (hn : n.Clear)
  (ht : m.HasType reg t) (htype : n.type = m.type) {fuel : Nat}
include hm ht htype

theorem Equality.bounded_message_eq_true :
    bounded reg (fuel + 1) false (.message m) (.message n) = .ok true ↔
      m.has "_compared_attributes" = false ∧
        allAttrs (bounded reg fuel false) m n (t.fields.map (·.slot.attr) ++ t.oneofs) = .ok true ∧
        sameExtensions (bounded reg fuel false) m.extensionStore? n.extensionStore? = .ok true := by
  rw [bounded_message ht (by rw [htype]) hm]
  cases m.has "_compared_attributes" with
  | true => simp
  | false =>
    rw [if_neg (by simp)]
    cases allAttrs (bounded reg fuel false) m n (t.fields.map (·.slot.attr) ++ t.oneofs) with
    | error fault => simp [bind, Except.bind]
    | ok same => cases same <;> simp [bind, Except.bind, pure, Except.pure]

include hn

theorem perm_of_equal (hext : m.extensions? = some ext) (hother : n.extensions? = some other)
    (honce : (ext.map (·.1)).Nodup)
    (h : bounded reg (fuel + 1) false (.message m) (.message n) = .ok true) :
    other.Perm ext := by
  obtain ⟨_, _, hsame⟩ := (bounded_message_eq_true hm ht htype).mp h
  rw [hm.extensionStore?_eq, hn.extensionStore?_eq, hext, hother] at hsame
  have hsame : (ext.length == other.length && ext.all fun p => other.get? p.1 == some p.2) = true :=
    Except.ok.inj hsame
  obtain ⟨hlength, hall⟩ := Bool.and_eq_true_iff.mp hsame
  have hsub : ext ⊆ other := by
    intro p hp
    have := all_eq_true.mp hall p hp
    exact mem_of_get? (beq_iff_eq.mp this)
  have hle : other.length ≤ ext.length := Nat.le_of_eq (beq_iff_eq.mp hlength).symm
  exact ((subperm_of_subset (.of_map _ honce) hsub).perm_of_length_le hle).symm

include hclass

theorem equal_of_stores (honce : (ext.map (·.1)).Nodup) (hperm : other.Perm ext)
    (h : bounded reg (fuel + 1) false (.message m) (.message n) = .ok true) :
    bounded reg (fuel + 1) false (.message (m.keeping ext))
      (.message (n.keeping other)) = .ok true := by
  obtain ⟨hcompared, hattrs, _⟩ := (bounded_message_eq_true hm ht htype).mp h
  have hm' : Clear (m.keeping ext) := hm
  have hn' : Clear (n.keeping other) := hn
  refine (bounded_message_eq_true (n := n.keeping other) hm' ht htype).mpr ⟨?_, ?_, ?_⟩
  · unfold has at hcompared ⊢
    rw [own?_eq_get? (by decide)] at hcompared ⊢
    exact hcompared
  · have hall : ∀ attrs, (∀ attr ∈ attrs, attr ∈ t.codecAttrs) →
        allAttrs (bounded reg fuel false) (m.keeping ext)
          (n.keeping other) attrs =
        allAttrs (bounded reg fuel false) m n attrs := by
      intro attrs hsub
      induction attrs with
      | nil => rfl
      | cons attr attrs ih =>
        unfold allAttrs
        have hattr := hsub attr mem_cons_self
        rw [own?_store hclass (m := m) (some ext) hattr, own?_store hclass (m := n) (some other) hattr,
          ih fun a ha => hsub a (mem_cons_of_mem _ ha)]
    rw [hclass.compared] at hattrs ⊢
    exact (hall t.codecAttrs fun _ hattr => hattr).trans hattrs
  · rw [hm'.extensionStore?_eq, hn'.extensionStore?_eq]
    exact sameExtensions_of_perm _ honce hperm

end Equal

/-! ## The round trip -/

/-- Whether data reads, into a message that was emptied, as a message that is equal to a given one and has
the same extensions. -/
def Registry.Recovers (reg : Registry) (m into : Message) (e : Bytes) : Prop :=
  ∃ start m', reg.reset into = .ok start ∧ merge reg start e = .done m' [] ∧
    equalValues reg false (.message m) (.message m') = .ok true ∧
    ∀ d : Extension, hasExtension (.message m') d = hasExtension (.message m) d

theorem hasExtension_eq (hm : m.Clear) (hext : m.extensions? = some ext) (d : Extension) :
    hasExtension (.message m) d = .ok (ext.get? d.number).isSome := by
  unfold hasExtension Value.extensionStore?
  simp only [hm.extensionStore?_eq, hext]
  rfl

section Recovers

variable (hreg : reg.Regular) (hstores : reg.StoresOneofs) (ht : m.HasType reg t)
  (hset : t.isMessageSet = false) (h : reg.Trims m ext full) (hnan : reg.NaNFree (.message m))
include hreg ht h hnan

omit hreg ht in
theorem Registry.Trims.accepts : (Value.message (m.keeping full)).Filled reg Kind.Accepts := by
  refine h.filled.accepts fun d hd => ?_
  cases hd with
  | attr ht hattr hget hd => exact hnan d (.attr ht hattr hget hd)

omit hreg hnan in
theorem Registry.Trims.extensionBytes_eq :
    extensionBytes (m.keeping full) = m.extensionBytes := by
  unfold extensionBytes sortedExtensions
  rw [h.store]
  exact h.same.flatMap_eq h.once (h.extensions ht).1

include hset

omit hnan in
theorem Registry.Trims.encode_eq : encode reg (m.keeping full) = encode reg m :=
  encode_store (hreg _ _ ht) (h.clear hreg ht) ht _ hset (h.extensionBytes_eq ht)

theorem Registry.Trims.lacks (hfaithful : reg.Throughout reg.Faithful m) {fault : Fault}
    (hfault : encode reg m = .error fault) :
    ∃ inner name, Relation.ReflTransGen reg.Writes m inner ∧ reg.Lacks inner name ∧
      fault = .unencodable (.requiredUnset name) := by
  have hclear := h.clear hreg ht
  rw [← h.encode_eq hreg ht hset] at hfault
  obtain ⟨inner, name, hpath, hlacks, hname⟩ := lacks_of_failed hreg _ _ (Nat.le_refl _) (h.accepts hnan)
    ((throughout_faithful_store (hreg _ _ ht) hclear ht _).mpr hfaithful) hfault
  rcases hpath.cases_head with rfl | ⟨next, hwrites, hpath⟩
  · exact ⟨m, name, .refl, hlacks, hname⟩
  · exact ⟨inner, name, .head ((writes_store (hreg _ _ ht) hclear ht _).mp hwrites) hpath, hlacks, hname⟩

include hstores

omit h hnan in
theorem extensions_of_read (hextensible : t.hasExtensions = true) {other start : Message}
    (hother : t.Instance other) (htype : other.type = m.type) (hreset : reg.reset other = .ok start)
    (hmerge : merge reg start e = .done m' []) :
    m'.Clear ∧ m'.type = m.type ∧ ∃ ext', m'.extensions? = some ext' ∧ ∀ p ∈ ext', p.2 ≠ [] := by
  obtain ⟨_, hstart, hstartType⟩ := grows_reset hreg (ht.of_eq htype) hother hreset
  obtain ⟨hm', hmType⟩ := (Decode.grows_merge hreg hstores hstart e).of_done hmerge
  have htype' : m'.type = m.type := hmType.trans (hstartType.trans htype)
  have htakes := ((Value.filled_message (ht.of_eq htype')).mp hm').1
  obtain ⟨ext', hext'⟩ := Option.isSome_iff_exists.mp (htakes.extensions.trans hextensible)
  refine ⟨htakes.clear (hreg _ _ ht).toStoresApart, htype', ext', hext', ?_⟩
  have htrims : reg.Trims m' ext' ext' :=
    ⟨hext', htakes.numbersOnce ext' hext', fun _ => rfl, by rw [← hext']; exact hm'⟩
  exact fun p hp => htrims.ne_nil (ht.of_eq htype') hset hp

theorem Registry.Trims.recovers_iff {other : Message} (hextensible : t.hasExtensions = true)
    (hother : t.Instance other) (htype : other.type = m.type) (hinit : "__init__" ∉ t.storedAttrs)
    (hwritten : encode reg m = .ok e) (hshort : Short e) : reg.Recovers m other e ↔
      reg.Throughout reg.Faithful m ∧ ∀ n, ext.get? n ≠ some [] := by
  have hclass := hreg _ _ ht
  have hclear := h.clear hreg ht
  have hfull := (h.extensions ht).1
  have hwritten' := (h.encode_eq hreg ht hset).trans hwritten
  have hpositive : ∀ m' : Message, ∃ k, (Value.message m).weight + (Value.message m').weight = k + 1 := by
    intro m'
    have := Value.weight_pos (.message m)
    exact ⟨(Value.message m).weight + (Value.message m').weight - 1, by omega⟩
  constructor
  · rintro ⟨start, m', hreset, hmerge, hequal, _⟩
    obtain ⟨hclear', htype', ext', hext', hnone⟩ :=
      extensions_of_read hreg hstores ht hset hextensible hother htype hreset hmerge
    obtain ⟨k, hk⟩ := hpositive m'
    unfold equalValues at hequal
    rw [hk] at hequal
    refine ⟨?_, fun n hn => ?_⟩
    · have hsame := equal_of_stores hclass hclear hclear' ht htype' hfull (.refl full) hequal
      exact (throughout_faithful_store hclass hclear ht _).mp
        (throughout_faithful hreg (h.accepts hnan) ⟨_, e, hwritten'⟩ ⟨_, _, hsame⟩)
    · have hperm := perm_of_equal hclear hclear' ht htype' h.store hext' h.once hequal
      exact hnone _ (hperm.mem_iff.mpr (mem_of_get? hn)) rfl
  · rintro ⟨hfaithful, hnone⟩
    obtain ⟨start, m', hreset, hmerge, hequal, _⟩ := exists_equal_read hreg (h.accepts hnan) ht
      ((throughout_faithful_store hclass hclear ht _).mpr hfaithful) hwritten' hshort hother htype hinit
    obtain ⟨hclear', htype', ext', hext', _⟩ :=
      extensions_of_read hreg hstores ht hset hextensible hother htype hreset hmerge
    obtain ⟨k, hk⟩ := hpositive m'
    have hequal : bounded reg (k + 1) false (.message (m.keeping full))
        (.message m') = .ok true := by
      have hweight : weight (m.keeping full) = m.weight := by
        rw [weight_eq, weight_eq, h.extensionBytes_eq ht]
      have hpos := Value.weight_pos (.message m')
      refine hequal _ ?_
      show weight (m.keeping full) < k + 1
      rw [hweight, ← hk]
      exact Nat.lt_add_of_pos_right hpos
    have hstore : Clear (m.keeping full) := hclear
    have hnone' : ∀ p ∈ ext, p.2 ≠ [] := fun p hp hnil =>
      hnone p.1 (hnil ▸ get?_of_mem h.once hp)
    have hperm : ext'.Perm ext :=
      (perm_of_equal hstore hclear' ht htype' rfl hext' hfull hequal).trans
        (h.same.perm h.once hfull hnone' fun p hp => h.ne_nil ht hset hp)
    refine ⟨start, m', hreset, hmerge, ?_, fun d => ?_⟩
    · have hsame := equal_of_stores hclass hstore hclear' ht htype' h.once hperm hequal
      unfold equalValues
      rw [hk]
      rwa [show (m.keeping full).keeping ext = m from keeping_eq h.store, keeping_eq hext'] at hsame
    · rw [hasExtension_eq hclear' hext', hasExtension_eq hclear h.store, get?_of_perm h.once hperm]

end Recovers

/-- Extensions and the wire. Let a message be reached from an emptied one by setting extensions to values of
their kinds, clearing them and merging data, and hold no NaN. If it is stored, written and compared by the
names that its classes have, only a required field that is unset in it or in a message inside keeps it from
being written. What is written of it is read as an equal message with the same extensions exactly in that
case, and if no entry of its store is without records. Only an extension that was set to a list without
values has such an entry. -/
theorem extended_roundTrip {reg : Registry} (hreg : reg.Regular) (hstores : reg.StoresOneofs)
    {into other start m : Message} {t : MessageType} (ht : reg.messageType? into.type = some t)
    (hset : t.isMessageSet = false) (hextensible : t.hasExtensions = true) (hinto : t.Instance into)
    (hother : t.Instance other) (htype : other.type = into.type) (hreset : reg.reset into = .ok start)
    {steps : List ExtensionStep} (hdeclared : ∀ s ∈ steps, s.Declared reg)
    (hrun : steps.foldlM (ExtensionStep.make reg) start = some m) (hnan : reg.NaNFree (.message m)) :
    ∃ ext, m.extensions? = some ext ∧
      (reg.Throughout reg.Faithful m → ∀ fault, encode reg m = .error fault →
        ∃ inner name, Relation.ReflTransGen reg.Writes m inner ∧ reg.Lacks inner name ∧
          fault = .unencodable (.requiredUnset name)) ∧
      (∀ e, encode reg m = .ok e → e.length < 18446744073709551616 →
        (reg.Recovers m other e ↔
          reg.Throughout reg.Faithful m ∧ ∀ n, Dictionary.get? n ext ≠ some [])) ∧
      ∀ n, Dictionary.get? n ext = some [] → ∃ s ∈ steps, s.Empties n := by
  have hclass := hreg _ _ ht
  obtain ⟨hinit, hfilled, hstartType⟩ := grows_reset hreg ht hinto hreset
  have hstart : start.extensions? = some [] :=
    (hinto.fresh_reset hclass.toStoresApart ht hreset).1.extensions hextensible
  have htrims : reg.Trims start [] [] :=
    ⟨hstart, nodup_nil, fun _ => rfl, by rw [← hstart]; exact hfilled⟩
  obtain ⟨hmType, ext, full, h, hempty⟩ :=
    htrims.of_steps hreg hstores hset steps (Record.HasType.of_eq ht hstartType) hdeclared hrun
  have hmt : reg.messageType? m.type = some t := by rw [hmType, hstartType, ht]
  refine ⟨ext, h.store, fun hfaithful fault => h.lacks hreg hmt hset hnan hfaithful,
    fun e hwritten hshort => ?_, fun n hn => ?_⟩
  · exact h.recovers_iff hreg hstores hmt hset hnan hextensible hother
      (by rw [htype, hmType, hstartType]) hinit hwritten hshort
  · exact (hempty n hn).resolve_left (by simp [Dictionary.get?])

/-- Data with a star is merged, and scores are set. -/
def scoreSteps (items : List Value) : List ExtensionStep :=
  [.merge [168, 6, 1], .call (.set scores (.list items))]

def starredNote : Message := { emptyNote with extensions? := some [(101, [168, 6, 1])] }

def scoredNote (raw : Bytes) : Message :=
  { emptyNote with extensions? := some [(101, [168, 6, 1]), (100, raw)] }

set_option maxRecDepth 2000 in
theorem scoreSteps_note
    (hset : setExtension noteRegistry (.message starredNote) scores (.list items) =
      .ok (.message (scoredNote raw))) :
    (scoreSteps items).foldlM (ExtensionStep.make noteRegistry) emptyNote = some (scoredNote raw) := by
  have hmerge : merge noteRegistry emptyNote [168, 6, 1] = .done starredNote [] := rfl
  rw [scoreSteps, foldlM_cons, ExtensionStep.make, hmerge]
  simp only [Option.bind_eq_bind, Option.bind_some, foldlM_cons, foldlM_nil, ExtensionStep.make,
    ExtensionCall.make, hset]
  rfl

theorem declares_scores (raw : Bytes)
    (hraw : Encode.field (encodeMessage noteRegistry (Value.list items).weight) (.plain scoresSlot) true
      (.list items) = .ok raw) (hshort : Short raw) :
    ∀ s ∈ scoreSteps items, s.Declared noteRegistry := by
  intro s hs
  rcases mem_pair.mp hs with rfl | rfl
  · trivial
  · refine ⟨scoresSlot, accepts_scores.toDescribes, ⟨items, rfl, fun _ _ => ⟨.int32, rfl, trivial⟩⟩,
      fun inner hholds => ?_, fun raw' hraw' => ?_⟩
    · cases hholds.1
    · cases hraw.symm.trans hraw'
      exact hshort

theorem nanFree_scoredNote (raw : Bytes) : noteRegistry.NaNFree (.message (scoredNote raw)) := by
  intro d hd
  cases hd with
  | attr ht hattr hget hd =>
    cases ht
    rcases mem_pair.mp hattr with rfl | rfl
    · cases hget
      cases hd
    · cases hget
      cases hd

/-- Scores are kept, but that there are none is not. -/
theorem extended_roundTrip_note :
    noteRegistry.Recovers (scoredNote [162, 6, 3, 1, 172, 2]) note [162, 6, 3, 1, 172, 2, 168, 6, 1] ∧
      ¬noteRegistry.Recovers (scoredNote []) note [168, 6, 1] := by
  have hstores : noteRegistry.StoresOneofs := by
    rintro (_ | _ | id) t ht group hgroup
    · cases ht
      cases hgroup
    · cases ht
      cases hgroup
    · cases ht
  have hinstance : (noteType [("id", .int32, 1), ("text", .string, 2)] (some [⟨100, 199⟩])).Instance note :=
    ⟨fun _ => Dictionary.isSome_get?, rfl, rfl⟩
  have hreset : noteRegistry.reset note = .ok emptyNote := rfl
  have hscored : setExtension noteRegistry (.message starredNote) scores (.list [.int 1, .int 300]) =
      .ok (.message (scoredNote [162, 6, 3, 1, 172, 2])) := rfl
  have hnone : setExtension noteRegistry (.message starredNote) scores (.list []) =
      .ok (.message (scoredNote [])) := rfl
  have hdeclared : ∀ s ∈ scoreSteps [.int 1, .int 300], s.Declared noteRegistry :=
    declares_scores [162, 6, 3, 1, 172, 2] rfl (by decide)
  have hdeclaredNone : ∀ s ∈ scoreSteps [], s.Declared noteRegistry := declares_scores [] rfl (by decide)
  obtain ⟨ext, hext, _, hrecovers, _⟩ := extended_roundTrip regular_noteRegistry hstores rfl rfl rfl
    hinstance hinstance rfl hreset hdeclared (scoreSteps_note hscored) (nanFree_scoredNote _)
  cases hext
  obtain ⟨ext', hext', _, hlost, _⟩ := extended_roundTrip regular_noteRegistry hstores rfl rfl rfl
    hinstance hinstance rfl hreset hdeclaredNone (scoreSteps_note hnone) (nanFree_scoredNote _)
  cases hext'
  have hclear : emptyNote.Clear := show ∀ attr ∈ reservedAttrs, _ = none by decide
  refine ⟨(hrecovers _ rfl (by decide)).mpr
    ⟨throughout_note (faithful_note rfl) rfl hclear, fun n hn => ?_⟩, fun h => ?_⟩
  · have hmem := Dictionary.mem_of_get? hn
    rcases mem_pair.mp hmem with heq | heq
    · cases heq
    · cases heq
  · exact ((hlost _ rfl (by decide)).mp h).2 100 rfl

end Protobind

import Protobind.Message.ExtensionAccess
import Protobind.Proofs.OldReaders

/-!
# Access to extensions

A call that sets or clears an extension changes the entry of its number and nothing else of the
message, and a call that fails changes nothing (`ExtensionCall.step_frame`). What was set is kept as
records, and these are read back to an equal value (`Extension.Accepts.reads_back`); so after any
calls an extension is read as the value that was last set (`extension_store`).
-/

namespace Protobind

open List Dictionary Decode

open Decode (readers nestedReaders)

variable {reg : Registry} {slot : Slot} {v : Value} {bs raw : Bytes} {c : ExtensionCall}
  {d : Extension} {f : Field} {m : Message} {s : Value × Option Value} {t : MessageType}

/-! ## Reading the records of an extension -/

theorem Decode.agreeUpTo_nestedReaders (reg : Registry) (n : Nat) :
    (readers reg).AgreeUpTo n (nestedReaders reg n) := by
  intro m bs hbs
  refine ⟨rfl, ?_⟩
  unfold readers nestedReaders mergeFrom
  simp only [mergeRecords_fuel reg bs.length n bs (Nat.le_refl _) hbs]

theorem readRecords_of_reads (hnumber : FitsKey f.number) {n : Nat}
    {current : Value} (h : FieldReads reg f current bs v) :
    ∀ fuel, bs.length ≤ fuel → bs.length ≤ n →
      readRecords reg (nestedReaders reg n) f fuel current bs = .ok v := by
  induction h with
  | nil v =>
    intro fuel _ _
    cases fuel <;> rfl
  | @record current v w wire raw bs _ hread _ ih =>
    intro fuel hfuel hn
    have hkey := read_writeKey hnumber wire (raw ++ bs)
    have hlt := Varint.length_lt_of_read hkey
    have hmod : (f.number.toNat * 8 + wire.code) % 8 = wire.code := by
      have := wire.code_lt
      omega
    have hfield : field reg (nestedReaders reg n) f wire.code current (raw ++ bs) = .done v bs := by
      rw [← field_congr (local_readers reg) (agreeUpTo_nestedReaders reg n) f _ _ _
        (by simp only [length_append] at hn ⊢; omega), hread]
    rw [append_assoc] at hfuel hn ⊢
    cases hdata : writeKey f.number wire ++ (raw ++ bs) with
    | nil =>
      rw [hdata] at hlt
      exact absurd hlt (by simp)
    | cons b rest =>
      rw [hdata] at hkey hfuel hlt
      obtain ⟨fuel, rfl⟩ : ∃ k, fuel = k + 1 := ⟨fuel - 1, by simp at hfuel; omega⟩
      unfold readRecords
      simp only [ofReader, hkey, ok_bind, hmod, hfield, outcomeParse]
      simp only [length_append, length_cons] at hlt hfuel hn
      exact ih fuel (by omega) (by omega)

theorem Decode.repeated_null {nested : Nested} {wire : Nat} {rest : Bytes}
    (h : repeated reg nested slot wire (.list []) bs = .done v rest) :
    repeated reg nested slot wire .null bs = .done v rest := by
  have hadded : ∀ vs fault? {rest'}, added (.list []) vs fault? = .done v rest' →
      added .null vs fault? = .done v rest' := by
    intro vs fault? rest' hdone
    unfold added at hdone ⊢
    split at hdone
    · cases hdone
    · rename_i hne
      rw [if_neg hne]
      cases fault? with
      | none => exact hdone
      | some fault => cases hdone
  unfold repeated at h ⊢
  split
  · rename_i hrun
    rw [if_pos hrun] at h
    obtain ⟨run, rest', hread, h⟩ := reading_eq_done.mp h
    refine reading_eq_done.mpr ⟨run, rest', hread, ?_⟩
    cases run with
    | nil => exact h
    | cons b run => exact hadded _ _ h
  · rename_i hrun
    rw [if_neg hrun] at h
    split
    · rename_i hwire
      rw [if_pos hwire] at h
      cases h
    · rename_i hwire
      rw [if_neg hwire] at h
      obtain ⟨v', rest', hread, h⟩ := reading_eq_done.mp h
      exact reading_eq_done.mpr ⟨v', rest', hread, hadded _ _ h⟩

theorem writeKey_ne_nil (number : Int) (wire : WireType) : writeKey number wire ≠ [] := by
  intro h
  have hread := Varint.read_write (recordKey number wire) []
  rw [show Varint.write (recordKey number wire) = [] from h] at hread
  cases hread

theorem FieldReads.eq_of_nil {w : Value} (h : FieldReads reg f v bs w) (hbs : bs = []) : w = v := by
  cases h with
  | nil => rfl
  | record =>
    rw [append_eq_nil_iff, append_eq_nil_iff] at hbs
    exact absurd hbs.1.1 (writeKey_ne_nil _ _)

theorem FieldReads.of_null (hslot : slot.Regular reg) (hrepeated : slot.tag.repeated = true) (hne : bs ≠ [])
    (h : FieldReads reg (.plain slot) (.list []) bs v) : FieldReads reg (.plain slot) .null bs v := by
  cases h with
  | nil => exact absurd rfl hne
  | record hwire hread hrest =>
    refine .record hwire (fun rest => ?_) hrest
    have hlist := hread rest
    unfold field at hlist ⊢
    rw [if_neg (by simp [isMap_eq_false hslot]), if_pos hrepeated] at hlist ⊢
    exact repeated_null hlist

/-! ## What was set -/

/-- Whether the values of an extension are written as those of a field of a table would be, under the
number of the extension. -/
structure Extension.Describes (reg : Registry) (ext : Extension) (slot : Slot) : Prop where
  field : ext.field = .ok (.plain slot)
  regular : slot.Regular reg
  number : slot.tag.number = ext.number

/-- Whether a value of an extension is read back: it is of the declared kind, a list of values is not
empty, and the messages in it are well-typed; it equals itself, as all but NaN does; and its records are
not too long to be read. -/
structure Extension.Accepts (reg : Registry) (ext : Extension) (slot : Slot) (v : Value) : Prop extends
    ext.Describes reg slot where
  types : if slot.tag.repeated then ∃ items, v = .list items ∧ items ≠ [] ∧
      ∀ item ∈ items, slot.Types reg item else slot.Types reg v
  typed : ∀ inner, (Field.plain slot).Holds v inner → reg.Throughout reg.Typed inner
  reflexive : equalValues reg false v v = .ok true
  short : ∀ raw, Encode.field (encodeMessage reg v.weight) (.plain slot) true v = .ok raw →
    raw.length < 18446744073709551616

theorem field_of_repeated {write : Writer} (hrepeated : slot.tag.repeated = true)
    (always : Bool) (v : Value) :
    Encode.field write (.plain slot) always v = Encode.field write (.plain slot) false v := by
  unfold Encode.field
  rw [if_pos hrepeated, if_pos hrepeated]

namespace Extension.Accepts

variable (hreg : reg.Regular) {ext : Extension} (h : ext.Accepts reg slot v)
include h

theorem fieldTypes : (Field.plain slot).Types reg v := by
  have htypes := h.types
  split at htypes
  · rename_i hrepeated
    obtain ⟨items, rfl, _, hitems⟩ := htypes
    simp only [Field.Types, if_pos hrepeated]
    exact ⟨items, rfl, hitems⟩
  · rename_i hrepeated
    simp only [Field.Types, if_neg hrepeated]
    exact .inr htypes

include hreg

theorem backed (hraw : Encode.field (encodeMessage reg v.weight) (.plain slot) true v = .ok raw)
    {inner : Message} (hholds : (Field.plain slot).Holds v inner) :
    reg.Constructs inner ∧ Backed reg (encodeMessage reg v.weight) inner := by
  have htyped := h.typed inner hholds
  have hwritten := Encode.written_of_field hraw hholds
  have hequal := compared_of_holds (f := .plain slot) h.regular h.fieldTypes hholds h.reflexive
  have hfaithful : reg.Throughout reg.Faithful inner :=
    Registry.throughout_of_step (fun m => faithful_of_shown hreg) ⟨htyped, ⟨_, hwritten⟩, hequal⟩
  exact ⟨(htyped.here.kept hreg).constructs,
    backed_encodeMessage hreg _ inner hholds.weight_le htyped hfaithful⟩

theorem reads_back (hrange : IsNumber ext.number)
    (hraw : Encode.field (encodeMessage reg v.weight) (.plain slot) true v = .ok raw) :
    ∃ w, EqualTo reg v w ∧ FieldReads reg (.plain slot) .null raw w := by
  have hslot := h.regular
  have hnumber := h.number.symm ▸ hrange
  have htypes := h.types
  have hshort := h.short raw hraw
  split at htypes
  · rename_i hrepeated
    obtain ⟨items, rfl, hne, hitems⟩ := htypes
    have hin : slot.kind.isMessage = true → ∀ item ∈ items,
        InnerBacked reg (encodeMessage reg (Value.list items).weight) item := by
      rintro hmessage _ hitem inner rfl
      refine h.backed hreg hraw ⟨hmessage, ?_⟩
      rw [if_pos hrepeated]
      exact ⟨items, rfl, hitem⟩
    obtain ⟨bs, hwritten, hback⟩ := list_reads hreg hslot hitems hrepeated hnumber hin
    rw [field_of_repeated hrepeated, hwritten] at hraw
    cases hraw
    obtain ⟨w, hequal, hreads, _⟩ := hback hshort
    refine ⟨w, hequal, hreads.of_null hslot hrepeated ?_⟩
    -- Nothing is read as a list from no data, and the list was not empty.
    rintro rfl
    obtain ⟨first, rest, rfl⟩ := exists_cons_of_ne_nil hne
    rw [hreads.eq_of_nil rfl] at hequal
    cases hequal _ (Nat.lt_succ_self _)
  · rename_i hrepeated
    have honce : slot.tag.repeated = false := by simpa using hrepeated
    obtain ⟨bs, hwritten, hback⟩ := single_back hreg (encodeMessage reg v.weight) hslot hnumber htypes
      (fun hmessage inner hv => h.backed hreg hraw ⟨hmessage, by rw [if_neg hrepeated]; exact hv⟩)
    rw [field_always hslot honce htypes.isNull, hwritten] at hraw
    cases hraw
    obtain ⟨w, hequal, _, _, hread, _⟩ := hback (Short.right hshort)
    refine ⟨w, hequal, .single (f := .plain slot) (wireType_ne_endGroup hslot) fun rest => ?_⟩
    rw [field_of_single hslot honce, hread .null rest fun _ => rfl]

end Extension.Accepts

/-! ## Calls -/

section Calls

variable (reg : Registry) (hm : m.Clear) (store : RawMap)

theorem checkExtendable_store (ext : Extension) :
    reg.checkExtendable (.message (m.keeping store)) ext =
      reg.checkExtendable (.message m) ext := rfl

include hm

theorem extensionStore?_store :
    (Value.message (m.keeping store)).extensionStore? = some (.records store) := by
  have hclear : Record.Clear (m.keeping store) := hm
  exact hclear.extensionStore?_eq

theorem setExtension_store (ext : Extension) (v : Value) :
    setExtension reg (.message (m.keeping store)) ext v =
      (reg.checkExtendable (.message m) ext >>= fun _ =>
        if v.isNull then .error (.usage .nullExtension)
        else ext.field >>= fun f => Encode.field (encodeMessage reg v.weight) f true v >>= fun raw =>
          .ok (.message (m.keeping (store.set ext.number raw)))) := by
  have hstore : (m.keeping store).extensionStore? = some (.records store) :=
    extensionStore?_store hm store
  unfold setExtension
  rw [checkExtendable_store]
  simp only [hstore, ExtensionStore.set]
  rfl

theorem clearExtension_store (ext : Extension) :
    clearExtension (.message (m.keeping store)) ext =
      .ok (.message (m.keeping (store.erase ext.number))) := by
  have hstore : (m.keeping store).extensionStore? = some (.records store) :=
    extensionStore?_store hm store
  unfold clearExtension
  simp only [hstore, ExtensionStore.erase]
  rfl

end Calls

/-- A call that changes the extensions of a message. -/
inductive ExtensionCall where
  | set (ext : Extension) (v : Value)
  | clear (ext : Extension)

namespace ExtensionCall

def extension : ExtensionCall → Extension
  | .set ext _ => ext
  | .clear ext => ext

/-- What a call that succeeds leaves as the value of its extension. -/
def value? : ExtensionCall → Option Value
  | .set _ v => some v
  | .clear _ => none

def make (reg : Registry) (target : Value) : ExtensionCall → Result Value
  | .set ext v => setExtension reg target ext v
  | .clear ext => clearExtension target ext

/-- Makes a call on a message, beside what the calls so far leave as the value under a number. A call that
fails counts for nothing. -/
def step (reg : Registry) (number : Int) (s : Value × Option Value) (c : ExtensionCall) :
    Value × Option Value :=
  match c.make reg s.1 with
  | .error _ => s
  | .ok target => (target, if c.extension.number = number then c.value? else s.2)

def run (reg : Registry) (number : Int) (target : Value) (calls : List ExtensionCall) :
    Value × Option Value :=
  calls.foldl (step reg number) (target, none)

/-- Whether a call on a message succeeds, and the records that it leaves under its number: those of the
value that is set, none where it is cleared. -/
def Leaves (reg : Registry) (m : Message) : ExtensionCall → Option Bytes → Prop
  | .set ext v, raw? => reg.checkExtendable (.message m) ext = .ok () ∧ v.isNull = false ∧
      ∃ f raw, ext.field = .ok f ∧ Encode.field (encodeMessage reg v.weight) f true v = .ok raw ∧
        raw? = some raw
  | .clear _, raw? => raw? = none

end ExtensionCall

/-- A store with other records under a number, or with none. -/
def Dictionary.update (number : Int) (raw? : Option Bytes) (store : Dictionary Int Bytes) :
    Dictionary Int Bytes :=
  match raw? with
  | some raw => store.set number raw
  | none => store.erase number

theorem Dictionary.get?_update (number k : Int) (raw? : Option Bytes) (store : RawMap) :
    (store.update number raw?).get? k =
      if number = k then raw? else store.get? k := by
  cases raw? with
  | none => simpa [update] using get?_erase number k store
  | some raw => simpa [update] using get?_set number k raw store

namespace ExtensionCall

theorem step_of_ok {target : Value} (h : c.make reg s.1 = .ok target) (number : Int) :
    step reg number s c = (target, if c.extension.number = number then c.value? else s.2) := by
  unfold step
  rw [h]

theorem step_of_error {fault : Fault} (h : c.make reg s.1 = .error fault) (number : Int) :
    step reg number s c = s := by
  unfold step
  rw [h]

section Steps

variable (reg : Registry) (hm : m.Clear) (store : RawMap)
include hm

/-- A call puts what it leaves in the place of what was under its number, or it fails. It does not
depend on the extensions that the message has whether a call fails. -/
theorem make_store (c : ExtensionCall) :
    (∃ raw?, c.Leaves reg m raw? ∧ c.make reg (.message (m.keeping store)) =
        .ok (.message (m.keeping (store.update c.extension.number raw?)))) ∨
      (∀ raw?, ¬c.Leaves reg m raw?) ∧
        ∃ fault, c.make reg (.message (m.keeping store)) = .error fault := by
  cases c with
  | clear ext => exact .inl ⟨none, rfl, clearExtension_store hm store ext⟩
  | set ext v =>
    unfold make Leaves
    simp only [setExtension_store reg hm store ext v]
    cases hcheck : reg.checkExtendable (.message m) ext with
    | error fault => exact .inr ⟨fun raw? h => (by cases h.1), fault, rfl⟩
    | ok _ =>
      by_cases hnull : v.isNull = true
      · rw [ok_bind, if_pos hnull]
        exact .inr ⟨fun raw? h => (by simp [hnull] at h), _, rfl⟩
      rw [ok_bind, if_neg hnull]
      cases hfield : ext.field with
      | error fault =>
        refine .inr ⟨?_, fault, rfl⟩
        rintro raw? ⟨_, _, f, _, hf, _⟩
        cases hf
      | ok f =>
        rw [ok_bind]
        cases hraw : Encode.field (encodeMessage reg v.weight) f true v with
        | error fault =>
          refine .inr ⟨?_, fault, rfl⟩
          rintro raw? ⟨_, _, f', raw, hf, hraw', _⟩
          cases hf
          cases hraw.symm.trans hraw'
        | ok raw =>
          exact .inl ⟨some raw, ⟨rfl, by simpa using hnull, f, raw, rfl, hraw, rfl⟩, rfl⟩

theorem make_fails_iff (c : ExtensionCall) :
    (∃ fault, c.make reg (.message (m.keeping store)) = .error fault) ↔
      ∀ raw?, ¬c.Leaves reg m raw? := by
  rcases make_store reg hm store c with ⟨raw?, hleaves, hmake⟩ | ⟨hnone, fault, hmake⟩
  · rw [hmake]
    refine ⟨?_, fun hnone => absurd hleaves (hnone raw?)⟩
    rintro ⟨_, h⟩
    cases h
  · exact ⟨fun _ => hnone, fun _ => ⟨fault, hmake⟩⟩

/-- A call changes nothing but the entry of its number, and it changes nothing when it fails. -/
theorem step_frame (number : Int) (held : Option Value) (c : ExtensionCall) :
    ∃ store', (step reg number (.message (m.keeping store), held) c).1 =
        .message (m.keeping store') ∧
      (∀ k, k ≠ c.extension.number → get? k store' = get? k store) ∧
      ((∀ raw?, ¬c.Leaves reg m raw?) →
        step reg number (.message (m.keeping store), held) c =
          (.message (m.keeping store), held)) := by
  rcases make_store reg hm store c with ⟨raw?, hleaves, hmake⟩ | ⟨_, fault, hmake⟩
  · rw [step_of_ok hmake]
    refine ⟨_, rfl, fun k hk => ?_, fun hnone => absurd hleaves (hnone raw?)⟩
    rw [get?_update, if_neg (Ne.symm hk)]
  · rw [step_of_error hmake]
    exact ⟨store, rfl, fun _ _ => rfl, fun _ => rfl⟩

end Steps

/-- Whether the entry of an extension in the store of a message is what one of some calls left, and its
value the one that is remembered. Before the first call, the extension is as if it were cleared. -/
def Remembers (reg : Registry) (m : Message) (d : Extension) (calls : List ExtensionCall)
    (s : Value × Option Value) : Prop :=
  ∃ store c, s.1 = .message { m with extensions? := some store } ∧ (c = .clear d ∨ c ∈ calls) ∧
    c.extension = d ∧ c.value? = s.2 ∧ c.Leaves reg m (get? d.number store)

section Runs

variable (reg : Registry) (hm : m.Clear) {calls : List ExtensionCall}
  (hdistinct : ∀ c ∈ calls, c.extension.number = d.number → c.extension = d)
include hm hdistinct

theorem remembers_step (h : Remembers reg m d calls s) (hc : c ∈ calls) :
    Remembers reg m d calls (step reg d.number s c) := by
  obtain ⟨store, last, htarget, hlast, hext, hvalue, hleaves⟩ := h
  have hmake := make_store reg hm store c
  rw [← htarget] at hmake
  rcases hmake with ⟨raw?, hleaves', hmake⟩ | ⟨_, fault, hmake⟩
  · rw [step_of_ok hmake]
    by_cases hnumber : c.extension.number = d.number
    · refine ⟨_, c, rfl, .inr hc, hdistinct c hc hnumber, (if_pos hnumber).symm, ?_⟩
      rw [get?_update, if_pos hnumber]
      exact hleaves'
    · refine ⟨_, last, rfl, hlast, hext, hvalue.trans (if_neg hnumber).symm, ?_⟩
      rw [get?_update, if_neg hnumber]
      exact hleaves
  · rw [step_of_error hmake]
    exact ⟨store, last, htarget, hlast, hext, hvalue, hleaves⟩

theorem remembers_run (hempty : m.extensions? = some []) :
    Remembers reg m d calls (run reg d.number (.message m) calls) := by
  have hfold : ∀ (some : List ExtensionCall), (∀ c ∈ some, c ∈ calls) → ∀ s,
      Remembers reg m d calls s → Remembers reg m d calls (some.foldl (step reg d.number) s) := by
    intro some
    induction some with
    | nil => exact fun _ s hs => hs
    | cons c some ih =>
      intro hsome s hs
      exact ih (fun c' hc' => hsome c' (mem_cons_of_mem _ hc')) _
        (remembers_step reg hm hdistinct hs (hsome c mem_cons_self))
  refine hfold calls (fun _ h => h) _ ⟨[], .clear d, ?_, .inl rfl, rfl, rfl, rfl⟩
  rw [← hempty]

end Runs

end ExtensionCall

/-- What reading an extension gives where a value is remembered under its number, or none is. -/
def Extension.Reads (reg : Registry) (d : Extension) (target : Value) : Option Value → Prop
  | none => getExtension reg target d = .ok .null
  | some v => ∃ w, getExtension reg target d = .ok w ∧ equalValues reg false v w = .ok true

section Reading

variable (hm : m.Clear) (store : RawMap)
  (hcheck : reg.checkExtendable (.message m) d = .ok ())
include hm hcheck

theorem getExtension_of_none (hnone : store.get? d.number = none) :
    getExtension reg (.message (m.keeping store)) d = .ok .null := by
  unfold getExtension
  rw [checkExtendable_store, hcheck, extensionStore?_store hm store]
  simp only [ok_bind, ExtensionStore.get?, hnone]
  rfl

theorem getExtension_of_some (hsome : store.get? d.number = some raw) (hfield : d.field = .ok f) :
    getExtension reg (.message (m.keeping store)) d =
      readRecords reg (nestedReaders reg raw.length) f raw.length .null raw := by
  unfold getExtension
  rw [checkExtendable_store, hcheck, extensionStore?_store hm store]
  simp only [ok_bind, ExtensionStore.get?, hsome, hfield]
  rfl

end Reading

theorem inRanges_of_checkExtendable (hreg : reg.Regular) (ht : m.HasType reg t)
    (hm : m.Clear) (hcheck : reg.checkExtendable (.message m) d = .ok ()) :
    inRanges d.number t.ranges = true := by
  have hclass := hreg _ _ ht
  have hranges : reg.rangesOf (.message m) = .ok t.ranges := by
    unfold Registry.rangesOf
    simp only [ht]
    unfold MessageType.rangesOf
    rw [hm "extension_range_array" (by decide), hclass.ranges]
  unfold Registry.checkExtendable at hcheck
  split at hcheck
  · cases hcheck
  · rw [hranges, ok_bind] at hcheck
    split at hcheck
    · cases hcheck
    · rename_i hin
      simpa using hin

theorem Extension.Accepts.reads_store (h : d.Accepts reg slot v) (hreg : reg.Regular)
    (ht : m.HasType reg t) (hm : m.Clear)
    (hcheck : reg.checkExtendable (.message m) d = .ok ())
    (hraw : Encode.field (encodeMessage reg v.weight) (.plain slot) true v = .ok raw)
    {store : RawMap} (hsome : store.get? d.number = some raw) :
    d.Reads reg (.message (m.keeping store)) (some v) := by
  have hrange := ((hreg _ _ ht).apart _ (inRanges_of_checkExtendable hreg ht hm hcheck)).1
  obtain ⟨w, hequal, hreads⟩ := h.reads_back hreg hrange hraw
  have hnumber : FitsKey slot.tag.number := h.number ▸ IsNumber.fitsKey hrange
  refine ⟨w, ?_, hequal _ ?_⟩
  · rw [getExtension_of_some hm store hcheck hsome h.field]
    exact readRecords_of_reads (f := .plain slot) hnumber hreads _ (Nat.le_refl _) (Nat.le_refl _)
  · have := Value.weight_pos w
    omega

/-- The extensions of a message are a keyed store. After any calls on a message without extensions, an
extension that the message can have is read as a value equal to the one of the last call that set it and
succeeded, if no call cleared it since, and as none otherwise. Every call changes nothing but the entry of
its number. It fails exactly if it sets what is not extendable, no value or a value that cannot be written,
and then it changes nothing. -/
theorem extension_store {reg : Registry} (hreg : reg.Regular) {m : Message} {t : MessageType}
    (ht : reg.messageType? m.type = some t) (hm : t.Instance m) (hempty : m.extensions? = some [])
    (calls : List ExtensionCall) {d : Extension} (hcheck : reg.checkExtendable (.message m) d = .ok ())
    (hdistinct : ∀ c ∈ calls, c.extension.number = d.number → c.extension = d)
    (haccepts : ∀ v target, .set d v ∈ calls → setExtension reg (.message m) d v = .ok target →
      ∃ slot, d.Accepts reg slot v) :
    d.Reads reg (ExtensionCall.run reg d.number (.message m) calls).1
        (ExtensionCall.run reg d.number (.message m) calls).2 ∧
      ∀ before c after, calls = before ++ c :: after → ∃ store store',
        (ExtensionCall.run reg d.number (.message m) before).1 =
          .message { m with extensions? := some store } ∧
        (ExtensionCall.run reg d.number (.message m) (before ++ [c])).1 =
          .message { m with extensions? := some store' } ∧
        (∀ k, k ≠ c.extension.number → Dictionary.get? k store' = Dictionary.get? k store) ∧
        ((∃ fault, c.make reg (.message { m with extensions? := some store }) = .error fault) ↔
          ∀ raw?, ¬c.Leaves reg m raw?) ∧
        ((∀ raw?, ¬c.Leaves reg m raw?) → ExtensionCall.run reg d.number (.message m) (before ++ [c]) =
          ExtensionCall.run reg d.number (.message m) before) := by
  have hclear := hm.clear (hreg _ _ ht).toStoresApart
  constructor
  · obtain ⟨store, c, htarget, hmem, hext, hvalue, hleaves⟩ :=
      ExtensionCall.remembers_run reg hclear hdistinct hempty
    rw [htarget, ← hvalue]
    cases c with
    | clear ext => exact getExtension_of_none hclear store hcheck hleaves
    | set ext v =>
      replace hext : ext = d := hext
      subst hext
      obtain ⟨_, hnull, f, raw, hfield, hraw, hsome⟩ := hleaves
      have hset : setExtension reg (.message m) ext v =
          .ok (.message (m.keeping (Dictionary.set ext.number raw []))) := by
        have hstore := setExtension_store reg hclear [] ext v
        rw [Record.keeping_eq hempty] at hstore
        rw [hstore, hcheck, ok_bind, if_neg (by simp [hnull]), hfield, ok_bind, hraw, ok_bind]
      obtain ⟨slot, hslot⟩ := haccepts v _ (hmem.resolve_left (by simp)) hset
      cases hfield.symm.trans hslot.field
      exact hslot.reads_store hreg ht hclear hcheck hraw hsome
  · intro before c after hcalls
    have hbefore : ∀ c ∈ before, c.extension.number = d.number → c.extension = d :=
      fun c' hc' => hdistinct c' (hcalls ▸ mem_append_left _ hc')
    obtain ⟨store, _, htarget, _⟩ := ExtensionCall.remembers_run reg hclear hbefore hempty
    have hrun : ExtensionCall.run reg d.number (.message m) before =
        (.message { m with extensions? := some store },
          (ExtensionCall.run reg d.number (.message m) before).2) := Prod.ext htarget rfl
    obtain ⟨store', htarget', hframe, hfails⟩ := ExtensionCall.step_frame reg hclear store d.number
      (ExtensionCall.run reg d.number (.message m) before).2 c
    have hnext : ExtensionCall.run reg d.number (.message m) (before ++ [c]) =
        ExtensionCall.step reg d.number (ExtensionCall.run reg d.number (.message m) before) c :=
      foldl_concat ..
    rw [← hrun] at htarget' hfails
    refine ⟨store, store', htarget, hnext ▸ htarget', hframe, ?_, fun hnone => ?_⟩
    · exact ExtensionCall.make_fails_iff reg hclear store c
    · rw [hnext]
      exact hfails hnone

/-- A list of numbers that is written as one run. -/
def scores : Extension where
  extended := 0
  kind := .known .int32
  number := 100
  name := "scores"
  tag := "varint,100,rep,packed"
  file := ""

def starred : Extension where
  extended := 0
  kind := .known .bool
  number := 101
  name := "starred"
  tag := "varint,101,opt"
  file := ""

/-- A note without extensions. -/
def plainNote : Message := { note with extensions? := some [] }

def scoreCalls : List ExtensionCall :=
  [.set starred (.bool true), .set scores (.list [.int 1, .int 300]), .set scores .null, .clear starred]

def scoresSlot : Slot where
  attr := "value"
  kind := .known .int32
  tag := { text := "varint,100,rep,packed", wireType := .varint, number := 100, repeated := true,
           required := false, packed := true, name := "value" }

theorem accepts_scores : scores.Accepts noteRegistry scoresSlot (.list [.int 1, .int 300]) := by
  have hwritten : Encode.field (encodeMessage noteRegistry (Value.list [.int 1, .int 300]).weight)
      (.plain scoresSlot) true (.list [.int 1, .int 300]) = .ok [162, 6, 3, 1, 172, 2] := rfl
  refine ⟨⟨rfl, ?_, rfl⟩, ⟨_, rfl, by simp, fun item hitem => ?_⟩, fun inner hholds => ?_, rfl,
    fun raw hraw => ?_⟩
  · refine
      { known := ⟨_, rfl⟩, message := fun h => ?_, enum := fun _ _ h => ?_, wire := ?_,
        packed := fun _ => rfl, group := fun h => ?_ }
    · cases h
    · cases h
    · rintro kind ⟨⟩
      rfl
    · cases h
  · rcases mem_pair.mp hitem with rfl | rfl
    · exact ⟨.int32, rfl, 1, rfl, by decide⟩
    · exact ⟨.int32, rfl, 300, rfl, by decide⟩
  · cases hholds.1
  · cases hwritten.symm.trans hraw
    decide

theorem extension_store_note : ExtensionCall.run noteRegistry 100 (.message plainNote) scoreCalls =
        (.message { plainNote with extensions? := some [(100, [162, 6, 3, 1, 172, 2])] },
          some (.list [.int 1, .int 300])) ∧
      scores.Reads noteRegistry
        (.message { plainNote with extensions? := some [(100, [162, 6, 3, 1, 172, 2])] })
        (some (.list [.int 1, .int 300])) := by
  have hrun : ExtensionCall.run noteRegistry scores.number (.message plainNote) scoreCalls =
      (.message { plainNote with extensions? := some [(100, [162, 6, 3, 1, 172, 2])] },
        some (.list [.int 1, .int 300])) := rfl
  have hinstance : (noteType [("id", .int32, 1), ("text", .string, 2)] (some [⟨100, 199⟩])).Instance
      plainNote := ⟨fun _ => Dictionary.isSome_get?, rfl, rfl⟩
  have hdistinct : ∀ c ∈ scoreCalls, c.extension.number = scores.number → c.extension = scores := by
    intro c hc hnumber
    simp only [scoreCalls, mem_cons, not_mem_nil, or_false] at hc
    rcases hc with rfl | rfl | rfl | rfl
    · cases hnumber
    · rfl
    · rfl
    · cases hnumber
  have haccepts : ∀ v target, .set scores v ∈ scoreCalls →
      setExtension noteRegistry (.message plainNote) scores v = .ok target →
        ∃ slot, scores.Accepts noteRegistry slot v := by
    intro v target hmem hset
    simp only [scoreCalls, mem_cons, not_mem_nil, or_false, reduceCtorEq,
      ExtensionCall.set.injEq] at hmem
    rcases hmem with ⟨hext, _⟩ | ⟨_, rfl⟩ | ⟨_, rfl⟩
    · cases hext
    · exact ⟨scoresSlot, accepts_scores⟩
    · cases hset
  have hstore := (extension_store regular_noteRegistry rfl hinstance rfl scoreCalls rfl hdistinct
    haccepts).1
  rw [hrun] at hstore
  exact ⟨hrun, hstore⟩

end Protobind

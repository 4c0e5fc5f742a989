import Protobind.Proofs.Classes

/-!
# Decoding is safe

Data of any kind can be merged into a message, and all that can go wrong is that it is malformed.
The invariant is that a message and those inside are ready (`Ready`): their attributes are there and
have the shape that their fields ask for. A blank message of a sound class is ready
(`ready_initialized`), one record keeps a message ready (`Decode.safe_mergeRecord`), and by
induction on the length of the data so do all of them (`Decode.keeps_readers`).
-/

namespace Protobind

open List Registry

variable {α σ : Type} {reg : Registry} {t : MessageType} {f : Field} {slot : Slot}
  {group : OneofSlot} {member : VariantMember} {m : Message} {current v : Value} {bs : Bytes}
  {id : ClassId} {number : Int} {o : Outcome σ} {p : Value → Prop} {q : Fault → Prop} {x : Result α}

/-! ## Computations that fail on malformed data only -/

/-- Whether a computation gives something with a property, or fails with a fault that has one. -/
def Settles (p : α → Prop) (q : Fault → Prop) : Result α → Prop
  | .ok a => p a
  | .error fault => q fault

/-- Whether a computation gives something with a property, or reports malformed data. -/
abbrev Safe (p : α → Prop) : Result α → Prop := Settles p fun fault => ∃ e, fault = .malformed e

/-- Whether an outcome is a state with a property, or reports malformed data. -/
abbrev Outcome.Safe (p : σ → Prop) (o : Outcome σ) : Prop :=
  o.Ends p fun fault => ∃ e, fault = .malformed e

theorem Settles.imp {p k : α → Prop} (h : Settles p q x) (hp : ∀ a, p a → k a) : Settles k q x := by
  cases x with
  | ok a => exact hp a h
  | error fault => exact h

theorem Settles.bind {β : Type} {p : α → Prop} {k : β → Prop} {f : α → Result β} (hx : Settles p q x)
    (hf : ∀ a, x = .ok a → p a → Settles k q (f a)) : Settles k q (x >>= f) := by
  cases x with
  | ok a => exact hf a rfl hx
  | error fault => exact hx

theorem Outcome.Ends.map {τ : Type} {p : σ → Prop} {k : τ → Prop} {f : σ → τ} (h : o.Ends p q)
    (hp : ∀ s, p s → k (f s)) : (o.map f).Ends k q := by
  cases o with
  | done s rest => exact hp s h
  | failed fault s => exact h

theorem Outcome.Ends.of_done {p : σ → Prop} (h : o.Ends p q) {s : σ} {rest : Bytes}
    (ho : o = .done s rest) : p s := by
  rwa [ho] at h

theorem Outcome.Ends.imp {p k : σ → Prop} (h : o.Ends p q) (hp : ∀ s, p s → k s) : o.Ends k q := by
  cases o with
  | done s rest => exact hp s h
  | failed fault s => exact h

namespace Decode

theorem settles_outcomeParse {o : Outcome Value} (h : o.Ends p q) :
    Settles (fun r => p r.1) q (outcomeParse o) := by
  cases o with
  | done v rest => exact h
  | failed fault v => exact h

theorem settles_ofReader (hbad : ∀ e, q (.malformed e)) (r : Reader α) (bs : Bytes) :
    Settles (fun _ => True) q (ofReader r bs) := by
  unfold ofReader
  cases r bs with
  | ok a rest => exact trivial
  | error e rest => exact hbad e

theorem safe_ofReader (r : Reader α) (bs : Bytes) : Safe (fun _ => True) (ofReader r bs) :=
  settles_ofReader (fun e => ⟨e, rfl⟩) r bs

/-- What is read by a parser and gone on with ends as the parser and what comes after it do. -/
theorem ends_reading {P : α × Bytes → Prop} {k : σ → Prop} {r : Parse α} {next : α → Outcome σ} {s : σ}
    (hr : Settles P q (r bs)) (hnext : ∀ a, r bs = .ok a → P a → (next a.1).Ends k q) :
    (reading s r next bs).Ends k q := by
  unfold reading
  cases hread : r bs with
  | error fault => rwa [hread] at hr
  | ok a =>
    rw [hread] at hr
    have hend := hnext a hread hr
    simp only
    cases hdone : next a.1 <;> rwa [hdone] at hend

theorem ends_ofResult {k : σ → Prop} {x : Result σ} (h : Settles k q x) (s : σ) :
    (ofResult s x).Ends k q := by
  cases x <;> exact h

theorem safe_mapParse {f : α → Value} (hf : ∀ a, p (f a)) (r : Reader α) (bs : Bytes) :
    Safe (fun v => p v.1) (mapParse f (ofReader r) bs) :=
  (safe_ofReader r bs).bind fun a _ _ => hf a.1

end Decode

/-! ## Single values -/

namespace Decode

theorem safe_scalar (h : slot.Resolves reg) (hplain : slot.kind.isMessage = false) (bs : Bytes) :
    Safe (fun r => r.1.isKey = true ∧ r.1.isNull = false) (scalar reg slot bs) := by
  obtain ⟨kind, hkind⟩ := h.known
  unfold scalar
  rw [hkind]
  cases kind with
  | message | group => rw [hkind] at hplain; cases hplain
  | enum =>
    refine (safe_ofReader Varint.read bs).bind fun ⟨n, rest⟩ _ _ => ?_
    obtain ⟨v, hv, _, hkey, hnull, _⟩ := h.enumValue hkind (signed32 n)
    simp only [hv]
    exact ⟨hkey, hnull⟩
  | _ =>
    show Safe _ (mapParse _ (ofReader _) bs)
    exact safe_mapParse (p := fun v => v.isKey = true ∧ v.isNull = false) (fun _ => ⟨rfl, rfl⟩) _ bs

end Decode

/-! ## Messages that data can be merged into -/

/-- Whether the attribute of a field may hold a value, as far as its shape goes. -/
def Field.Admits : Field → Value → Prop
  | .plain slot, v =>
    if slot.tag.repeated then v = .null ∨ ∃ items, v = .list items
    else slot.kind.isMessage = true → v = .null ∨ ∃ m, v = .message m
  | .map .., v => v = .null ∨ ∃ entries, v = .map entries

/-- A message whose attributes are all there and have the right shape, to any depth. -/
inductive Ready (reg : Registry) : Message → Prop
  | intro {m : Message} {t : MessageType} (type : reg.messageType? m.type = some t)
      (clear : m.Clear) (extensions : t.hasExtensions = true → m.extensions?.isSome = true)
      (fields : ∀ f ∈ t.fields, ∃ v, m.get? f.slot.attr = some v ∧ f.Admits v)
      (inside : ∀ f ∈ t.fields, f.slot.kind.isMessage = true → ∀ inner,
        m.get? f.slot.attr = some (.message inner) → Ready reg inner) : Ready reg m

/-- Whether the attribute of a field may hold a value, and data can be merged into it. -/
def Field.Fits (reg : Registry) (f : Field) (v : Value) : Prop :=
  f.Admits v ∧ (f.slot.kind.isMessage = true → ∀ inner, v = .message inner → Ready reg inner)

/-- A message that data can be merged into. -/
def ReadyValue (reg : Registry) (v : Value) : Prop := ∃ m, v = .message m ∧ Ready reg m

/-- What a class must be like so that every message of it can be read. -/
structure MessageType.Sound (reg : Registry) (t : MessageType) : Prop where
  constructs : t.callFault? [] = none
  resets : "__init__" ∉ t.storedAttrs ++ t.codecAttrs
  stores : ∀ f ∈ t.fields, f.slot.attr ∈ t.storedAttrs
  variants : ∀ group ∈ t.groups, ∀ member ∈ group.members, ∀ id v, member.variant = .ok (.type id) →
    reg.variantType? id = some v → v.constructorFault? .null = none

/-- Whether messages of all classes can be read. -/
def Registry.Sound (reg : Registry) : Prop :=
  ∀ id t, reg.messageType? id = some t → t.Sound reg

namespace Field

theorem admits_list (h : slot.tag.repeated = true) :
    (plain slot).Admits v ↔ v = .null ∨ ∃ items, v = .list items := by
  simp only [Admits, h, if_true]

theorem admits_single (h : slot.tag.repeated = false) : (plain slot).Admits v ↔
      (slot.kind.isMessage = true → v = .null ∨ ∃ m, v = .message m) := by
  simp only [Admits, h, Bool.false_eq_true, if_false]

theorem fits_list (h : slot.tag.repeated = true) (hv : v = .null ∨ ∃ items, v = .list items) :
    (plain slot).Fits reg v := by
  refine ⟨(admits_list h).mpr hv, fun _ inner hin => ?_⟩
  subst hin
  rcases hv with hv | ⟨_, hv⟩ <;> cases hv

theorem fits_map {key val : Field} (hv : v = .null ∨ ∃ entries, v = .map entries) :
    (map slot key val).Fits reg v := by
  refine ⟨hv, fun _ inner hin => ?_⟩
  subst hin
  rcases hv with hv | ⟨_, hv⟩ <;> cases hv

theorem fits_message (h : slot.tag.repeated = false) (hv : v = .null ∨ ReadyValue reg v) :
    (plain slot).Fits reg v := by
  refine ⟨(admits_single h).mpr fun _ => hv.imp_right fun ⟨m, hm, _⟩ => ⟨m, hm⟩, ?_⟩
  intro _ inner hin
  subst hin
  rcases hv with hv | ⟨m, hm, hready⟩
  · cases hv
  · cases hm
    exact hready

theorem fits_scalar (h : slot.tag.repeated = false) (hplain : slot.kind.isMessage = false) :
    (plain slot).Fits reg v := by
  refine ⟨(admits_single h).mpr fun hmessage => ?_, fun hmessage => ?_⟩
  · cases hplain.symm.trans hmessage
  · cases hplain.symm.trans hmessage

theorem Fits.message (hv : (plain slot).Fits reg v) (h : slot.tag.repeated = false)
    (hmessage : slot.kind.isMessage = true) : v = .null ∨ ReadyValue reg v := by
  rcases (admits_single h).mp hv.1 hmessage with hnull | ⟨m, rfl⟩
  · exact .inl hnull
  · exact .inr ⟨m, rfl, hv.2 hmessage m rfl⟩

theorem StartsWith.fits (h : f.StartsWith v) : f.Fits reg v := by
  cases f with
  | map slot key val =>
    refine fits_map ?_
    rcases h with rfl | rfl
    · exact .inl rfl
    · exact .inr ⟨[], rfl⟩
  | plain slot =>
    cases hrep : slot.tag.repeated with
    | true =>
      simp only [StartsWith, hrep, if_true] at h
      refine fits_list hrep ?_
      rcases h with rfl | rfl
      · exact .inl rfl
      · exact .inr ⟨[], rfl⟩
    | false =>
      simp only [StartsWith, hrep, Bool.false_eq_true, if_false] at h
      cases hmessage : slot.kind.isMessage with
      | true => exact fits_message hrep (.inl (h hmessage))
      | false => exact fits_scalar hrep hmessage

end Field

theorem Ready.of_fits (ht : m.HasType reg t) (hclear : m.Clear)
    (hext : t.hasExtensions = true → m.extensions?.isSome = true)
    (hfits : ∀ f ∈ t.fields, ∃ v, m.get? f.slot.attr = some v ∧ f.Fits reg v) : Ready reg m := by
  refine .intro ht hclear hext (fun f hf => ?_) fun f hf hmessage inner hin => ?_
  · obtain ⟨v, hv, hfit⟩ := hfits f hf
    exact ⟨v, hv, hfit.1⟩
  · obtain ⟨v, hv, hfit⟩ := hfits f hf
    exact hfit.2 hmessage inner (Option.some.inj (hv.symm.trans hin))

section

variable (hwf : reg.WellFormed) (hsound : reg.Sound)
include hwf hsound

theorem ready_initialized (hm : m.Clear) (ht : m.HasType reg t) :
    Ready reg (initialized t [] m) := by
  have hclass := hwf _ _ ht
  have hblank := hclass.blank_initialized hm
  refine .of_fits (ht.of_eq (hclass.type_initialized hm)) hblank.clear (fun h => ?_) fun f hf => ?_
  · rw [hblank.extensions h]
    rfl
  · obtain ⟨p, hp, hattr⟩ := mem_map.mp ((hsound _ _ ht).stores f hf)
    exact ⟨p.start, hattr ▸ hblank.stored p hp, (hclass.starts f hf p hp hattr).fits⟩

theorem ready_instantiate (ht : reg.messageType? id = some t) :
    ∃ v, reg.instantiate (.type id) = .ok v ∧ ReadyValue reg v :=
  ⟨_, instantiate_message ht (hsound _ _ ht).constructs, _, rfl,
    ready_initialized hwf hsound (m := { type := id, attrs := [] }) (fun _ _ => rfl) ht⟩

theorem ready_newMessage (h : slot.Resolves reg) (hmessage : slot.kind.isMessage = true) :
    ∃ v, Decode.newMessage reg slot = .ok v ∧ ReadyValue reg v := by
  obtain ⟨name, id, t, hname, hbound, ht⟩ := h.message hmessage
  obtain ⟨v, hv, hready⟩ := ready_instantiate hwf hsound ht
  refine ⟨v, ?_, hready⟩
  unfold Decode.newMessage messageClass
  simp only [hname, hbound]
  exact hv

end

/-! ## Fields -/

namespace Decode

/-- Whether readers for messages keep a property of messages, and their classes, on data of at most
`n` bytes. Messages of some classes only are read as groups. -/
def Nested.KeepsUpTo (P : Message → Prop) (G : ClassId → Prop) (q : Fault → Prop) (n : Nat)
    (nested : Nested) : Prop :=
  ∀ m bs, bs.length ≤ n → P m →
    (nested.message m bs).Ends (fun m' => P m' ∧ m'.type = m.type) q ∧
      (G m.type → (nested.group m bs).Ends (fun m' => P m' ∧ m'.type = m.type) q)

/-- The induction is on a bound of the data: a record is merged with readers for shorter data. -/
theorem keeps_readers {P : Message → Prop} {G : ClassId → Prop} (hbad : ∀ e, q (.malformed e))
    (hclass : ∀ m, P m →
      ∃ t, m.HasType reg t ∧ layout reg m = .ok (Layout.ofType t))
    (hset : ∀ m t bs, P m → m.HasType reg t → t.isMessageSet = true →
      (mergeSet m bs).Ends (fun m' => P m' ∧ m'.type = m.type) q)
    (hplain : ∀ id t, reg.messageType? id = some t → t.isMessageSet = false → G id)
    (hrecord : ∀ m t start tag rest, P m → m.HasType reg t → G m.type →
      (readers reg).KeepsUpTo P G q rest.length → Varint.read start = .ok tag rest → tag / 8 ≠ 0 →
        (mergeRecord reg (readers reg) (Layout.ofType t) m (tag / 8) (tag % 8) start rest).Ends
          (fun m' => P m' ∧ m'.type = m.type) q) (n : Nat) :
    (readers reg).KeepsUpTo P G q n := by
  induction n using Nat.strongRecOn with
  | ind n ih =>
    intro m bs hbs hm
    obtain ⟨t, ht, hlayout⟩ := hclass m hm
    have hfrom (hG : G m.type) (inGroup : Bool) : (mergeFrom reg bs.length inGroup m bs).Ends
        (fun m' => P m' ∧ m'.type = m.type) q := by
      rw [mergeFrom_eq_records, hlayout]
      refine ends_records reg (Layout.ofType t) hbad (fun m₁ start tag rest h₁ hkey hpos hrest => ?_)
        inGroup ⟨hm, rfl⟩ hbs
      have hstep := hrecord m₁ t start tag rest h₁.1 (ht.of_eq h₁.2) (h₁.2 ▸ hG) (ih _ hrest) hkey hpos
      exact hstep.imp fun m' h => ⟨h.1, h.2.trans h₁.2⟩
    refine ⟨?_, fun hG => hfrom hG true⟩
    unfold readers merge
    simp only [ht, Option.map_some, Option.getD_some]
    split
    · rename_i hmember
      exact hset m t bs hm ht hmember
    · rename_i hnot
      exact hfrom (hplain _ _ ht (by simpa using hnot)) false

/-- Whether readers for messages are safe on data of at most `n` bytes. -/
abbrev Nested.SafeUpTo (reg : Registry) (n : Nat) (nested : Nested) : Prop :=
  nested.KeepsUpTo (Ready reg) (fun _ => True) (fun fault => ∃ e, fault = .malformed e) n

/-! ## Lists -/

section Lists

variable (hbad : ∀ e, q (.malformed e))
include hbad

theorem unpack_settles {read : Parse Value} (hread : ∀ bs, Settles (fun r => p r.1) q (read bs))
    (fuel : Nat) : ∀ bs, (∀ v ∈ (unpack read fuel bs).1, p v) ∧
      ∀ fault, (unpack read fuel bs).2 = some fault → q fault := by
  have hnone : ∀ v ∈ [], p v := fun _ h => absurd h not_mem_nil
  induction fuel with
  | zero =>
    intro bs
    cases bs with
    | nil => exact ⟨hnone, fun _ h => by cases h⟩
    | cons b bs => exact ⟨hnone, fun _ h => Option.some.inj h ▸ hbad _⟩
  | succ fuel ih =>
    intro bs
    cases bs with
    | nil => exact ⟨hnone, fun _ h => by cases h⟩
    | cons b bs =>
      have hfirst := hread (b :: bs)
      unfold unpack
      cases hb : read (b :: bs) with
      | error fault =>
        rw [hb] at hfirst
        exact ⟨hnone, fun _ h => Option.some.inj h ▸ hfirst⟩
      | ok r =>
        rw [hb] at hfirst
        exact ⟨forall_mem_cons.mpr ⟨hfirst, (ih r.2).1⟩, (ih r.2).2⟩

variable (hcurrent : current = .null ∨ ∃ items, current = .list items ∧ ∀ item ∈ items, p item)
include hcurrent

theorem ends_added {vs : List Value} (hvs : ∀ v ∈ vs, p v) {fault? : Option Fault}
    (hfault : ∀ fault, fault? = some fault → q fault) :
    (added current vs fault?).Ends
      (fun v => ∃ items, v = .list items ∧ ∀ item ∈ items, p item) q := by
  obtain ⟨items, happend, hitems⟩ :
      ∃ items, appendTo current vs = .ok (.list items) ∧ ∀ item ∈ items, p item := by
    rcases hcurrent with rfl | ⟨items, rfl, hitems⟩
    · exact ⟨vs, rfl, hvs⟩
    · exact ⟨items ++ vs, rfl, forall_mem_append.mpr ⟨hitems, hvs⟩⟩
  unfold added
  rw [happend]
  cases fault? with
  | none =>
    split
    · exact hbad _
    · exact ⟨items, rfl, hitems⟩
  | some fault =>
    split
    · exact hfault fault rfl
    · exact hfault fault rfl

/-- The values of a list are read one by one, whether they stand in one run or each in its record. -/
theorem ends_repeated {nested : Nested} (wire : Nat)
    (hrun : slot.kind.isMessage = false → ∀ bs, (single reg nested slot .null bs).Ends p q)
    (hone : (single reg nested slot .null bs).Ends p q) :
    (repeated reg nested slot wire current bs).Ends
      (fun v => ∃ items, v = .list items ∧ ∀ item ∈ items, p item) q := by
  have happend : appendFault? current = none := by
    rcases hcurrent with rfl | ⟨items, rfl, _⟩ <;> rfl
  by_cases hpacked : (wire = WireType.bytes.code && slot.kind.isPackable) = true
  · have hplain := isMessage_eq_false_of_isPackable (Bool.and_eq_true_iff.mp hpacked).2
    rw [repeated, if_pos hpacked]
    refine ends_reading (settles_ofReader hbad readRun bs) fun r _ _ => ?_
    unfold addedRun
    split
    · rcases hcurrent with rfl | ⟨items, rfl, hitems⟩
      · exact ⟨[], rfl, forall_mem_nil _⟩
      · exact ⟨items, rfl, hitems⟩
    · rw [happend]
      obtain ⟨hvs, hfault⟩ := unpack_settles hbad
        (fun bs => settles_outcomeParse (hrun hplain bs)) r.1.length r.1
      exact ends_added hbad hcurrent hvs hfault
  by_cases hwire : wire = slot.tag.wireType.code
  · rw [repeated, if_neg hpacked, if_neg (not_not.mpr hwire), happend]
    refine ends_reading (settles_outcomeParse hone) fun r _ hr => ?_
    exact ends_added hbad hcurrent (forall_mem_singleton.mpr hr) (fun _ h => by cases h)
  · rw [repeated, if_neg hpacked, if_pos hwire]
    exact hbad _

omit hcurrent in
theorem settles_entry {k : Value → Prop} {n : Nat} {readKey readValue : Nat → Parse Value}
    (hkey : ∀ wire bs, bs.length ≤ n →
      Settles (fun r => p r.1 ∧ r.2.length ≤ bs.length) q (readKey wire bs))
    (hvalue : ∀ wire bs, bs.length ≤ n →
      Settles (fun r => k r.1 ∧ r.2.length ≤ bs.length) q (readValue wire bs)) (fuel : Nat) :
    ∀ key value bs, bs.length ≤ n → p key → k value →
      Settles (fun e => p e.1 ∧ k e.2) q (entry readKey readValue fuel key value bs) := by
  induction fuel with
  | zero =>
    intro key value bs _ hp hk
    cases bs with
    | nil => exact ⟨hp, hk⟩
    | cons b bs => exact hbad _
  | succ fuel ih =>
    intro key value bs hbs hp hk
    cases bs with
    | nil => exact ⟨hp, hk⟩
    | cons b bs =>
      unfold entry
      refine (settles_ofReader hbad Varint.read (b :: bs)).bind fun r htag _ => ?_
      obtain ⟨tag, rest⟩ := r
      have hlt := Varint.length_lt_of_read (ofReader_eq_ok.mp htag)
      simp only
      split
      · refine (hkey (tag % 8) rest (by omega)).bind fun r _ hr => ?_
        exact ih _ _ _ (by omega) hr.1 hk
      split
      · refine (hvalue (tag % 8) rest (by omega)).bind fun r _ hr => ?_
        exact ih _ _ _ (by omega) hp hr.1
      · refine (settles_ofReader hbad (skipValue (tag % 8 : Nat)) rest).bind fun r hskip _ => ?_
        have := (local_skipValue _).length_le (ofReader_eq_ok.mp hskip)
        exact ih _ _ _ (by omega) hp hk

omit hbad hcurrent in
theorem settles_member {nested : Nested} (hlocal : nested.Local) {wire : Nat}
    (h : (field reg nested f wire current bs).Ends p q) :
    Settles (fun r => p r.1 ∧ r.2.length ≤ bs.length) q
      (outcomeParse (field reg nested f wire current bs)) := by
  cases hread : field reg nested f wire current bs with
  | done v rest =>
    rw [hread] at h
    exact ⟨h, field_length_le hlocal hread⟩
  | failed fault v => rwa [hread] at h

end Lists

section Fields

variable {n : Nat} {nested : Nested}

theorem ends_embedded {P : Message → Prop} (hbad : ∀ e, q (.malformed e)) {isGroup : Bool}
    (hmessage : ∀ payload : Bytes, payload.length ≤ bs.length → (nested.message m payload).Ends P q)
    (hgroup : isGroup = true → (nested.group m bs).Ends P q) :
    (embedded nested isGroup (.message m) bs).Ends (fun v => ∃ m', v = .message m' ∧ P m') q := by
  cases isGroup with
  | true => exact (hgroup rfl).map fun m' hm' => ⟨m', rfl, hm'⟩
  | false =>
    refine ends_reading (settles_ofReader hbad readRun bs) fun r hrun _ => ?_
    have hshort := length_lt_of_readRun (ofReader_eq_ok.mp hrun)
    exact (hmessage r.1 (by omega)).map fun m' hm' => ⟨m', rfl, hm'⟩

theorem ends_single_message (hmessage : slot.kind.isMessage = true) (hname : slot.typeName?.isNone = false)
    (hnew : current.isNull = true → Settles
      (fun v => (embedded nested (slot.kind = .known .group) v bs).Ends p q) q (newMessage reg slot))
    (hold : current.isNull = false → (embedded nested (slot.kind = .known .group) current bs).Ends p q) :
    (single reg nested slot current bs).Ends p q := by
  unfold single
  rw [if_pos hmessage, if_neg (by simp [hname])]
  cases hnull : current.isNull with
  | false => exact hold hnull
  | true =>
    have hend := hnew hnull
    rw [if_pos rfl]
    cases hv : newMessage reg slot with
    | error fault => rwa [hv] at hend
    | ok v =>
      rw [hv] at hend
      simp only [Settles] at hend ⊢
      cases hdone : embedded nested (slot.kind = .known .group) v bs <;> rwa [hdone] at hend

theorem safe_single_scalar (h : slot.Resolves reg) (hplain : slot.kind.isMessage = false) (nested : Nested)
    (current : Value) (bs : Bytes) :
    (single reg nested slot current bs).Safe fun v => v.isKey = true ∧ v.isNull = false := by
  have hscalar := safe_scalar h hplain bs
  rw [single_of_isMessage_eq_false hplain]
  cases hread : scalar reg slot bs <;> rwa [hread] at hscalar

theorem orZero_key (h : slot.Resolves reg) (hplain : slot.kind.isMessage = false)
    (hv : v.isKey = true) : ∃ w, orZero reg slot v = .ok w ∧ w.isKey = true := by
  unfold orZero
  split
  · obtain ⟨kind, hkind⟩ := h.known
    unfold zero
    rw [hkind]
    cases kind with
    | message | group => rw [hkind] at hplain; cases hplain
    | _ => exact ⟨_, rfl, rfl⟩
  · exact ⟨v, rfl, hv⟩

theorem addEntry_of_map (h : current = .null ∨ ∃ entries, current = .map entries) {key : Value}
    (hkey : key.isKey = true) (value : Value) :
    ∃ entries, addEntry current key value = .ok (.map entries) := by
  unfold addEntry Value.setPart
  rcases h with rfl | ⟨entries, rfl⟩
  · exact ⟨_, if_pos hkey⟩
  · exact ⟨_, if_pos hkey⟩

variable (hwf : reg.WellFormed) (hsound : reg.Sound)

section

include hwf hsound

theorem orZero_ok (h : slot.Resolves reg) (v : Value) : ∃ w, orZero reg slot v = .ok w := by
  unfold orZero
  split
  · obtain ⟨kind, hkind⟩ := h.known
    unfold zero
    rw [hkind]
    cases kind with
    | message | group =>
      obtain ⟨w, hw, _⟩ := ready_newMessage hwf hsound h (by rw [hkind]; rfl)
      exact ⟨w, hw⟩
    | _ => exact ⟨_, rfl⟩
  · exact ⟨v, rfl⟩

/-- A variant holds whatever is read, if its class has instances at all. -/
theorem wrap_ok (ht : reg.messageType? id = some t) (hgroup : group ∈ t.groups)
    (hmember : member ∈ group.members) (v : Value) : ∃ w, wrap reg member v = .ok w := by
  obtain ⟨vid, vt, hbound, hvt⟩ := ((hwf _ _ ht).members group hgroup member hmember).variant
  have hfault := VariantType.constructorFault?_of_null
    ((hsound _ _ ht).variants group hgroup member hmember vid vt hbound hvt) v
  unfold wrap apply call VariantType.call
  simp only [hbound, class?_of_variantType? hvt, bind, Except.bind, pure, Except.pure, hfault]
  exact ⟨_, rfl⟩

end

variable (hn : nested.SafeUpTo reg n)
include hn

theorem safe_embedded (hv : ReadyValue reg v) (isGroup : Bool) (hbs : bs.length ≤ n) :
    (embedded nested isGroup v bs).Safe (ReadyValue reg) := by
  obtain ⟨m, rfl, hm⟩ := hv
  refine (ends_embedded (fun e => ⟨e, rfl⟩) (fun payload _ => (hn m payload (by omega) hm).1)
    fun _ => (hn m bs hbs hm).2 trivial).imp fun v hv => ?_
  obtain ⟨m', rfl, hm', _⟩ := hv
  exact ⟨m', rfl, hm'⟩

include hwf hsound

theorem safe_single_message (h : slot.Resolves reg) (hmessage : slot.kind.isMessage = true)
    (hcurrent : current = .null ∨ ReadyValue reg current) (hbs : bs.length ≤ n) :
    (single reg nested slot current bs).Safe (ReadyValue reg) := by
  obtain ⟨name, _, _, hname, _⟩ := h.message hmessage
  refine ends_single_message hmessage (by rw [hname]; rfl) (fun _ => ?_) fun hnull => ?_
  · obtain ⟨v, hv, hready⟩ := ready_newMessage hwf hsound h hmessage
    rw [hv]
    exact safe_embedded hn hready _ hbs
  · rcases hcurrent with rfl | hcurrent
    · cases hnull
    · exact safe_embedded hn hcurrent _ hbs

theorem safe_single (h : slot.Resolves reg)
    (hcurrent : slot.kind.isMessage = true → current = .null ∨ ReadyValue reg current) (hbs : bs.length ≤ n) :
    (single reg nested slot current bs).Safe fun v =>
      slot.kind.isMessage = true → ReadyValue reg v := by
  cases hmessage : slot.kind.isMessage with
  | true =>
    exact (safe_single_message hwf hsound hn h hmessage (hcurrent hmessage) hbs).imp
      fun v hv _ => hv
  | false =>
    exact (safe_single_scalar h hmessage nested current bs).imp fun _ _ h => by cases h

theorem safe_repeated (h : slot.Resolves reg) (wire : Nat)
    (hcurrent : current = .null ∨ ∃ items, current = .list items) (hbs : bs.length ≤ n) :
    (repeated reg nested slot wire current bs).Safe fun v => ∃ items, v = .list items := by
  refine (ends_repeated (p := fun _ => True) (fun e => ⟨e, rfl⟩)
    (hcurrent.imp_right (·.imp fun _ h => ⟨h, fun _ _ => trivial⟩)) wire (fun hplain bs => ?_) ?_).imp
      fun v hv => hv.imp fun _ h => h.1
  · exact (safe_single_scalar h hplain nested .null bs).imp fun _ _ => trivial
  · exact (safe_single hwf hsound hn h (fun _ => .inl rfl) hbs).imp fun _ _ => trivial

theorem safe_mapEntry {key val : Slot} (hkey : key.Resolves reg) (hplain : key.kind.isMessage = false)
    (honce : key.tag.repeated = false) (hval : val.Resolves reg)
    (hcurrent : current = .null ∨ ∃ entries, current = .map entries) (hbs : bs.length ≤ n)
    (hlocal : nested.Local) :
    Safe (fun v => ∃ entries, v = .map entries)
      (mapEntry reg nested (.plain key) (.plain val) current bs) := by
  have hreadKey : ∀ wire bs, bs.length ≤ n →
      (field reg nested (.plain key) wire .null bs).Safe (·.isKey = true) := by
    intro wire bs _
    obtain ⟨kind, hkind⟩ := hkey.known
    unfold field
    rw [if_neg (by rw [hkind]; simp [SlotKind.isMap]), if_neg (by simp [honce])]
    split
    · exact ⟨_, rfl⟩
    · exact (safe_single_scalar hkey hplain nested .null bs).imp fun v hv => hv.1
  have hreadValue : ∀ wire bs, bs.length ≤ n →
      (field reg nested (.plain val) wire .null bs).Safe fun _ => True := by
    intro wire bs hbs
    obtain ⟨kind, hkind⟩ := hval.known
    unfold field
    rw [if_neg (by rw [hkind]; simp [SlotKind.isMap])]
    split
    · exact (safe_repeated hwf hsound hn hval wire (.inl rfl) hbs).imp fun _ _ => trivial
    split
    · exact ⟨_, rfl⟩
    · exact (safe_single hwf hsound hn hval (fun _ => .inl rfl) hbs).imp fun _ _ => trivial
  unfold mapEntry readEntry
  refine (settles_entry (p := (·.isKey = true)) (k := fun _ => True) (fun e => ⟨e, rfl⟩)
    (fun wire bs hbs => settles_member hlocal (hreadKey wire bs hbs))
    (fun wire bs hbs => settles_member hlocal (hreadValue wire bs hbs))
    bs.length .null .null bs hbs rfl trivial).bind ?_
  rintro ⟨k, v⟩ - ⟨hk, -⟩
  obtain ⟨k', hk', hkey'⟩ := orZero_key hkey hplain hk
  obtain ⟨v', hv'⟩ := orZero_ok hwf hsound hval v
  obtain ⟨entries, hadd⟩ := addEntry_of_map hcurrent hkey' v'
  simp only [Field.slot, hk', hv', hadd, ok_bind]
  exact ⟨entries, rfl⟩

theorem safe_field (hf : f.Resolves reg) (wire : Nat) (hcurrent : f.Fits reg current) (hbs : bs.length ≤ n)
    (hlocal : nested.Local) :
    (field reg nested f wire current bs).Safe (f.Fits reg) := by
  cases f with
  | map slot key val =>
    obtain ⟨key, val, rfl, rfl⟩ := hf.map_plain
    obtain ⟨hkey, hplain, honce, hval⟩ := hf
    rw [field_map_eq]
    split
    · exact ⟨_, rfl⟩
    · refine ends_reading (safe_ofReader readRun bs) fun r hrun _ => ?_
      have hshort := length_lt_of_readRun (ofReader_eq_ok.mp hrun)
      exact (ends_ofResult (safe_mapEntry hwf hsound hn hkey hplain honce hval hcurrent.1 (by omega)
        hlocal) current).imp fun v hv => Field.fits_map (.inr hv)
  | plain slot =>
    obtain ⟨kind, hkind⟩ := hf.known
    unfold field
    rw [if_neg (by rw [hkind]; simp [SlotKind.isMap])]
    cases hrep : slot.tag.repeated with
    | true =>
      rw [if_pos rfl]
      exact (safe_repeated hwf hsound hn hf wire ((Field.admits_list hrep).mp hcurrent.1) hbs).imp
        fun v hv => Field.fits_list hrep (.inr hv)
    | false =>
      rw [if_neg (by simp)]
      split
      · exact ⟨_, rfl⟩
      · refine (safe_single hwf hsound hn hf (fun h => hcurrent.message hrep h) hbs).imp fun v hv => ?_
        cases hmessage : slot.kind.isMessage with
        | true => exact Field.fits_message hrep (.inr (hv hmessage))
        | false => exact Field.fits_scalar hrep hmessage

theorem safe_readStep (h : member.Resolves reg) (hbs : bs.length ≤ n) :
    Safe (fun _ => True) (readStep reg nested member.type bs (OneofCase.ofKind member.kind).read) := by
  by_cases hmessage : member.kind.isMessage = true
  · obtain ⟨id, t, hbound, ht⟩ := h.message hmessage
    obtain ⟨v, hv, hready⟩ := ready_instantiate hwf hsound ht
    rw [readStep_message hmessage, hbound, ok_bind, hv, ok_bind]
    exact (settles_outcomeParse (safe_embedded hn hready _ hbs)).imp fun _ _ => trivial
  by_cases henum : member.kind = .enum
  · obtain ⟨id, hread⟩ := h.readStep_enum henum
    rw [hread]
    exact safe_mapParse (p := fun _ => True) (fun _ => trivial) _ bs
  · have hplain : member.kind.isMessage = false := by simpa using hmessage
    rw [readStep_eq_scalar hplain henum]
    exact (safe_scalar (member.slot_resolves reg hplain) hplain bs).imp fun _ _ => trivial

end Fields

/-! ## Records -/

theorem mem_of_findByNumber? {groups : List OneofSlot}
    (h : findByNumber? number groups = some (group, member)) :
    group ∈ groups ∧ member ∈ group.members ∧ member.number = number := by
  induction groups with
  | nil => cases h
  | cons first groups ih =>
    unfold findByNumber? at h
    split at h
    · rename_i found hfound
      cases h
      exact ⟨mem_cons_self, mem_of_find?_eq_some hfound, by simpa using find?_some hfound⟩
    · obtain ⟨hgroup, hmember, hnumber⟩ := ih h
      exact ⟨mem_cons_of_mem _ hgroup, hmember, hnumber⟩

end Decode

section Ready

variable (hm : Ready reg m)
include hm

theorem Ready.clear : m.Clear := by
  cases hm with
  | intro _ hclear _ _ _ => exact hclear

variable (ht : m.HasType reg t)
include ht

theorem Ready.extensions (h : t.hasExtensions = true) :
    ∃ extensions, m.extensions? = some extensions := by
  cases hm with
  | intro htype _ hextensions _ _ =>
    cases ht.symm.trans htype
    exact Option.isSome_iff_exists.mp (hextensions h)

theorem Ready.field (hf : f ∈ t.fields) : ∃ v, m.get? f.slot.attr = some v ∧ f.Fits reg v := by
  cases hm with
  | intro htype _ _ hfields hinside =>
    cases ht.symm.trans htype
    obtain ⟨v, hv, hadmits⟩ := hfields f hf
    exact ⟨v, hv, hadmits, fun hmessage inner hin => hinside f hf hmessage inner (hin ▸ hv)⟩

theorem Ready.records {extensions? : Option (RawMap)}
    (hext : t.hasExtensions = true → extensions?.isSome = true) (unknown? : Option Bytes) :
    Ready reg { m with extensions?, unknown? } :=
  .of_fits ht hm.clear hext fun _ hf => hm.field ht hf

theorem Ready.set {attr : String} (hfree : attr ∉ reservedAttrs)
    (hv : ∀ f ∈ t.fields, attr = f.slot.attr → f.Fits reg v) : Ready reg (m.set attr v) := by
  refine .of_fits ht (hm.clear.set hfree v)
    (fun h => Option.isSome_iff_exists.mpr (hm.extensions ht h)) fun f hf => ?_
  rw [Record.get?_set]
  by_cases heq : attr = f.slot.attr
  · exact ⟨v, if_pos (by simpa using heq), hv f hf heq⟩
  · rw [if_neg (by simpa using heq)]
    exact hm.field ht hf

end Ready

namespace Decode

section Records

variable (hwf : reg.WellFormed) (hsound : reg.Sound) {n : Nat} {nested : Nested}
  (hn : nested.SafeUpTo reg n) (hm : Ready reg m) (ht : m.HasType reg t)
include hwf hsound hn hm ht

theorem safe_mergeField (hf : f ∈ t.fields) (wire : Nat) (hbs : bs.length ≤ n) (hlocal : nested.Local) :
    (mergeField reg nested m f wire bs).Safe fun m' => Ready reg m' ∧ m'.type = m.type := by
  have hclass := hwf _ _ ht
  have hfree := hclass.field_attr_free hf
  obtain ⟨v, hv, hfits⟩ := hm.field ht hf
  unfold mergeField
  rw [Record.own?_eq_get? hfree, hv]
  refine (safe_field hwf hsound hn (hclass.fields f hf) wire hfits hbs hlocal).map fun w hw => ?_
  rw [Record.store_eq_set hfree]
  refine ⟨hm.set ht hfree fun g hg heq => ?_, rfl⟩
  rw [← hclass.field_eq_of_attr hf hg heq]
  exact hw

theorem safe_mergeMember (hgroup : group ∈ t.groups) (hmember : member ∈ group.members) (wire : Nat)
    (hbs : bs.length ≤ n) :
    (mergeMember reg nested m group member wire bs).Safe fun m' =>
      Ready reg m' ∧ m'.type = m.type := by
  have hclass := hwf _ _ ht
  have hfree := hclass.group_attr_free hgroup
  have hstep := safe_readStep hwf hsound hn (hclass.members group hgroup member hmember) hbs
  rw [mergeMember_eq]
  split
  · exact ⟨_, rfl⟩
  · refine ends_reading hstep fun r _ _ => ?_
    obtain ⟨w, hw⟩ := wrap_ok hwf hsound ht hgroup hmember r.1
    rw [hw, ok_bind, Record.store_eq_set hfree]
    exact ⟨hm.set ht hfree fun g hg heq => absurd heq (hclass.group_attr_ne hgroup hg), rfl⟩

omit hsound hn in
theorem keep_ok (number : Int) (raw : Bytes) :
    ∃ m', keep t.ranges m number raw = .ok m' ∧ Ready reg m' ∧ m'.type = m.type := by
  unfold keep
  split
  · rename_i hrange
    have hranges : t.ranges ≠ [] := by
      intro hnil
      rw [hnil] at hrange
      cases hrange
    obtain ⟨extensions, hext⟩ := hm.extensions ht ((hwf _ _ ht).extensible hranges)
    rw [hm.clear.extensionStore?_eq, hext]
    exact ⟨_, rfl, hm.records ht (fun _ => rfl) m.unknown?, rfl⟩
  · rw [hm.clear.addUnknown_eq]
    exact ⟨_, rfl, hm.records ht (fun h => Option.isSome_iff_exists.mpr (hm.extensions ht h)) _, rfl⟩

theorem safe_mergeRecord (number wire : Nat) (start : Bytes) (hbs : bs.length ≤ n) (hlocal : nested.Local) :
    (mergeRecord reg nested (Layout.ofType t) m number wire start bs).Safe fun m' =>
      Ready reg m' ∧ m'.type = m.type := by
  unfold mergeRecord
  split
  · rename_i f hfound
    exact safe_mergeField hwf hsound hn hm ht (mem_of_fieldNumbered? hfound).1 wire hbs hlocal
  split
  · rename_i group member hfound
    obtain ⟨codec, hcodec, hfound⟩ := Option.bind_eq_some_iff.mp hfound
    obtain ⟨hgroup, hmember, -⟩ := mem_of_findByNumber? hfound
    have hgroups : t.groups = codec.groups := by
      unfold MessageType.groups
      rw [show t.codec? = some codec from hcodec]
      rfl
    exact safe_mergeMember hwf hsound hn hm ht (hgroups ▸ hgroup) hmember wire hbs
  split
  · exact ⟨_, rfl⟩
  · rename_i rest hskip
    obtain ⟨m', hkeep, hready⟩ :=
      keep_ok hwf hm ht number (start.take (start.length - rest.length))
    rw [show (Layout.ofType t).ranges = t.ranges from rfl, hkeep]
    exact hready

end Records

section Messages

variable (hwf : reg.WellFormed)
include hwf

theorem safe_mergeSet (hm : Ready reg m) (ht : m.HasType reg t)
    (hset : t.isMessageSet = true) (bs : Bytes) :
    (mergeSet m bs).Safe fun m' => Ready reg m' ∧ m'.type = m.type := by
  obtain ⟨extensions, hext⟩ := hm.extensions ht ((hwf _ _ ht).set hset).1
  rw [mergeSet_eq hm.clear hext]
  cases (MessageSet.decode extensions bs).2 with
  | none => exact ⟨hm.records ht (fun _ => rfl) m.unknown?, rfl⟩
  | some e => exact ⟨e, rfl⟩

variable (hsound : reg.Sound)
include hsound

/-- Whatever the data is, it is merged into a ready message, or it is malformed. -/
theorem safe_merge (hm : Ready reg m) (bs : Bytes) : (merge reg m bs).Safe (Ready reg) := by
  have hkeeps : (readers reg).SafeUpTo reg bs.length := by
    refine keeps_readers (fun e => ⟨e, rfl⟩) (fun m hm => ?_)
      (fun m t bs hm ht hset => safe_mergeSet hwf hm ht hset bs) (fun _ _ _ _ => trivial)
      (fun m t start tag rest hm ht _ hn _ _ => safe_mergeRecord hwf hsound hn hm ht _ _ start
        (Nat.le_refl _) (local_readers reg)) _
    obtain ⟨t, ht⟩ : ∃ t, m.HasType reg t := by
      cases hm with
      | intro type _ _ _ _ => exact ⟨_, type⟩
    exact ⟨t, ht, hm.clear.layout_eq (hwf _ _ ht).toSettled ht⟩
  exact (hkeeps m bs (Nat.le_refl _) hm).1.imp fun _ h => h.1

end Messages

end Decode

end Protobind

import Protobind.Proofs.Concatenation

/-!
# The order of records

Each record belongs to a lane, that of its number or that of the oneof of its member, and reads and
changes only what the message has in its lane. So records with the same order in each lane give a
message with the same attributes and extensions (`Run.reorder`).
-/

namespace Protobind

open List Record Equality MessageType

variable {reg : Registry} {t : MessageType} {m m' : Message} {v : Value} {f : Field}
  {group : OneofSlot} {n : Nat}

/-! ## Lanes -/

section Lanes

variable {σ ρ lanes ν : Type} [DecidableEq lanes]

/-- Steps taken one after the other. -/
inductive Run (step : σ → ρ → σ → Prop) : σ → List ρ → σ → Prop
  | nil {s : σ} : Run step s [] s
  | cons {s s₁ s' : σ} {r : ρ} {rs : List ρ} (h : step s r s₁) (hrest : Run step s₁ rs s') :
      Run step s (r :: rs) s'

variable (step : σ → ρ → σ → Prop) (lane : ρ → lanes) (view : lanes → σ → ν) (inv : σ → Prop)

/-- Whether a step reads and changes only what the state has in the lane of the step. -/
structure Independent : Prop where
  keeps : ∀ {s s' : σ} {r : ρ}, inv s → step s r s' → inv s'
  frame : ∀ {s s' : σ} {r : ρ}, inv s → step s r s' → ∀ l ≠ lane r, view l s' = view l s
  same : ∀ {s s' u : σ} {r : ρ}, inv s → inv u → step s r s' →
    view (lane r) u = view (lane r) s → ∃ u', step u r u' ∧ view (lane r) u' = view (lane r) s'

/-- What the steps of one lane do to what a state has in it. -/
inductive Track (l : lanes) : ν → List ρ → ν → Prop
  | nil {v w : ν} (h : v = w) : Track l v [] w
  | cons {s s' : σ} {r : ρ} {rs : List ρ} {v w : ν} (hs : inv s) (hlane : lane r = l)
      (h : step s r s') (hv : view l s = v) (hrest : Track l (view l s') rs w) : Track l v (r :: rs) w

variable {step lane view inv} (hind : Independent step lane view inv)

include hind

theorem Run.track {s s' : σ} {rs : List ρ} (h : Run step s rs s') (hs : inv s) (l : lanes) :
    Track step lane view inv l (view l s) (rs.filter (lane · = l)) (view l s') := by
  induction h with
  | nil => exact .nil rfl
  | @cons s s₁ s' r rs h _ ih =>
    by_cases hlane : lane r = l
    · rw [filter_cons_of_pos (by simpa using hlane)]
      exact .cons hs hlane h rfl (ih (hind.keeps hs h))
    · rw [filter_cons_of_neg (by simpa using hlane), ← hind.frame hs h l (Ne.symm hlane)]
      exact ih (hind.keeps hs h)

theorem exists_run {w : lanes → ν} (rs : List ρ) : ∀ {s : σ}, inv s →
    (∀ l, Track step lane view inv l (view l s) (rs.filter (lane · = l)) (w l)) →
      ∃ s', Run step s rs s' ∧ inv s' ∧ ∀ l, view l s' = w l := by
  induction rs with
  | nil =>
    intro s hs htracks
    refine ⟨s, .nil, hs, fun l => ?_⟩
    obtain ⟨h⟩ | _ := htracks l
    exact h
  | cons r rs ih =>
    intro s hs htracks
    have hown := htracks (lane r)
    rw [filter_cons_of_pos (by simp)] at hown
    obtain _ | ⟨hs₀, _, hstep, hview, hrest⟩ := hown
    obtain ⟨s₁, hstep', hview'⟩ := hind.same hs₀ hs hstep hview.symm
    have hnext : ∀ l, Track step lane view inv l (view l s₁) (rs.filter (lane · = l)) (w l) := by
      intro l
      by_cases hlane : lane r = l
      · subst hlane
        rw [hview']
        exact hrest
      · have hother := htracks l
        rw [filter_cons_of_neg (by simpa using hlane)] at hother
        rw [hind.frame hs hstep' l (Ne.symm hlane)]
        exact hother
    obtain ⟨s', hrun, hs', hviews⟩ := ih (hind.keeps hs hstep') hnext
    exact ⟨s', .cons hstep' hrun, hs', hviews⟩

/-- Steps in another order, but in the same order in each lane, lead to the same in each lane. -/
theorem Run.reorder {s s' : σ} {rs rs' : List ρ} (h : Run step s rs s') (hs : inv s)
    (hsame : ∀ l, rs'.filter (lane · = l) = rs.filter (lane · = l)) :
    ∃ s'', Run step s rs' s'' ∧ inv s'' ∧ ∀ l, view l s'' = view l s' :=
  exists_run hind rs' hs fun l => hsame l ▸ h.track hind hs l

end Lanes

/-! ## Records -/

namespace Decode

/-- The number in the key of a record. -/
def recordNumber (raw : Bytes) : Nat :=
  match Varint.read raw with
  | .ok tag _ => tag / 8
  | .error _ _ => 0

/-- Whether a byte string is one record that turns a message of a class into another one. -/
def Step (reg : Registry) (t : MessageType) (m : Message) (raw : Bytes) (m' : Message) : Prop :=
  (∃ tag value, Varint.read raw = .ok tag value ∧ tag % 8 ≠ WireType.endGroup.code) ∧
    nextRecord reg (readers reg) (.ofType t) m raw = .done m' []

theorem records_of_run {rs : List Bytes} (h : Run (Step reg t) m rs m') :
    records reg false (.ofType t) m rs.flatten = .done m' [] := by
  induction h with
  | nil => exact records_nil
  | @cons m m₁ m' raw rs h _ ih =>
    obtain ⟨⟨tag, value, hkey, hend⟩, hnext⟩ := h
    have hone : records reg false (.ofType t) m raw = .done m₁ [] := by
      rw [records_next hkey, step_of_read hkey, if_neg hend, hnext]
      exact records_nil
    rw [flatten_cons, records_append hone]
    exact ih

theorem exists_run_of_records {d : Bytes} (h : records reg false (.ofType t) m d = .done m' []) :
    ∃ rs : List Bytes, rs.flatten = d ∧ Run (Step reg t) m rs m' := by
  refine records_induction (motive := fun m d => ∃ rs : List Bytes, rs.flatten = d ∧ Run (Step reg t) m rs m')
    (fun _ => ⟨[], rfl, .nil⟩) (fun m m₁ tag key value rest hkey hend hnext ih => ?_) h
  obtain ⟨rs, hrs, hrun⟩ := ih
  refine ⟨(key ++ value) :: rs, by rw [flatten_cons, hrs], .cons ⟨⟨tag, value, hkey _, hend⟩, ?_⟩ hrun⟩
  have hone := hnext []
  rwa [append_nil] at hone

/-- Whether a value is a variant of the class of a member. -/
def Wraps (reg : Registry) (member : VariantMember) (v : Value) : Prop :=
  ∃ id vt held, member.variant = .ok (.type id) ∧ reg.variantType? id = some vt ∧
    v = .variant id vt.stored held

/-- What one record can do: change the value of its field by what that was, replace its oneof by a
variant, or be kept as it is. -/
theorem step_cases (hclass : t.WellFormed reg) {raw : Bytes} (h : Step reg t m raw m') :
    (∃ f ∈ t.fields, f.number = recordNumber raw ∧ ∃ current v, m.get? f.slot.attr = some current ∧
        m' = m.set f.slot.attr v ∧ ∀ u : Message, u.get? f.slot.attr = some current →
          Step reg t u raw (u.set f.slot.attr v)) ∨
      (∃ group ∈ t.groups, ∃ member ∈ group.members, member.number = recordNumber raw ∧
        ∃ v, Wraps reg member v ∧ m' = m.set group.attr v ∧ ∀ u : Message, Step reg t u raw (u.set group.attr v)) ∨
      (recordNumber raw : Int) ∉ t.numbers ∧ keep t.ranges m (recordNumber raw) raw = .ok m' ∧
        ∀ u u' : Message, keep t.ranges u (recordNumber raw) raw = .ok u' → Step reg t u raw u' := by
  obtain ⟨⟨tag, value, hkey, hend⟩, hnext⟩ := h
  have hnumber : recordNumber raw = tag / 8 := by simp only [recordNumber, hkey]
  have hnextRecord (u : Message) (hpos : tag / 8 ≠ 0) :
      nextRecord reg (readers reg) (.ofType t) u raw =
        mergeRecord reg (readers reg) (.ofType t) u (tag / 8) (tag % 8) raw value := by
    simp only [nextRecord, hkey, if_neg hpos]
  have hpos : tag / 8 ≠ 0 := by
    intro hzero
    simp only [nextRecord, hkey, if_pos hzero] at hnext
    cases hnext
  have hstep (u u' : Message)
      (hu : mergeRecord reg (readers reg) (.ofType t) u (tag / 8) (tag % 8) raw value = .done u' []) :
      Step reg t u raw u' :=
    ⟨⟨tag, value, hkey, hend⟩, (hnextRecord u hpos).trans hu⟩
  rw [hnextRecord m hpos] at hnext
  rw [hnumber]
  by_cases hnew : ((tag / 8 : Nat) : Int) ∈ t.numbers
  · rcases mem_numbers.mp hnew with ⟨f, hf, hf'⟩ | ⟨group, hgroup, member, hmember, hmember'⟩
    · have hfree := hclass.field_attr_free hf
      have hmerge := fun u => hclass.mergeRecord_field hf (readers reg) u (tag % 8) raw value
      rw [show f.number.toNat = tag / 8 by omega] at hmerge
      rw [hmerge, mergeField, own?_eq_get? hfree] at hnext
      split at hnext
      · cases hnext
      · rename_i current hcurrent
        obtain ⟨v, hv, rfl⟩ := map_eq_done hnext
        refine .inl ⟨f, hf, hf', current, v, hcurrent, store_eq_set hfree m v, fun u hu => hstep _ _ ?_⟩
        rw [hmerge, mergeField, own?_eq_get? hfree, hu]
        simp only [hv, Outcome.map, store_eq_set hfree u v]
    · have hfree := hclass.group_attr_free hgroup
      have hmerge := fun u => hclass.mergeRecord_member hgroup hmember (readers reg) u (tag % 8) raw value
      rw [show member.number.toNat = tag / 8 by omega] at hmerge
      rw [hmerge, mergeMember] at hnext
      simp only at hnext
      split at hnext
      · rename_i v rest hread
        cases hnext
        obtain ⟨⟨held, _⟩, -, hwrap⟩ := bind_eq_ok.mp hread
        obtain ⟨_, hwrap, hpure⟩ := bind_eq_ok.mp hwrap
        cases hpure
        obtain ⟨id, vt, hvariant, hvt⟩ := (hclass.members group hgroup member hmember).variant
        refine .inr (.inl ⟨group, hgroup, member, hmember, hmember', v,
          ⟨id, vt, _, hvariant, hvt, (wrap_eq_ok hvariant hvt hwrap).2⟩, store_eq_set hfree m v,
          fun u => hstep _ _ ?_⟩)
        rw [hmerge, mergeMember]
        simp only [hread, store_eq_set hfree u v]
      · cases hnext
  · have hmerge := fun u => @mergeRecord_unknown _ reg t hnew (readers reg) u (tag % 8) raw value
    rw [hmerge] at hnext
    split at hnext
    · cases hnext
    · rename_i rest hskip
      split at hnext
      · rename_i hkeep
        cases hnext
        simp only [length_nil, Nat.sub_zero, take_length] at hkeep
        refine .inr (.inr ⟨hnew, hkeep, fun u u' hu => hstep _ _ ?_⟩)
        rw [hmerge, hskip]
        simp only [length_nil, Nat.sub_zero, take_length, hu]
      · cases hnext

end Decode

/-! ## The lanes of a message -/

open Decode

inductive Lane where
  | attr (name : String)
  | kept (number : Nat)
  deriving DecidableEq

namespace MessageType

/-- The lane of a number: the attribute of its field, or of the oneof that it is a member of. -/
def lane (t : MessageType) (number : Nat) : Lane :=
  match fieldNumbered? number t.fields, findByNumber? number t.groups with
  | some f, _ => .attr f.slot.attr
  | none, some (group, _) => .attr group.attr
  | none, none => .kept number

theorem lane_of_field (h : t.WellFormed reg) (hf : f ∈ t.fields) (hn : f.number = n) :
    t.lane n = .attr f.slot.attr := by
  have hfound := h.fieldNumbered?_field hf
  rw [hn] at hfound
  simp only [lane, hfound]

theorem lane_of_member (h : t.WellFormed reg) (hgroup : group ∈ t.groups) {member : VariantMember}
    (hmember : member ∈ group.members) (hn : member.number = n) : t.lane n = .attr group.attr := by
  have hfound := h.findByNumber?_member hgroup hmember
  have hnone := h.fieldNumbered?_member hgroup hmember
  rw [hn] at hfound hnone
  simp only [lane, hfound, hnone]

theorem lane_of_new (h : (n : Int) ∉ t.numbers) : t.lane n = .kept n := by
  rw [numbers, mem_append, not_or] at h
  simp only [lane, fieldNumbered?_eq_none h.1, findByNumber?_eq_none h.2]

theorem lane_cases (h : t.WellFormed reg) (n : Nat) :
    (∃ f ∈ t.fields, f.number = n ∧ t.lane n = .attr f.slot.attr) ∨
      (∃ group ∈ t.groups, (n : Int) ∈ group.members.map (·.number) ∧ t.lane n = .attr group.attr) ∨
      t.lane n = .kept n := by
  by_cases hnew : (n : Int) ∈ t.numbers
  · rcases mem_numbers.mp hnew with ⟨f, hf, hn⟩ | ⟨group, hgroup, member, hmem, hn⟩
    · exact .inl ⟨f, hf, hn, lane_of_field h hf hn⟩
    · exact .inr (.inl ⟨group, hgroup, hn ▸ mem_map_of_mem hmem, lane_of_member h hgroup hmem hn⟩)
  · exact .inr (.inr (lane_of_new hnew))

theorem lane_eq_field (h : t.WellFormed reg) (hf : f ∈ t.fields) (hn : f.number = n) (k : Nat) :
    t.lane k = .attr f.slot.attr ↔ k = n := by
  refine ⟨fun heq => ?_, fun hk => hk ▸ lane_of_field h hf hn⟩
  rcases lane_cases h k with ⟨g, hg, hk, hlane⟩ | ⟨group, hgroup, _, hlane⟩ | hlane <;>
    simp only [hlane, Lane.attr.injEq, reduceCtorEq] at heq
  · rw [h.field_eq_of_attr hg hf heq] at hk
    exact Int.ofNat.inj (hk.symm.trans hn)
  · exact absurd heq (h.group_attr_ne hgroup hf)

/-- Whether two sequences of records have the same records in the same order under each number, and
among the members of each oneof. -/
def SameOrder (t : MessageType) (rs rs' : List Bytes) : Prop :=
  (∀ n, rs'.filter (recordNumber · = n) = rs.filter (recordNumber · = n)) ∧
    ∀ group ∈ t.groups, rs'.filter (fun raw => (recordNumber raw : Int) ∈ group.members.map (·.number)) =
      rs.filter fun raw => (recordNumber raw : Int) ∈ group.members.map (·.number)

/-- Numbers have the same lane only if they are the same, or members of the same oneof. -/
theorem SameOrder.lanes (h : t.WellFormed reg) {rs rs' : List Bytes} (hsame : t.SameOrder rs rs') (l : Lane) :
    rs'.filter (fun raw => t.lane (recordNumber raw) = l) =
      rs.filter fun raw => t.lane (recordNumber raw) = l := by
  by_cases hused : ∃ n, t.lane n = l
  · obtain ⟨n, rfl⟩ := hused
    rcases lane_cases h n with ⟨f, hf, hn, hlane⟩ | ⟨group, hgroup, _, hlane⟩ | hlane
    · simp only [hlane, lane_eq_field h hf hn]
      exact hsame.1 n
    · have hiff : ∀ k, t.lane k = t.lane n ↔ (k : Int) ∈ group.members.map (·.number) := by
        intro k
        rw [hlane]
        constructor
        · intro heq
          rcases lane_cases h k with ⟨g, hg, _, hlane'⟩ | ⟨group', hgroup', hk, hlane'⟩ | hlane' <;>
            simp only [hlane', Lane.attr.injEq, reduceCtorEq] at heq
          · exact absurd heq.symm (h.group_attr_ne hgroup hg)
          · rwa [← inj_on_of_nodup_map (List.Nodup.of_append_right h.attrsOnce) hgroup' hgroup heq]
        · intro hk
          obtain ⟨member, hmember, hk⟩ := mem_map.mp hk
          exact lane_of_member h hgroup hmember hk
      simp only [hiff]
      exact hsame.2 group hgroup
    · have hiff : ∀ k, t.lane k = t.lane n ↔ k = n := by
        refine fun k => ⟨fun heq => ?_, congrArg _⟩
        rw [hlane] at heq
        rcases lane_cases h k with ⟨_, _, _, hlane'⟩ | ⟨_, _, _, hlane'⟩ | hlane' <;>
          simp only [hlane', Lane.kept.injEq, reduceCtorEq] at heq
        exact heq
      simp only [hiff]
      exact hsame.1 n
  · have hnever : ∀ raws : List Bytes, raws.filter (fun raw => t.lane (recordNumber raw) = l) = [] := by
      refine fun raws => filter_eq_nil_iff.mpr fun raw _ => ?_
      simpa using fun heq => hused ⟨_, heq⟩
    rw [hnever, hnever]

end MessageType

/-- What a message has in a lane: the value of an attribute, or the bytes of an extension. -/
def Record.view : Lane → Message → Option Value × Option Bytes
  | .attr name, m => (m.get? name, none)
  | .kept n, m => (none, m.extensions?.bind (Dictionary.get? (n : Int)))

theorem Record.view_set {l : Lane} {attr : String} (h : l ≠ .attr attr) (m : Message) (v : Value) :
    (m.set attr v).view l = m.view l := by
  cases l with
  | attr name =>
    have hne : attr ≠ name := fun heq => h (by rw [heq])
    simp only [view, get?_set, beq_iff_eq, if_neg hne]
  | kept n => rfl

section Records

variable (hreg : reg.Regular) (hstores : reg.StoresOneofs) (hset : t.isMessageSet = false)

include hreg

/-- A record that is kept changes at most the extension with its number, by what that was. -/
theorem Decode.keep_view (hm : (Value.message m).Filled reg Kind.Reads)
    (ht : m.HasType reg t) (n : Nat) (raw : Bytes) :
    ∃ m', keep t.ranges m n raw = .ok m' ∧ (∀ l ≠ .kept n, m'.view l = m.view l) ∧
      m'.view (.kept n) = (none, if inRanges n t.ranges then
        some ((m.view (.kept n)).2.getD [] ++ raw) else (m.view (.kept n)).2) := by
  have hclass := hreg _ _ ht
  have htakes := ((Value.filled_message ht).mp hm).1
  have hclear := htakes.clear hclass.toStoresApart
  unfold keep
  split
  · rename_i hrange
    have hranges : t.ranges ≠ [] := by
      intro hnil
      rw [hnil] at hrange
      cases hrange
    obtain ⟨ext, hext⟩ := Option.isSome_iff_exists.mp
      (htakes.extensions.trans (hclass.extensible hranges))
    rw [hclear.extensionStore?_eq, hext]
    refine ⟨_, rfl, fun l hl => ?_, ?_⟩
    · cases l with
      | attr name => rfl
      | kept k =>
        have hne : (n : Int) ≠ k := fun heq => hl (by rw [Int.ofNat.inj heq])
        simp [view, withStore, hext, Dictionary.get?_set, hne]
    · simp [view, withStore, hext, Dictionary.get?_set]
  · rw [hclear.addUnknown_eq]
    refine ⟨_, rfl, fun l _ => ?_, rfl⟩
    cases l <;> rfl

/-- Whether a message is well-typed and of a class. -/
def Registry.Holds (reg : Registry) (t : MessageType) (m : Message) : Prop :=
  (Value.message m).Filled reg Kind.Reads ∧ reg.messageType? m.type = some t

include hstores hset

theorem Decode.independent_step :
    Independent (Step reg t) (fun raw => t.lane (recordNumber raw)) view (reg.Holds t) where
  keeps := by
    rintro m m' raw ⟨hm, ht⟩ hstep
    have hread := records_of_run (.cons hstep .nil)
    rw [flatten_cons, flatten_nil, append_nil, ← merge_eq_records hreg hm ht hset] at hread
    obtain ⟨hm', htype⟩ := (grows_merge hreg hstores hm raw).of_done hread
    exact ⟨hm', by rw [htype, ht]⟩
  frame := by
    rintro m m' raw ⟨hm, ht⟩ hstep l hl
    have hclass := hreg _ _ ht
    rcases step_cases hclass.toWellFormed hstep with ⟨f, hf, hn, current, v, _, rfl, _⟩ |
      ⟨group, hgroup, member, hmember, hn, v, _, rfl, _⟩ | ⟨hnew, hkeep, _⟩
    · rw [lane_of_field hclass.toWellFormed hf hn] at hl
      exact view_set hl m v
    · rw [lane_of_member hclass.toWellFormed hgroup hmember hn] at hl
      exact view_set hl m v
    · rw [lane_of_new hnew] at hl
      obtain ⟨m'', hkeep', hframe, _⟩ := keep_view hreg hm ht (recordNumber raw) raw
      cases hkeep.symm.trans hkeep'
      exact hframe l hl
  same := by
    rintro m m' u raw ⟨hm, ht⟩ ⟨hu, htu⟩ hstep hview
    have hclass := hreg _ _ ht
    rcases step_cases hclass.toWellFormed hstep with ⟨f, hf, hn, current, v, hcurrent, rfl, hagain⟩ |
      ⟨group, hgroup, member, hmember, hn, v, _, rfl, hagain⟩ | ⟨hnew, hkeep, hagain⟩
    · rw [lane_of_field hclass.toWellFormed hf hn] at hview ⊢
      refine ⟨_, hagain u ((congrArg Prod.fst hview).trans hcurrent), ?_⟩
      simp only [view, get?_set_self]
    · rw [lane_of_member hclass.toWellFormed hgroup hmember hn]
      refine ⟨_, hagain u, ?_⟩
      simp only [view, get?_set_self]
    · rw [lane_of_new hnew] at hview ⊢
      obtain ⟨m'', hkeep', _, hown⟩ := keep_view hreg hm ht (recordNumber raw) raw
      obtain ⟨u', hkeepU, _, hownU⟩ := keep_view hreg hu htu (recordNumber raw) raw
      cases hkeep.symm.trans hkeep'
      exact ⟨u', hagain u u' hkeepU, by rw [hownU, hown, hview]⟩

omit hstores in
/-- Messages that have the same in each lane have the same attributes and the same extensions. -/
theorem Registry.Holds.same_of_views (hm : reg.Holds t m) (hm' : reg.Holds t m')
    (hviews : ∀ l, m'.view l = m.view l) :
    (∀ name, m'.get? name = m.get? name) ∧ Option.Rel List.Perm m'.extensions? m.extensions? := by
  have htakes := ((Value.filled_message hm.2).mp hm.1).1
  have htakes' := ((Value.filled_message hm'.2).mp hm'.1).1
  have hmem : ∀ {n n' : Message} {ext ext' : RawMap}, t.Takes reg Kind.Reads n →
      n.extensions? = some ext → n'.extensions? = some ext' → (∀ l, n'.view l = n.view l) →
        ∀ e ∈ ext, e ∈ ext' := by
    rintro n n' ext ext' hn hext hext' hsame ⟨number, raw⟩ he
    have hrange := (hn.extension ext hext number raw he).1
    rw [if_neg (by simp [hset])] at hrange
    have hpos := ((hreg _ _ hm.2).apart number hrange).1.1
    have hview := congrArg Prod.snd (hsame (.kept number.toNat))
    simp only [view, hext, hext', Option.bind_some, Int.toNat_of_nonneg (Int.le_of_lt hpos),
      Dictionary.get?_of_mem (hn.numbersOnce ext hext) he] at hview
    exact Dictionary.mem_of_get? hview
  refine ⟨fun name => congrArg Prod.fst (hviews (.attr name)), ?_⟩
  have hsome := htakes.extensions.trans htakes'.extensions.symm
  cases hext : m.extensions? with
  | none =>
    rw [hext] at hsome
    rw [Option.isSome_eq_false_iff.mp hsome.symm |> Option.isNone_iff_eq_none.mp]
    exact .none
  | some ext =>
    rw [hext] at hsome
    obtain ⟨ext', hext'⟩ := Option.isSome_iff_exists.mp hsome.symm
    rw [hext']
    refine .some ((perm_ext_iff_of_nodup (.of_map _ (htakes'.numbersOnce _ hext'))
      (.of_map _ (htakes.numbersOnce _ hext))).mpr fun e => ⟨?_, ?_⟩)
    · exact hmem htakes' hext' hext (fun l => (hviews l).symm) e
    · exact hmem htakes hext hext' hviews e

end Records

/-! ## Comparing a message with itself -/

/-- Whether a message or a variant can be compared: no attribute of its class takes the place of the
list of the attributes compared, or of the comparison itself, and the value of a variant can be read. -/
def Registry.Exposes (reg : Registry) : Value → Prop
  | .message m => ∀ t, reg.messageType? m.type = some t → "_compared_attributes" ∉ t.storedAttrs
  | .variant id _ _ => ∀ vt, reg.variantType? id = some vt →
    vt.hides "__eq__" = false ∧ vt.slotFault? = none
  | _ => True

/-- Whether all messages and variants inside a value can be compared. -/
def Registry.Comparable (reg : Registry) (v : Value) : Prop :=
  ∀ u, reg.Inside u v → reg.Exposes u

/-- Whether a value equals itself if it can be compared, and nothing otherwise. -/
def Registry.Settles (reg : Registry) (v : Value) : Prop :=
  (reg.Comparable v → EqualTo reg v v) ∧
    ∀ fuel w, bounded reg fuel false v w = .ok true → reg.Comparable v

section Settles

theorem comparable_of_isKey (h : v.isKey = true) : reg.Comparable v := by
  intro u hin
  cases hin with
  | self => cases v <;> trivial
  | _ => cases h

theorem settles_scalar {kind : Kind} (h : kind.Accepts v) : reg.Settles v :=
  ⟨fun _ => h.equalTo (.inl rfl) reg, fun _ _ _ => comparable_of_isKey h.isKey⟩

theorem settles_null : reg.Settles .null :=
  ⟨fun _ => equalTo_null reg, fun _ _ _ => comparable_of_isKey rfl⟩

theorem comparable_of_found {w : Value} (h : reg.Settles v) {fuel : Nat}
    (hfound : found (bounded reg fuel false) v w = .ok true) :
    reg.Comparable v := by
  unfold found at hfound
  split at hfound
  · exact comparable_of_isKey rfl
  · exact h.2 _ _ hfound

theorem settles_list {items : List Value} (h : ∀ item ∈ items, reg.Settles item) :
    reg.Settles (.list items) := by
  constructor
  · intro hv
    exact equalTo_list (forall₂_same.mpr fun item hmem =>
      (h item hmem).1 fun u hu => hv u (.item hmem hu))
  · intro fuel w hequal u hu
    obtain ⟨k, ws, hitems⟩ := list_of_equal hequal
    cases hu with
    | self => trivial
    | item hmem hu =>
      obtain ⟨w, hfound⟩ := sameItems_of_mem hitems hmem
      exact comparable_of_found (h _ hmem) hfound u hu

theorem settles_map {entries : List (Value × Value)} (hdistinct : DistinctKeys entries)
    (hkeys : ∀ e ∈ entries, ∃ kind : Kind, kind.Accepts e.1)
    (h : ∀ e ∈ entries, reg.Settles e.2) : reg.Settles (.map entries) := by
  constructor
  · intro hv
    refine equalTo_map (forall₂_same.mpr fun e he => ⟨.inl rfl, ?_⟩) hdistinct fun e he => ?_
    · exact (h e he).1 fun u hu => hv u (.entry he hu)
    · obtain ⟨kind, hkind⟩ := hkeys e he
      exact hkind.sameKey_self
  · intro fuel w hequal u hu
    obtain ⟨k, others, hentries⟩ := map_of_equal hequal
    cases hu with
    | self => trivial
    | key hmem hu =>
      obtain ⟨kind, hkind⟩ := hkeys _ hmem
      exact comparable_of_isKey hkind.isKey u hu
    | entry hmem hu =>
      obtain ⟨w, hfound⟩ := allEntries_of_mem hentries hmem
      exact comparable_of_found (h _ hmem) hfound u hu

theorem settles_variant {id : ClassId} {vt : VariantType} (hvt : reg.variantType? id = some vt)
    (stored : String) {held : Value} (h : reg.Settles held) :
    reg.Settles (.variant id stored held) := by
  constructor
  · intro hv fuel hfuel
    obtain ⟨fuel, rfl⟩ : ∃ k, fuel = k + 1 := ⟨fuel - 1, by omega⟩
    rw [Value.weight] at hfuel
    obtain ⟨hhides, hslot⟩ := hv _ .self vt hvt
    rw [bounded_variant reg fuel hvt, hhides, hslot]
    exact h.1 (fun u hu => hv u (.held hu)) fuel (by omega)
  · intro fuel w hequal u hu
    obtain ⟨hhides, hslot, k, w', hheld⟩ := variant_of_equal hvt hequal
    cases hu with
    | self =>
      intro vt' hvt'
      cases hvt.symm.trans hvt'
      exact ⟨hhides, hslot⟩
    | held hu => exact h.2 _ _ hheld u hu

section Parts

variable (hin : ∀ inner, reg.Inside (.message inner) v → reg.Settles (.message inner))

include hin

theorem Slot.Takes.settles {slot : Slot} (h : slot.Takes reg Kind.Accepts v) : reg.Settles v := by
  obtain ⟨kind, _, h⟩ := h
  split at h
  · obtain ⟨inner, _, rfl, _⟩ := h
    exact hin inner .self
  · exact settles_scalar h

theorem Field.Takes.settles (hf : f.Regular reg) (h : f.Takes reg Kind.Accepts v) :
    reg.Settles v := by
  cases f with
  | plain slot =>
    simp only [Field.Takes] at h
    split at h
    · obtain ⟨items, rfl, hitems⟩ := h
      exact settles_list fun item hmem =>
        (hitems item hmem).settles fun inner hinner => hin inner (.item hmem hinner)
    · rcases h with ⟨rfl, _⟩ | h
      · exact settles_null
      · exact h.settles hin
  | map slot key val =>
    obtain ⟨entries, rfl, hdistinct, hentries⟩ := h
    refine settles_map hdistinct (fun e he => ?_) fun e he =>
      (hentries e.1 e.2 he).2.settles fun inner hinner => hin inner (.entry he hinner)
    obtain ⟨key, val, rfl, rfl⟩ := hf.map_plain
    obtain ⟨kind, hkind, hkey⟩ := (hentries e.1 e.2 he).1
    have hmessage := hf.2.1
    rw [show key.kind = .known kind from hkind] at hmessage
    rw [if_neg (by rw [show kind.isMessage = false from hmessage]; simp)] at hkey
    exact ⟨kind, hkey⟩

theorem OneofSlot.Takes.settles (h : group.Takes reg Kind.Accepts v) : reg.Settles v := by
  obtain ⟨member, _, id, vt, held, _, hvt, rfl, _, hheld⟩ := h
  refine settles_variant hvt _ ?_
  unfold VariantMember.Takes at hheld
  split at hheld
  · obtain ⟨inner, rfl, _⟩ := hheld
    exact hin inner (.held .self)
  · exact settles_scalar hheld

end Parts

theorem Registry.Inside.weight_le {u : Value} (h : reg.Inside u v) : u.weight ≤ v.weight := by
  induction h with
  | self => exact Nat.le_refl _
  | item hmem _ ih =>
    have := Value.weight_le_weightItems hmem
    rw [Value.weight]
    omega
  | key hmem _ ih =>
    have := (Value.weight_le_weightEntries hmem).1
    rw [Value.weight]
    omega
  | entry hmem _ ih =>
    have := (Value.weight_le_weightEntries hmem).2
    rw [Value.weight]
    omega
  | held _ ih =>
    rw [Value.weight]
    omega
  | @attr m _ _ _ _ _ hget _ ih =>
    have : _ < (Value.message m).weight := weight_lt_of_get? hget
    omega

variable (hreg : reg.Regular) (hm : (Value.message m).Filled reg Kind.Accepts)
  (ht : m.HasType reg t)

include hreg hm ht

theorem equalTo_of_comparable (hattrs : ∀ attr ∈ t.codecAttrs, ∀ v, m.get? attr = some v → reg.Settles v)
    (hcompare : reg.Comparable (.message m)) (htype : m'.type = m.type) (hclear : m'.Clear)
    (hsame : ∀ name, m'.get? name = m.get? name) (hext : Option.Rel List.Perm m'.extensions? m.extensions?) :
    EqualTo reg (.message m) (.message m') := by
  have htakes := ((Value.filled_message ht).mp hm).1
  have hclass := hreg _ _ ht
  refine equalTo_message hclass ht htakes.toInstance (hcompare _ .self t ht) htype hclear
    (fun attr hattr => ?_) htakes.numbersOnce hext
  rw [hsame]
  cases hv : m.get? attr with
  | none => exact .none
  | some v =>
    exact .some ((hattrs attr hattr v hv).1 fun u hu => hcompare u (.attr ht hattr hv hu))

theorem settles_of_attrs
    (hattrs : ∀ attr ∈ t.codecAttrs, ∀ v, m.get? attr = some v → reg.Settles v) :
    reg.Settles (.message m) := by
  have htakes := ((Value.filled_message ht).mp hm).1
  have hclass := hreg _ _ ht
  have hclear := htakes.clear hclass.toStoresApart
  constructor
  · intro hcompare
    refine equalTo_of_comparable hreg hm ht hattrs hcompare rfl hclear (fun _ => rfl) ?_
    cases m.extensions? with
    | none => exact .none
    | some ext => exact .some (.refl ext)
  · intro fuel w hequal u hu
    obtain ⟨hhas, hequals⟩ := message_of_equal ht hclear hequal
    cases hu with
    | self =>
      intro t' ht' hstored
      cases ht.symm.trans ht'
      obtain ⟨v, hv⟩ := htakes.get?_eq_some hstored
      rw [has, own?_eq_get? (by decide), hv] at hhas
      cases hhas
    | attr ht' hattr hget hu =>
      cases ht.symm.trans ht'
      obtain ⟨k, w', hvalue⟩ := hequals _ (by rw [hclass.compared]; exact hattr)
      rw [own?_eq_get? (hclass.attrsFree _ hattr), hget] at hvalue
      exact (hattrs _ hattr _ hget).2 _ _ hvalue u hu

theorem settles_attrs
    (hin : ∀ inner, reg.Inside (.message inner) (.message m) → inner.weight < m.weight →
      reg.Settles (.message inner)) :
    ∀ attr ∈ t.codecAttrs, ∀ v, m.get? attr = some v → reg.Settles v := by
  intro attr hattr v hv
  have htakes := ((Value.filled_message ht).mp hm).1
  have hless : ∀ inner, reg.Inside (.message inner) v → reg.Settles (.message inner) := by
    intro inner hinner
    have hle : inner.weight ≤ v.weight := hinner.weight_le
    have hlt := weight_lt_of_get? hv
    exact hin inner (.attr ht hattr hv hinner) (by omega)
  rcases mem_codecAttrs.mp hattr with ⟨f, hf, rfl⟩ | ⟨group, hgroup, rfl⟩
  · exact (htakes.fields f hf v hv).settles hless ((hreg _ _ ht).entries f hf)
  · rcases htakes.oneofs group hgroup v hv with rfl | h
    · exact settles_null
    · exact h.settles hless

end Settles

theorem settles_message (hreg : reg.Regular) (hm : (Value.message m).Filled reg Kind.Accepts) :
    reg.Settles (.message m) := by
  induction hn : m.weight using Nat.strongRecOn generalizing m with
  | ind n ih =>
    obtain ⟨t, ht, _⟩ := hm m .self
    refine settles_of_attrs hreg hm ht (settles_attrs hreg hm ht fun inner hin hless => ?_)
    exact ih _ (hn ▸ hless) (fun x hx => hm x (hx.trans hin)) rfl

/-- Data that is read is a sequence of records. Whatever their order, as long as it is the same under
each number and among the members of each oneof, they give a message with the same attributes and
extensions. The two are found equal unless a name in a class gets in the way of comparing them. -/
theorem reordered_records {reg : Registry} (hreg : reg.Regular) (hstores : reg.StoresOneofs)
    {into start m : Message} {t : MessageType} (ht : reg.messageType? into.type = some t)
    (hset : t.isMessageSet = false) (hinto : t.Instance into) {d : Bytes}
    (hreset : reg.reset into = .ok start) (hread : merge reg start d = .done m [])
    (hnan : reg.NaNFree (.message m)) :
    (∃ rs : List Bytes, rs.flatten = d ∧ Run (Step reg t) start rs m) ∧
      ∀ rs, Run (Step reg t) start rs m → ∀ rs', t.SameOrder rs rs' →
        ∃ m', merge reg start rs'.flatten = .done m' [] ∧ (∀ name, m'.get? name = m.get? name) ∧
          Option.Rel List.Perm m'.extensions? m.extensions? ∧
          (equalValues reg false (.message m) (.message m') = .ok true ↔
            reg.Comparable (.message m)) := by
  obtain ⟨_, hstart, htype⟩ := grows_reset hreg ht hinto hreset
  have hclass := hreg _ _ ht
  have hholds : reg.Holds t start := ⟨hstart, htype ▸ ht⟩
  have hrecords := merge_eq_records hreg hstart hholds.2 hset
  obtain ⟨hm, hmtype⟩ := (grows_merge hreg hstores hstart d).of_done hread
  have hmt : reg.messageType? m.type = some t := hmtype ▸ hholds.2
  refine ⟨exists_run_of_records (hrecords d ▸ hread), fun rs hrun rs' hsame => ?_⟩
  obtain ⟨m', hrun', hm', hviews⟩ := hrun.reorder (independent_step hreg hstores hset) hholds
    (hsame.lanes hclass.toWellFormed)
  have hread' : merge reg start rs'.flatten = .done m' [] := by
    rw [hrecords]
    exact records_of_run hrun'
  obtain ⟨hattrs, hext⟩ := Registry.Holds.same_of_views hreg hset ⟨hm, hmt⟩ hm' hviews
  obtain ⟨_, hmtype'⟩ := (grows_merge hreg hstores hstart rs'.flatten).of_done hread'
  have haccepts := hm.accepts hnan
  refine ⟨m', hread', hattrs, hext, fun hequal => (settles_message hreg haccepts).2 _ _ hequal,
    fun hcompare => ?_⟩
  have hclear := ((Value.filled_message hm'.2).mp hm'.1).1.clear hclass.toStoresApart
  refine (equalTo_of_comparable hreg haccepts hmt (settles_attrs hreg haccepts hmt fun inner hin _ => ?_)
    hcompare (hmtype'.trans hmtype.symm) hclear hattrs hext).holds
  exact settles_message hreg fun x hx => haccepts x (hx.trans hin)

/-- The message inside and the oneof around it are read in either order. The two messages are not found
equal where a field is named as the list of the attributes compared is. -/
theorem reordered_records_tree :
    (∃ m', merge (treeRegistry "v") (treeBlank "v") [26, 2, 97, 98, 18, 4, 26, 2, 97, 98] = .done m' [] ∧
      equalValues (treeRegistry "v") false
        (.message (treeWord "v" (.message (treeWord "v" .null)))) (.message m') = .ok true) ∧
      ∃ m', merge (treeRegistry "_compared_attributes") (treeBlank "_compared_attributes")
          [26, 2, 97, 98, 18, 4, 26, 2, 97, 98] = .done m' [] ∧
        equalValues (treeRegistry "_compared_attributes") false
          (.message (treeWord "_compared_attributes" (.message (treeWord "_compared_attributes" .null))))
          (.message m') ≠ .ok true := by
  have hnull (attr : String) : (treeRegistry attr).NaNFree .null := by rintro d ⟨⟩
  have horder (attr : String) {t : MessageType} (ht : (treeRegistry attr).messageType? 0 = some t) :
      t.SameOrder [[18, 4, 26, 2, 97, 98], [26, 2, 97, 98]] [[26, 2, 97, 98], [18, 4, 26, 2, 97, 98]] := by
    have hchild : recordNumber [18, 4, 26, 2, 97, 98] = 2 := rfl
    have ho : recordNumber [26, 2, 97, 98] = 3 := rfl
    cases ht
    refine ⟨fun n => ?_, fun group hgroup => ?_⟩
    · simp only [filter_cons, filter_nil, hchild, ho]
      by_cases h2 : n = 2
      · subst h2
        rfl
      · simp [Ne.symm h2]
    · cases mem_singleton.mp hgroup
      rfl
  constructor
  · obtain ⟨t, ht, hinto⟩ := typed_treeLeaf v_free rfl
    obtain ⟨_, hreorder⟩ := reordered_records (regular_treeRegistry v_free)
      (storesOneofs_treeRegistry "v") ht (by cases ht; rfl) hinto.toInstance rfl
      (d := [18, 4, 26, 2, 97, 98, 26, 2, 97, 98]) rfl (nanFree_treeWord (nanFree_treeWord (hnull "v")))
    have horder := horder "v" ht
    cases ht
    obtain ⟨m', hread, _, _, hequal⟩ := hreorder _ (.cons ⟨⟨_, _, rfl, by decide⟩, rfl⟩
      (.cons ⟨⟨_, _, rfl, by decide⟩, rfl⟩ .nil)) _ horder
    refine ⟨m', hread, hequal.mpr fun u _ => ?_⟩
    cases u with
    | message m =>
      intro t ht
      rcases hid : m.type with _ | _ | _ | id
      · rw [hid] at ht
        cases ht
        decide
      all_goals rw [hid] at ht; cases ht
    | variant id =>
      intro vt hvt
      rcases id with _ | _ | _ | id
      · cases hvt
      · cases hvt
      · cases hvt
        exact ⟨rfl, rfl⟩
      · cases hvt
    | _ => trivial
  · have hattr : "_compared_attributes" ∉ "child" :: "o" :: reservedAttrs := by decide
    obtain ⟨t, ht, hinto⟩ := typed_treeLeaf hattr rfl
    obtain ⟨_, hreorder⟩ := reordered_records (regular_treeRegistry hattr)
      (storesOneofs_treeRegistry _) ht (by cases ht; rfl) hinto.toInstance rfl
      (d := [18, 4, 26, 2, 97, 98, 26, 2, 97, 98]) rfl (nanFree_treeWord (nanFree_treeWord (hnull _)))
    have horder := horder _ ht
    cases ht
    obtain ⟨m', hread, _, _, hequal⟩ := hreorder _ (.cons ⟨⟨_, _, rfl, by decide⟩, rfl⟩
      (.cons ⟨⟨_, _, rfl, by decide⟩, rfl⟩ .nil)) _ horder
    exact ⟨m', hread, fun h => hequal.mp h _ .self _ rfl (by decide)⟩

end Protobind

import Protobind.Proofs.Canonical

/-!
# Concatenation

Reading is a fold over records whose only state is the message: data behind data that was read has
the effect of merging it into the message that was read (`merge_append`). So two records of a
message field do what one record with both payloads does.
-/

namespace Protobind

open List

variable {reg : Registry} {t : MessageType} {slot : Slot} {m n : Message} {a : Bytes}
  {current : Value}

/-! ## Message sets -/

theorem MessageSet.decode_append : ∀ {ext ext' : RawMap} {a : Bytes},
    decode ext a = (ext', none) → ∀ b, decode ext (a ++ b) = decode ext' b := by
  intro ext ext' a h b
  induction hn : a.length using Nat.strongRecOn generalizing a ext with
  | ind n ih =>
    cases a with
    | nil => cases h; rfl
    | cons c cs =>
      cases hentry : readEntry ext (c :: cs) with
      | error e rest => rw [decode_of_refused hentry] at h; cases h
      | ok next rest =>
        rw [decode_of_readEntry hentry] at h
        rw [decode_of_readEntry ((local_readEntry ext).append hentry b)]
        exact ih rest.length (hn ▸ readEntry_length_lt hentry) h rfl

/-! ## Messages -/

open Decode

theorem Decode.records_append {l : Layout} {m' : Message}
    (h : records reg false l m a = .done m' []) (b : Bytes) :
    records reg false l m (a ++ b) = records reg false l m' b := by
  refine records_induction (motive := fun m a => records reg false l m (a ++ b) = _) (fun _ => rfl)
    (fun m m₁ tag key value rest hkey hend hnext ih => ?_) h
  have hread := hkey (value ++ (rest ++ b))
  have hstep := hnext (rest ++ b)
  simp only [append_assoc] at hread hstep ⊢
  rw [records_next hread, step_of_read hread, if_neg hend, hstep]
  exact ih

section Messages

variable (hreg : reg.Regular)

include hreg

theorem merge_eq_records (hm : (Value.message m).Filled reg Kind.Reads)
    (ht : m.HasType reg t) (hset : t.isMessageSet = false) (bs : Bytes) :
    merge reg m bs = records reg false (.ofType t) m bs :=
  merge_of_clear ht (hreg _ _ ht).toSettled
    (((Value.filled_message ht).mp hm).1.clear (hreg _ _ ht).toStoresApart) hset bs

theorem merge_append (hstores : reg.StoresOneofs) {start : Message}
    (hstart : (Value.message start).Filled reg Kind.Reads) (h : merge reg start a = .done m [])
    (b : Bytes) : merge reg start (a ++ b) = merge reg m b := by
  obtain ⟨hm, htype⟩ := (grows_merge hreg hstores hstart a).of_done h
  obtain ⟨t, ht, htakes⟩ := hstart start .self
  have htm := Record.HasType.of_eq ht htype
  by_cases hset : t.isMessageSet = true
  · rw [merge_eq_mergeSet ht hset] at h ⊢
    rw [merge_eq_mergeSet htm hset]
    have hclear := htakes.clear (hreg _ _ ht).toStoresApart
    obtain ⟨ext, hext⟩ := Option.isSome_iff_exists.mp
      (htakes.extensions.trans ((hreg _ _ ht).set hset).1)
    rw [mergeSet_eq hclear hext] at h ⊢
    cases herror : (MessageSet.decode ext a).2 with
    | some e => rw [herror] at h; cases h
    | none =>
      rw [herror] at h
      cases h
      rw [MessageSet.decode_append (Prod.ext rfl herror) b]
      exact (mergeSet_eq (show Record.Clear (start.keeping _) from hclear) rfl b).symm
  · rw [Bool.not_eq_true] at hset
    rw [merge_eq_records hreg hstart ht hset] at h ⊢
    rw [merge_eq_records hreg hm htm hset]
    exact records_append h b

end Messages

/-! ## Message fields -/

/-- What becomes of a message, or the fault that stops the reading. -/
def Outcome.result {σ : Type} : Outcome σ → Result σ
  | .done s _ => .ok s
  | .failed fault _ => .error fault

/-- Whether a byte string is a length-delimited record of a number with a payload. -/
def Carries (number : Int) (payload raw : Bytes) : Prop :=
  ∃ value, Varint.read raw = .ok (number.toNat * 8 + WireType.bytes.code) value ∧
    readRun value = .ok payload []

/-- The message that a record is merged into: the one that the field holds, or else a new one. -/
def Decode.target (reg : Registry) (slot : Slot) (current : Value) : Result Value :=
  if current.isNull then newMessage reg slot else .ok current

theorem Decode.single_of_target {nested : Nested} (hmessage : slot.kind.isMessage = true)
    {name : String} (hname : slot.typeName? = some name) {v : Value}
    (htarget : target reg slot current = .ok v) (bs : Bytes) :
    single reg nested slot current bs =
      match embedded nested (slot.kind = .known .group) v bs with
      | .done w rest => .done w rest
      | .failed fault w => .failed fault (if current.isNull then current else w) := by
  unfold single
  rw [if_pos hmessage, if_neg (by simp [hname])]
  unfold target at htarget
  split at htarget
  · rename_i hnull
    rw [if_pos hnull, htarget]
    dsimp only
    cases embedded nested (slot.kind = .known .group) v bs <;> simp only [if_pos hnull]
  · rename_i hnull
    cases htarget
    simp only [if_neg hnull]
    cases embedded nested (slot.kind = .known .group) current bs <;> rfl

/-- A record of a message field does to the message inside what its payload does. -/
theorem Decode.nextRecord_carries (hclass : t.Regular reg) (hslot : Field.plain slot ∈ t.fields)
    (hkind : slot.kind = .known .message) (honce : slot.tag.repeated = false)
    (hcurrent : m.get? slot.attr = some current)
    (htarget : target reg slot current = .ok (.message n)) {payload raw : Bytes}
    (hraw : Carries slot.tag.number payload raw) (rest : Bytes) :
    (∃ tag behind, Varint.read (raw ++ rest) = .ok tag behind ∧ tag % 8 ≠ WireType.endGroup.code) ∧
      nextRecord reg (readers reg) (.ofType t) m (raw ++ rest) =
        match merge reg n payload with
        | .done n' _ => .done (m.set slot.attr (.message n')) rest
        | .failed fault n' =>
          .failed fault (m.set slot.attr (if current.isNull then current else .message n')) := by
  obtain ⟨value, hread, hrun⟩ := hraw
  obtain ⟨key, rfl, hkey⟩ := Varint.local_read _ _ _ hread
  obtain ⟨used, rfl, hused⟩ := local_readRun _ _ _ hrun
  rw [append_nil, append_assoc]
  have hfree : slot.attr ∉ reservedAttrs := hclass.field_attr_free hslot
  have hnumber : 0 < slot.tag.number := (hclass.number_of_field hslot).1
  have hmessage : slot.kind.isMessage = true := by rw [hkind]; rfl
  obtain ⟨name, _, _, hname, _⟩ := (hclass.fields _ hslot).message hmessage
  have hmod : (slot.tag.number.toNat * 8 + 2) % 8 = 2 := by omega
  have hdiv : (slot.tag.number.toNat * 8 + 2) / 8 = slot.tag.number.toNat := by omega
  have hwire : slot.tag.wireType = .bytes := (hclass.entries _ hslot).wire _ hkind
  refine ⟨⟨_, _, hkey _, fun hend => ?_⟩, ?_⟩
  · cases hmod.symm.trans hend
  have hstore : m.store slot.attr = m.set slot.attr := funext fun v => Record.store_eq_set hfree m v
  have hfield : mergeField reg (readers reg) m (.plain slot) 2 (used ++ rest) =
      (single reg (readers reg) slot current (used ++ rest)).map (m.set slot.attr) := by
    simp only [mergeField, field, Field.slot, Record.own?_eq_get? hfree, hcurrent, hkind, honce, hwire,
      hstore]
    rfl
  have hnext : nextRecord reg (readers reg) (.ofType t) m (key ++ (used ++ rest)) =
      (single reg (readers reg) slot current (used ++ rest)).map (m.set slot.attr) := by
    rw [nextRecord, hkey]
    simp only [WireType.code, hmod, hdiv]
    rw [if_neg (by omega)]
    exact (hclass.mergeRecord_field hslot _ _ _ _ _).trans hfield
  rw [hnext, single_of_target hmessage hname htarget]
  simp only [embedded, reading, ofReader, hkind, hused, into, readers]
  cases merge reg n payload <;> rfl

/-- Whether a payload can be merged into the message that a field of a message holds; if the field
is unset, whether it is the encoding of a message on its own. -/
def Decode.Admits (reg : Registry) (slot : Slot) (m : Message) (payload : Bytes) : Prop :=
  ∃ current n n', m.get? slot.attr = some current ∧ target reg slot current = .ok (.message n) ∧
    merge reg n payload = .done n' []

theorem Decode.filled_target (hreg : reg.Regular) (hm : (Value.message m).Filled reg Kind.Reads)
    (ht : m.HasType reg t) (hslot : Field.plain slot ∈ t.fields)
    (hmessage : slot.kind.isMessage = true) (hcurrent : m.get? slot.attr = some current)
    (htarget : target reg slot current = .ok (.message n)) :
    (Value.message n).Filled reg Kind.Reads := by
  unfold target at htarget
  split at htarget
  · obtain ⟨n', heq, hfills⟩ := fills_new hreg ((hreg _ _ ht).fields _ hslot) hmessage htarget
    cases heq
    exact hfills.2
  · cases htarget
    exact ((Value.filled_message ht).mp hm).2 _ (mem_append_left _ (mem_map_of_mem hslot)) _
      hcurrent

/-- Two records of a message field do what one record with both payloads does, whatever follows. -/
theorem merge_carries (hreg : reg.Regular) (hstores : reg.StoresOneofs)
    (hm : (Value.message m).Filled reg Kind.Reads) (ht : m.HasType reg t)
    (hslot : Field.plain slot ∈ t.fields) (hkind : slot.kind = .known .message)
    (honce : slot.tag.repeated = false) {p q r₁ r₂ r₁₂ : Bytes} (hp : Admits reg slot m p)
    (h₁ : Carries slot.tag.number p r₁) (h₂ : Carries slot.tag.number q r₂)
    (h₁₂ : Carries slot.tag.number (p ++ q) r₁₂) (b : Bytes) :
    (merge reg m (r₁ ++ r₂ ++ b)).result = (merge reg m (r₁₂ ++ b)).result := by
  have hclass := hreg _ _ ht
  have hset : t.isMessageSet = false := by
    rw [← Bool.not_eq_true]
    intro hset
    rw [(hclass.set hset).2.1] at hslot
    cases hslot
  obtain ⟨current, n, n', hcurrent, htarget, hp⟩ := hp
  have hn := filled_target hreg hm ht hslot (by rw [hkind]; rfl) hcurrent htarget
  obtain ⟨⟨_, _, hkey₁, hend₁⟩, hnext₁⟩ :=
    nextRecord_carries hclass hslot hkind honce hcurrent htarget h₁ (r₂ ++ b)
  obtain ⟨⟨_, _, hkey₂, hend₂⟩, hnext₂⟩ := nextRecord_carries hclass hslot hkind honce
    (Record.get?_set_self m slot.attr (.message n')) (n := n') rfl h₂ b
  obtain ⟨⟨_, _, hkey₁₂, hend₁₂⟩, hnext₁₂⟩ :=
    nextRecord_carries hclass hslot hkind honce hcurrent htarget h₁₂ b
  rw [merge_append hreg hstores hn hp] at hnext₁₂
  rw [append_assoc, merge_eq_records hreg hm ht hset, merge_eq_records hreg hm ht hset,
    records_next hkey₁, records_next hkey₁₂, step_of_read hkey₁, step_of_read hkey₁₂, if_neg hend₁,
    if_neg hend₁₂, hnext₁, hnext₁₂, hp]
  simp only
  rw [records_next hkey₂, step_of_read hkey₂, if_neg hend₂, hnext₂]
  cases merge reg n' q with
  | done n'' rest => simp only [Record.set_set]
  | failed fault n'' => rfl

/-- Data that was read can be followed by any other: reading both at once has the outcome of merging the
second into what was read of the first. So has a record of a message field whose payload is followed by
another one: it has the effect of two records. -/
theorem concatenation_merges {reg : Registry} (hreg : reg.Regular) (hstores : reg.StoresOneofs)
    {into start m : Message} {t : MessageType} (ht : reg.messageType? into.type = some t)
    (hinto : t.Instance into) (hreset : reg.reset into = .ok start) {a : Bytes}
    (hread : merge reg start a = .done m []) :
    (∀ b, merge reg start (a ++ b) = merge reg m b) ∧
      ∀ slot, Field.plain slot ∈ t.fields → slot.kind = .known .message → slot.tag.repeated = false →
        ∀ p q r₁ r₂ r₁₂, Admits reg slot m p → Carries slot.tag.number p r₁ →
          Carries slot.tag.number q r₂ → Carries slot.tag.number (p ++ q) r₁₂ →
            ∀ b, (merge reg start (a ++ (r₁ ++ r₂ ++ b))).result =
              (merge reg start (a ++ (r₁₂ ++ b))).result := by
  obtain ⟨-, hstart, hstartType⟩ := grows_reset hreg ht hinto hreset
  obtain ⟨hm, htype⟩ := (grows_merge hreg hstores hstart a).of_done hread
  have hmt : reg.messageType? m.type = some t := by rw [htype, hstartType, ht]
  have happend := merge_append hreg hstores hstart hread
  refine ⟨happend, fun slot hslot hkind honce p q r₁ r₂ r₁₂ hp h₁ h₂ h₁₂ b => ?_⟩
  rw [happend, happend]
  exact merge_carries hreg hstores hm hmt hslot hkind honce hp h₁ h₂ h₁₂ b

/-- The message inside is read from one record, or from two with a part of it each. -/
theorem concatenation_merges_tree :
    merge (treeRegistry "v") (treeBlank "v") [26, 2, 97, 98] = .done (treeWord "v" .null) [] ∧
      merge (treeRegistry "v") (treeBlank "v") [26, 2, 97, 98, 18, 0, 18, 4, 26, 2, 97, 98] =
        merge (treeRegistry "v") (treeWord "v" .null) [18, 0, 18, 4, 26, 2, 97, 98] ∧
      (merge (treeRegistry "v") (treeBlank "v")
          [26, 2, 97, 98, 18, 3, 26, 1, 120, 18, 4, 26, 2, 97, 98]).result =
        (merge (treeRegistry "v") (treeBlank "v")
          [26, 2, 97, 98, 18, 7, 26, 1, 120, 26, 2, 97, 98]).result := by
  obtain ⟨t, ht, hinto⟩ := typed_treeLeaf v_free rfl
  have hread : merge (treeRegistry "v") (treeBlank "v") [26, 2, 97, 98] =
      .done (treeWord "v" .null) [] := rfl
  obtain ⟨happend, hruns⟩ := concatenation_merges (regular_treeRegistry v_free)
    (storesOneofs_treeRegistry "v") ht hinto.toInstance rfl hread
  refine ⟨hread, happend _, ?_⟩
  cases ht
  exact hruns _ (mem_cons_of_mem _ mem_cons_self) rfl rfl [26, 1, 120] [26, 2, 97, 98]
    [18, 3, 26, 1, 120] [18, 4, 26, 2, 97, 98] [18, 7, 26, 1, 120, 26, 2, 97, 98]
    ⟨_, _, _, rfl, rfl, rfl⟩ ⟨_, rfl, rfl⟩ ⟨_, rfl, rfl⟩ ⟨_, rfl, rfl⟩ []

end Protobind

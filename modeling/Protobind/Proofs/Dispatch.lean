import Protobind.Proofs.OldReaders
import Protobind.Proofs.Truncation

/-!
# Where records go

Data that is read falls apart into records in one way (`exists_run_of_merge`). The records that no
field takes are kept with every byte, in their order: those of an extension under its number, all
others together (`raw_records_partitioned`). Of the records of a oneof the last one counts, and none
of another number (`oneof_last_record_wins`).
-/

namespace Protobind

open List MessageType

open Decode

variable {reg : Registry} {t : MessageType} {m m' : Message} {raw d : Bytes} {rs : List Bytes}

/-! ## Cuts -/

/-- Whether some data is the given records, one behind the other. -/
def CutInto (d : Bytes) (rs : List Bytes) : Prop :=
  rs.flatten = d ∧ ∀ raw ∈ rs, IsRecord (recordNumber raw) raw

theorem IsRecord.recordNumber_eq {number : Nat} (h : IsRecord number raw) : recordNumber raw = number := by
  obtain ⟨wire, value, hwire, hkey, -⟩ := h
  simp only [recordNumber, hkey]
  omega

/-- There is one way to cut data into records, since none of them is the beginning of another one. -/
theorem CutInto.unique {rs' : List Bytes} (h : CutInto d rs) (h' : CutInto d rs') : rs' = rs := by
  induction rs generalizing d rs' with
  | nil =>
    obtain ⟨rfl, -⟩ := h
    refine eq_nil_iff_forall_not_mem.mpr fun raw hraw => (h'.2 raw hraw).ne_nil ?_
    exact flatten_eq_nil_iff.mp h'.1 raw hraw
  | cons raw rs ih =>
    obtain ⟨rfl, h⟩ := h
    obtain ⟨hd, h'⟩ := h'
    have hfirst := h raw mem_cons_self
    cases rs' with
    | nil => exact absurd (append_eq_nil_iff.mp hd.symm).1 hfirst.ne_nil
    | cons raw' rs' =>
      have hfirst' := h' raw' mem_cons_self
      rw [flatten_cons, flatten_cons] at hd
      obtain rfl : raw' = raw := by
        rcases prefix_or_prefix_of_prefix (hd ▸ prefix_append raw' rs'.flatten)
          (prefix_append raw rs.flatten) with hbegins | hbegins
        · exact hfirst'.eq_of_begins hfirst hbegins
        · exact (hfirst.eq_of_begins hfirst' hbegins).symm
      rw [ih ⟨rfl, fun r hr => h r (mem_cons_of_mem _ hr)⟩
        ⟨append_cancel_left hd, fun r hr => h' r (mem_cons_of_mem _ hr)⟩]

theorem Run.exists_step {σ ρ : Type} {step : σ → ρ → σ → Prop} {s s' : σ} {rs : List ρ} (h : Run step s rs s')
    {r : ρ} (hr : r ∈ rs) : ∃ u u', step u r u' := by
  induction h with
  | nil => cases hr
  | cons h _ ih =>
    rcases mem_cons.mp hr with rfl | hr
    · exact ⟨_, _, h⟩
    · exact ih hr

/-- The raw records of an extension. -/
def Record.kept? (m : Message) (n : Int) : Option Bytes := m.extensions?.bind (Dictionary.get? n)

theorem MessageType.Fresh.kept_eq (h : t.Fresh m) (n : Int) : m.kept? n = none := by
  unfold Record.kept?
  rw [h.extensions_eq]
  cases t.hasExtensions <;> rfl

/-- What is read into a message that was emptied is a sequence of records, each of which is merged into what
the ones before it gave. -/
theorem exists_run_of_merge (hwf : reg.WellFormed) (htagged : reg.Tagged) {into start : Message}
    (ht : into.HasType reg t) (hset : t.isMessageSet = false) (hinto : t.Instance into)
    (hreset : reg.reset into = .ok start) (hread : merge reg start d = .done m []) :
    t.Fresh start ∧ start.HasType reg t ∧ ∃ rs, CutInto d rs ∧ Run (Step reg t) start rs m := by
  have hclass := hwf _ _ ht
  obtain ⟨hfresh, ht⟩ := hinto.fresh_reset hclass.toStoresApart ht hreset
  rw [merge_of_clear ht hclass.toSettled hfresh.clear hset] at hread
  obtain ⟨rs, hrs, hrun⟩ := exists_run_of_records hread
  refine ⟨hfresh, ht, rs, ⟨hrs, fun raw hraw => ?_⟩, hrun⟩
  obtain ⟨_, _, hstep⟩ := hrun.exists_step hraw
  obtain ⟨number, hrecord⟩ := (piece_of_step hwf htagged (htagged _ _ ht) hstep).record
  rwa [hrecord.recordNumber_eq]

/-! ## Records that no field takes -/

namespace MessageType

/-- Whether a number is that of an extension, and of no field or member. -/
def Extends (t : MessageType) (n : Int) : Prop := n ∉ t.numbers ∧ inRanges n t.ranges = true

/-- Whether a record is of a number that a class says nothing about. -/
def Ignores (t : MessageType) (n : Int) : Prop := n ∉ t.numbers ∧ inRanges n t.ranges = false

instance (t : MessageType) : DecidablePred t.Extends := fun _ => inferInstanceAs (Decidable (_ ∧ _))

instance (t : MessageType) : DecidablePred t.Ignores := fun _ => inferInstanceAs (Decidable (_ ∧ _))

end MessageType

/-- The records of a number. -/
def recordsUnder (n : Int) (rs : List Bytes) : List Bytes := rs.filter fun raw => (recordNumber raw : Int) = n

section Kept

variable (hclass : t.WellFormed reg)

include hclass

/-- A record of an extension joins those of its number, a record of an unknown number the unknown ones, and
any other record changes neither. -/
theorem kept_step (hm : m.Clear) (h : Step reg t m raw m') :
    m'.Clear ∧ m'.unknown? = m.unknown?.map (· ++ if t.Ignores (recordNumber raw) then raw else []) ∧
      ∀ n, m'.kept? n = if t.Extends n ∧ (recordNumber raw : Int) = n then some ((m.kept? n).getD [] ++ raw)
        else m.kept? n := by
  -- The number of a field or of a member is neither ignored nor that of an extension.
  have hset {attr : String} (hattr : attr ∉ reservedAttrs) (hnumber : (recordNumber raw : Int) ∈ t.numbers)
      (v : Value) : (m.set attr v).Clear ∧
      (m.set attr v).unknown? = m.unknown?.map (· ++ if t.Ignores (recordNumber raw) then raw else []) ∧
      ∀ n, (m.set attr v).kept? n = if t.Extends n ∧ (recordNumber raw : Int) = n
        then some ((m.kept? n).getD [] ++ raw) else m.kept? n := by
    refine ⟨hm.set hattr v, ?_, fun n => ?_⟩
    · rw [if_neg fun hignores => hignores.1 hnumber]
      simp [Record.set]
    · rw [if_neg fun hextends => hextends.1.1 (hextends.2 ▸ hnumber)]
      rfl
  rcases step_cases hclass h with ⟨f, hf, hn, _, v, _, rfl, _⟩ | ⟨group, hgroup, member, hmember, hn, v, _, rfl, _⟩ |
    ⟨hnew, hkeep, _⟩
  · exact hset (hclass.field_attr_free hf) (mem_numbers.mpr (.inl ⟨f, hf, hn⟩)) v
  · exact hset (hclass.group_attr_free hgroup)
      (mem_numbers.mpr (.inr ⟨group, hgroup, member, hmember, hn⟩)) v
  · rcases hm.keep_cases hkeep with ⟨hrange, ext, hext, rfl⟩ | ⟨hrange, rfl⟩
    · refine ⟨hm, ?_, fun n => ?_⟩
      · rw [if_neg fun hignores => by rw [hignores.2] at hrange; cases hrange]
        simp
      · simp only [Record.kept?, hext, Option.bind_some, Dictionary.get?_set]
        by_cases hn : (recordNumber raw : Int) = n
        · subst hn
          simp [Extends, hnew, hrange]
        · simp [hn]
    · refine ⟨hm, ?_, fun n => ?_⟩
      · rw [if_pos ⟨hnew, hrange⟩]
      · rw [if_neg fun hextends => by rw [hextends.2, hextends.1.2] at hrange; cases hrange]
        rfl

theorem kept_run (h : Run (Step reg t) m rs m') (hm : m.Clear) :
    m'.unknown? = m.unknown?.map (· ++ (rs.filter fun raw => t.Ignores (recordNumber raw)).flatten) ∧
      ∀ n, m'.kept? n = if t.Extends n ∧ recordsUnder n rs ≠ [] then
        some ((m.kept? n).getD [] ++ (recordsUnder n rs).flatten) else m.kept? n := by
  induction h with
  | @nil m => exact ⟨by simp, fun n => by simp [recordsUnder]⟩
  | @cons m m₁ m' raw rs h _ ih =>
    obtain ⟨hm₁, hunknown, hkept⟩ := kept_step hclass hm h
    obtain ⟨ihunknown, ihkept⟩ := ih hm₁
    refine ⟨?_, fun n => ?_⟩
    · rw [ihunknown, hunknown, Option.map_map]
      congr 1
      funext known
      by_cases hignores : t.Ignores (recordNumber raw) <;> simp [hignores]
    · rw [ihkept, hkept]
      by_cases hn : (recordNumber raw : Int) = n
      · by_cases hextends : t.Extends n <;> by_cases hnil : recordsUnder n rs = [] <;>
          simp_all [recordsUnder]
      · simp [recordsUnder, hn]

end Kept

/-- Data that was read falls apart into records. The unknown records of the message are those of numbers that
its class says nothing about, in their order and with every byte. Under each number of an extension it has the
records of that number, and it has nothing under any other number. -/
theorem raw_records_partitioned {reg : Registry} (hwf : reg.WellFormed) (htagged : reg.Tagged)
    {into start m : Message} {t : MessageType} (ht : reg.messageType? into.type = some t)
    (hset : t.isMessageSet = false) (hinto : t.Instance into) (hreset : reg.reset into = .ok start) {d : Bytes}
    (hread : merge reg start d = .done m []) :
    (∃ rs, CutInto d rs) ∧ ∀ rs, CutInto d rs →
      m.unknown? = (if t.keepsUnknown then
        some (rs.filter fun raw => t.Ignores (recordNumber raw)).flatten else none) ∧
      ∀ n, m.kept? n = if t.Extends n ∧ recordsUnder n rs ≠ [] then some (recordsUnder n rs).flatten
        else none := by
  obtain ⟨hfresh, -, rs, hcut, hrun⟩ := exists_run_of_merge hwf htagged ht hset hinto hreset hread
  obtain ⟨hunknown, hkept⟩ := kept_run (hwf _ _ ht) hrun hfresh.clear
  refine ⟨⟨rs, hcut⟩, fun rs' hcut' => ?_⟩
  rw [hcut.unique hcut', hunknown, hfresh.unknown_eq]
  refine ⟨by split <;> rfl, fun n => ?_⟩
  rw [hkept, hfresh.kept_eq]
  rfl

set_option maxRecDepth 1024 in
/-- An extension in two records, with a field and an unknown group between them. -/
theorem raw_records_partitioned_note : ∃ m, noteRegistry.reset note = .ok emptyNote ∧
      merge noteRegistry emptyNote [162, 6, 1, 120, 8, 5, 35, 36, 160, 6, 9] = .done m [] ∧
      m.unknown? = some [35, 36] ∧ m.kept? 100 = some [162, 6, 1, 120, 160, 6, 9] ∧ m.kept? 4 = none := by
  have hreg := regular_noteRegistry
  obtain ⟨t, ht, hnote⟩ := typed_note
  have hcut : CutInto [162, 6, 1, 120, 8, 5, 35, 36, 160, 6, 9]
      [[162, 6, 1, 120], [8, 5], [35, 36], [160, 6, 9]] := by
    refine ⟨rfl, ?_⟩
    simp only [forall_mem_cons]
    exact ⟨⟨2, [1, 120], by decide, rfl, rfl⟩, ⟨0, [5], by decide, rfl, rfl⟩, ⟨3, [36], by decide, rfl, rfl⟩,
      ⟨0, [9], by decide, rfl, rfl⟩, forall_mem_nil _⟩
  have hreset : noteRegistry.reset note = .ok emptyNote := rfl
  obtain ⟨m, hread⟩ : ∃ m, merge noteRegistry emptyNote [162, 6, 1, 120, 8, 5, 35, 36, 160, 6, 9] = .done m [] :=
    ⟨_, rfl⟩
  obtain ⟨hunknown, hkept⟩ := (raw_records_partitioned (fun id t h => (hreg id t h).toWellFormed) hreg.tagged ht
    (by cases ht; rfl) hnote.toInstance hreset hread).2 _ hcut
  cases ht
  exact ⟨m, hreset, hread, hunknown, hkept 100, hkept 4⟩

/-! ## Oneofs -/

/-- Whether a record is of a member of a oneof. -/
def OneofSlot.Owns (group : OneofSlot) (raw : Bytes) : Prop :=
  (recordNumber raw : Int) ∈ group.members.map (·.number)

instance (group : OneofSlot) : DecidablePred group.Owns := fun _ => inferInstanceAs (Decidable (_ ∈ _))

section Oneofs

variable (hclass : t.WellFormed reg) {group : OneofSlot} (hgroup : group ∈ t.groups)

include hclass hgroup

/-- A record of a oneof replaces what the oneof held by a variant of the member of its number, whatever the
message was. Any other record leaves the oneof as it is. -/
theorem oneof_step (hm : m.Clear) (h : Step reg t m raw m') :
    (¬ group.Owns raw → m'.get? group.attr = m.get? group.attr) ∧
      (group.Owns raw → ∃ member ∈ group.members, member.number = recordNumber raw ∧
        ∃ v, Wraps reg member v ∧ m' = m.set group.attr v ∧ ∀ u : Message, Step reg t u raw (u.set group.attr v)) := by
  -- The lane of the oneof is that of its members alone.
  have hlane (howns : group.Owns raw) : t.lane (recordNumber raw) = .attr group.attr := by
    obtain ⟨member, hmember, hn⟩ := mem_map.mp howns
    exact lane_of_member hclass hgroup hmember hn
  rcases step_cases hclass h with ⟨f, hf, hn, _, v, _, rfl, _⟩ |
    ⟨other, hother, member, hmember, hn, v, hv, rfl, hagain⟩ | ⟨hnew, hkeep, _⟩
  · have hne := hclass.group_attr_ne hgroup hf
    refine ⟨fun _ => ?_, fun howns => ?_⟩
    · rw [Record.get?_set, if_neg (by simpa using hne.symm)]
    · rw [lane_of_field hclass hf hn] at hlane
      exact absurd (Lane.attr.inj (hlane howns)).symm hne
  · by_cases hsame : other.attr = group.attr
    · obtain rfl := inj_on_of_nodup_map (List.Nodup.of_append_right hclass.attrsOnce) hother hgroup hsame
      refine ⟨fun hnot => absurd (mem_map.mpr ⟨member, hmember, hn⟩) hnot, fun _ => ?_⟩
      exact ⟨member, hmember, hn, v, hv, rfl, hagain⟩
    · refine ⟨fun _ => ?_, fun howns => ?_⟩
      · rw [Record.get?_set, if_neg (by simpa using hsame)]
      · rw [lane_of_member hclass hother hmember hn] at hlane
        exact absurd (Lane.attr.inj (hlane howns)) hsame
  · refine ⟨fun _ => ?_, fun howns => ?_⟩
    · rcases hm.keep_cases hkeep with ⟨_, _, _, rfl⟩ | ⟨_, rfl⟩ <;> rfl
    · rw [lane_of_new hnew] at hlane
      cases hlane howns

theorem oneof_run (h : Run (Step reg t) m rs m') (hm : m.Clear) :
    ((rs.filter group.Owns).getLast? = none → m'.get? group.attr = m.get? group.attr) ∧
      ∀ raw, (rs.filter group.Owns).getLast? = some raw → ∃ member ∈ group.members,
        member.number = recordNumber raw ∧ ∃ v, Wraps reg member v ∧ m'.get? group.attr = some v ∧
          ∀ u : Message, Step reg t u raw (u.set group.attr v) := by
  induction h with
  | nil => exact ⟨fun _ => rfl, fun _ hlast => by cases hlast⟩
  | @cons m m₁ m' raw rs h _ ih =>
    obtain ⟨hother, hown⟩ := oneof_step hclass hgroup hm h
    have ih := ih (kept_step hclass hm h).1
    by_cases howns : group.Owns raw
    · rw [filter_cons_of_pos (by simpa using howns), getLast?_cons]
      refine ⟨fun hnone => absurd hnone (Option.some_ne_none _), fun last hlast => ?_⟩
      obtain rfl := Option.some.inj hlast
      cases hlast : (rs.filter group.Owns).getLast? with
      | none =>
        obtain ⟨member, hmember, hn, v, hv, rfl, hagain⟩ := hown howns
        refine ⟨member, hmember, hn, v, hv, ?_, hagain⟩
        rw [ih.1 hlast, Record.get?_set_self]
      | some last => exact ih.2 last hlast
    · rw [filter_cons_of_neg (by simpa using howns), ← hother howns]
      exact ih

end Oneofs

/-- Data that was read falls apart into records. A oneof is unset if none of them is of one of its members.
Otherwise it holds a variant of the member of the last such record, as the record alone is read into an empty
message. So a variant of another oneof is held only if a member of this one has the same class. -/
theorem oneof_last_record_wins {reg : Registry} (hreg : reg.Regular) {into start m : Message} {t : MessageType}
    (ht : reg.messageType? into.type = some t) (hinto : t.Instance into) (hreset : reg.reset into = .ok start)
    {d : Bytes} (hread : merge reg start d = .done m []) {group : OneofSlot} (hgroup : group ∈ t.groups)
    (hstored : group.attr ∈ t.storedAttrs) :
    (∃ rs, CutInto d rs) ∧ ∀ rs, CutInto d rs →
      ((rs.filter group.Owns).getLast? = none → m.get? group.attr = some .null) ∧
      (∀ raw, (rs.filter group.Owns).getLast? = some raw → ∃ member ∈ group.members,
        member.number = recordNumber raw ∧ ∃ v, Wraps reg member v ∧ m.get? group.attr = some v ∧
          merge reg start raw = .done (start.set group.attr v) []) ∧
      ∀ other ∈ t.groups, ∀ member ∈ other.members, ∀ v, m.get? group.attr = some v → Wraps reg member v →
        ∃ own ∈ group.members, own.variant = member.variant := by
  have hclass := hreg _ _ ht
  have hset : t.isMessageSet = false := by
    by_contra hset
    rw [MessageType.groups, (hclass.set (by simpa using hset)).2.2] at hgroup
    cases hgroup
  obtain ⟨hfresh, htype, rs, hcut, hrun⟩ := exists_run_of_merge
    (fun id t h => (hreg id t h).toWellFormed) hreg.tagged ht hset hinto hreset hread
  have hstart : start.get? group.attr = some .null := by
    obtain ⟨p, hp, hattr⟩ := mem_map.mp hstored
    rw [← hattr, hfresh.stored p hp, hclass.unsetOneofs group hgroup p hp hattr]
  obtain ⟨hnone, hlast⟩ := oneof_run hclass.toWellFormed hgroup hrun hfresh.clear
  refine ⟨⟨rs, hcut⟩, fun rs' hcut' => ?_⟩
  rw [hcut.unique hcut']
  refine ⟨fun h => (hnone h).trans hstart, fun raw hraw => ?_, fun other hother member hmember v hv hwraps => ?_⟩
  · obtain ⟨member, hmember, hn, v, hv, hget, hstep⟩ := hlast raw hraw
    refine ⟨member, hmember, hn, v, hv, hget, ?_⟩
    rw [merge_of_clear htype hclass.toSettled hfresh.clear hset, ← append_nil raw]
    exact records_of_run (.cons (hstep start) .nil)
  · cases hraw : (rs.filter group.Owns).getLast? with
    | none =>
      obtain ⟨_, _, _, -, -, rfl⟩ := hwraps
      cases hv.symm.trans ((hnone hraw).trans hstart)
    | some raw =>
      obtain ⟨own, hown, -, w, ⟨id, vt, held, hvariant, -, rfl⟩, hget, -⟩ := hlast raw hraw
      obtain ⟨id', vt', held', hvariant', -, rfl⟩ := hwraps
      obtain ⟨rfl, -, -⟩ := Value.variant.inj (Option.some.inj (hv.symm.trans hget))
      exact ⟨own, hown, hvariant.trans hvariant'.symm⟩

/-- Two records of the text, with a number between them. -/
theorem oneof_last_record_wins_tree :
    ∃ m, merge (treeRegistry "v") (treeBlank "v") [26, 2, 97, 98, 8, 5, 26, 1, 99] = .done m [] ∧
      m.get? "o" = some (.variant 2 "s" (.text "c")) := by
  have hreg := regular_treeRegistry v_free
  obtain ⟨t, ht, hinto⟩ := typed_treeLeaf v_free rfl
  have hcut : CutInto [26, 2, 97, 98, 8, 5, 26, 1, 99] [[26, 2, 97, 98], [8, 5], [26, 1, 99]] := by
    refine ⟨rfl, ?_⟩
    simp only [forall_mem_cons]
    exact ⟨⟨2, [2, 97, 98], by decide, rfl, rfl⟩, ⟨0, [5], by decide, rfl, rfl⟩, ⟨2, [1, 99], by decide, rfl, rfl⟩,
      forall_mem_nil _⟩
  obtain ⟨m, hread⟩ : ∃ m, merge (treeRegistry "v") (treeBlank "v") [26, 2, 97, 98, 8, 5, 26, 1, 99] =
      .done m [] := ⟨_, rfl⟩
  cases ht
  obtain ⟨-, hall⟩ := oneof_last_record_wins hreg rfl hinto.toInstance rfl hread mem_cons_self (by decide)
  obtain ⟨-, hlast, -⟩ := hall _ hcut
  obtain ⟨member, hmember, -, v, -, hget, halone⟩ := hlast [26, 1, 99] rfl
  have hvalue : some (Value.variant 2 "s" (.text "c")) = some v :=
    congrArg (fun read : Outcome Message => read.state.get? "o") halone
  exact ⟨m, hread, hget.trans hvalue.symm⟩

end Protobind

import Protobind.Proofs.Reordering

/-!
# Runs and single records

The values of a list may come in runs and in records of their own, with records of other fields
between them. A record of the list adds its values, and a record of another field does the same to
the rest of a message whatever the list holds (`Decode.Step.set`).
-/

namespace Protobind

open List Decode

variable {reg : Registry} {t : MessageType} {slot : Slot} {kind : Kind} {f : Field}
  {m m' : Message} {raw : Bytes}

/-! ## Records of other fields -/

theorem Dictionary.set_comm {α β : Type} [BEq α] [LawfulBEq α] {key other : α} (hne : key ≠ other)
    {d : Dictionary α β} (h : (d.get? key).isSome = true) (v w : β) :
    (d.set key v).set other w = (d.set other w).set key v := by
  induction d with
  | nil => cases h
  | cons p rest ih =>
    obtain ⟨k, x⟩ := p
    by_cases hk : k = key
    · subst hk
      simp [set, hne]
    · by_cases ho : k = other
      · subst ho
        simp [set, hk]
      · have hrest : (get? key rest).isSome = true := by simpa [get?, hk] using h
        simp [set, hk, ho, ih hrest]

theorem Record.Clear.keep_set {attr : String} {ranges : List FieldRange} {number : Int}
    (hm : m.Clear) (hfree : attr ∉ reservedAttrs) (h : keep ranges m number raw = .ok m')
    (v : Value) : keep ranges (m.set attr v) number raw = .ok (m'.set attr v) := by
  have hset := hm.set hfree v
  unfold keep
  rcases hm.keep_cases h with ⟨hrange, ext, hext, rfl⟩ | ⟨hrange, rfl⟩
  · rw [if_pos hrange, hset.extensionStore?_eq, show (m.set attr v).extensions? = some ext from hext]
    rfl
  · rw [if_neg (by simp [hrange]), hset.addUnknown_eq]
    rfl

/-- A record of another field leaves the value of a field alone, and does not depend on it. -/
theorem Decode.Step.set (hclass : t.WellFormed reg) (hf : f ∈ t.fields) (hm : m.Clear)
    (hsome : (m.get? f.slot.attr).isSome = true) (h : Step reg t m raw m')
    (hother : (recordNumber raw : Int) ≠ f.number) :
    m'.Clear ∧ (m'.get? f.slot.attr).isSome = true ∧
      ∀ v, Step reg t (m.set f.slot.attr v) raw (m'.set f.slot.attr v) := by
  have hsets {attr : String} (hattr : attr ∉ reservedAttrs) (hne : f.slot.attr ≠ attr) {w : Value}
      (hagain : ∀ v, Step reg t (m.set f.slot.attr v) raw ((m.set f.slot.attr v).set attr w)) :
      (m.set attr w).Clear ∧ ((m.set attr w).get? f.slot.attr).isSome = true ∧
        ∀ v, Step reg t (m.set f.slot.attr v) raw ((m.set attr w).set f.slot.attr v) := by
    refine ⟨hm.set hattr w, ?_, fun v => ?_⟩
    · rwa [Record.get?_set, if_neg (by simpa using hne.symm)]
    · have hstep := hagain v
      unfold Record.set at hstep ⊢
      rwa [Dictionary.set_comm hne hsome] at hstep
  rcases step_cases hclass h with ⟨g, hg, hn, current, w, hcurrent, rfl, hagain⟩ |
    ⟨group, hgroup, member, hmember, hn, w, _, rfl, hagain⟩ | ⟨_, hkeep, hagain⟩
  · have hne : f.slot.attr ≠ g.slot.attr := fun heq =>
      hother (hn ▸ congrArg Field.number (hclass.field_eq_of_attr hg hf heq.symm))
    refine hsets (hclass.field_attr_free hg) hne fun v => hagain _ ?_
    rwa [Record.get?_set, if_neg (by simpa using hne)]
  · exact hsets (hclass.group_attr_free hgroup) (hclass.group_attr_ne hgroup hf).symm fun v => hagain _
  · refine ⟨?_, ?_, fun v => hagain _ _ (hm.keep_set (hclass.field_attr_free hf) hkeep v)⟩
    all_goals rcases hm.keep_cases hkeep with ⟨_, _, _, rfl⟩ | ⟨_, rfl⟩ <;> assumption

/-! ## Records of the list -/

/-- One record of the data that the values of a list are in: a run of values, a single value, or
something else. -/
inductive Portion where
  | run (values : List Value)
  | element (v : Value)
  | other (raw : Bytes)

namespace Portion

def values : Portion → List Value
  | .run vs => vs
  | .element v => [v]
  | .other _ => []

def others : Portion → List Bytes
  | .other raw => [raw]
  | _ => []

/-- Writes a record, whether or not the list itself is one that is written in runs. -/
def write (nested : Message → Result Bytes) (slot : Slot) : Portion → Result Bytes
  | .run vs => do
    let run ← Encode.each (Encode.value nested slot.kind) vs
    pure (writeKey slot.tag.number .bytes ++ writeRun run)
  | .element v => Encode.single nested slot v
  | .other raw => .ok raw

end Portion

section

variable (nested : Writer) (hrepeated : slot.tag.repeated = true)
  (hkind : slot.kind = .known kind) (hpack : slot.kind.isPackable = true)

include hrepeated hkind hpack

/-- A record of the list adds its values to those that are there. -/
theorem Portion.reads (hslot : slot.Regular reg) {p : Portion} (hp : p.others = [])
    (hvalues : ∀ v ∈ p.values, kind.Accepts v) :
    ∃ raw, p.write nested slot = .ok raw ∧ (Short raw →
      ∃ ws, Forall₂ (EqualTo reg) p.values ws ∧
        ∀ acc, FieldReads reg (.plain slot) (.list acc) raw (.list (acc ++ ws))) := by
  have hplain := isMessage_eq_false_of_isPackable hpack
  have hscalar := (Slot.isMessage_eq hkind).symm.trans hplain
  cases p with
  | run vs =>
    obtain ⟨run, hwritten, hback⟩ := unpack_back hslot (fun v (hv : v ∈ vs) =>
      ⟨kind, hkind, by rw [if_neg (by simp [hscalar])]; exact hvalues v hv⟩) nested hpack
    refine ⟨writeKey slot.tag.number .bytes ++ writeRun run, by rw [write, hwritten]; rfl,
      fun hlen => ?_⟩
    have hshort := hlen.right.of_writeRun
    obtain ⟨ws, hall, hunpack, _⟩ := hback hshort
    have hne : run ≠ [] → ws ≠ [] := by
      rintro hrun rfl
      cases hall
      cases hwritten
      exact hrun rfl
    exact ⟨ws, hall, fun acc => .single (f := .plain slot) (by decide) fun rest =>
      field_of_run hslot hrepeated hpack hshort hne hunpack acc rest⟩
  | element v =>
    have hv := hvalues v mem_cons_self
    obtain ⟨bs, w, hwritten, halike, hback⟩ := scalar_value hslot.toResolves hkind hv
    refine ⟨_, single_of_scalar nested hkind hscalar (hwritten nested), fun hlen => ?_⟩
    refine ⟨[w], .cons (hv.equalTo halike reg) .nil, fun acc => .single (f := .plain slot)
      (wireType_ne_endGroup hslot) fun rest => field_of_element hslot hrepeated ?_ acc⟩
    rw [single_of_isMessage_eq_false hplain, hback hlen.right]
  | other raw => cases hp

theorem records_portions (hclass : t.Regular reg) (hf : Field.plain slot ∈ t.fields)
    (portions : List Portion) (hvalues : ∀ v ∈ portions.flatMap Portion.values, kind.Accepts v)
    (hothers : ∀ raw ∈ portions.flatMap Portion.others, (recordNumber raw : Int) ≠ slot.tag.number)
    (hm : m.Clear) (hsome : (m.get? slot.attr).isSome = true)
    (hread : Run (Step reg t) m (portions.flatMap Portion.others) m') :
    ∃ d, Encode.each (Portion.write nested slot) portions = .ok d ∧
      (Short d → ∃ ws, Forall₂ (EqualTo reg) (portions.flatMap Portion.values) ws ∧
        ∀ acc, records reg false (.ofType t) (m.set slot.attr (.list acc)) d =
          .done (m'.set slot.attr (.list (acc ++ ws))) []) := by
  -- The list and the rest of the message are read side by side.
  induction portions generalizing m with
  | nil =>
    cases hread
    refine ⟨[], rfl, fun _ => ⟨[], .nil, fun acc => ?_⟩⟩
    rw [append_nil]
    exact records_nil
  | cons p portions ih =>
    rw [flatMap_cons] at hvalues hothers hread ⊢
    rw [forall_mem_append] at hvalues hothers
    by_cases hp : p.others = []
    · obtain ⟨raw, hraw, hback⟩ :=
        p.reads nested hrepeated hkind hpack (hclass.entries _ hf) hp hvalues.1
      rw [hp] at hread
      obtain ⟨d, hd, hrest⟩ := ih hvalues.2 hothers.2 hm hsome hread
      refine ⟨raw ++ d, by rw [Encode.each, hraw, hd]; rfl, fun hlen => ?_⟩
      obtain ⟨vs, hvs, hreads⟩ := hback hlen.left
      obtain ⟨ws, hws, hrest⟩ := hrest hlen.right
      refine ⟨vs ++ ws, rel_append hvs hws, fun acc => ?_⟩
      refine (merges_of_reads hclass hf (hreads acc) _ (Record.get?_set_self ..) false d).trans ?_
      rw [Record.set_set, ← append_assoc]
      exact hrest (acc ++ vs)
    · cases p with
      | other raw =>
        obtain _ | ⟨hstep, hread⟩ := hread
        obtain ⟨hm₁, hsome₁, hset⟩ :=
          hstep.set hclass.toWellFormed hf hm hsome (hothers.1 raw mem_cons_self)
        obtain ⟨d, hd, hrest⟩ := ih hvalues.2 hothers.2 hm₁ hsome₁ hread
        refine ⟨raw ++ d, by rw [Encode.each, hd]; rfl, fun hlen => ?_⟩
        obtain ⟨ws, hws, hrest⟩ := hrest hlen.right
        refine ⟨ws, hws, fun acc => ?_⟩
        have hone := records_of_run (.cons (hset (.list acc)) .nil)
        rw [flatten_cons, flatten_nil, append_nil] at hone
        exact (records_append hone d).trans (hrest acc)
      | _ => exact absurd rfl hp

end

/-- Runs and single records mix freely. Let the values of a list of numbers, each in the range of its
kind and none a NaN, be written in any mixture of runs, empty ones among them, and of single records,
and let records of other fields stand anywhere between them. Where those alone are read as a message,
all are read as this message with a list of just these values, in their order, whether or not the
field says that it is written in runs. -/
theorem runs_and_elements_mix {reg : Registry} {into start m : Message} {t : MessageType}
    (hclass : t.Regular reg) (ht : reg.messageType? into.type = some t)
    (hset : t.isMessageSet = false) (hinto : t.Instance into) (hreset : reg.reset into = .ok start)
    {slot : Slot} {kind : Kind} (hf : Field.plain slot ∈ t.fields)
    (hstored : slot.attr ∈ t.storedAttrs) (hrepeated : slot.tag.repeated = true)
    (hkind : slot.kind = .known kind) (hpack : slot.kind.isPackable = true)
    (nested : Message → Result Bytes) (portions : List Portion)
    (hvalues : ∀ v ∈ portions.flatMap Portion.values, kind.Accepts v)
    (hothers : ∀ raw ∈ portions.flatMap Portion.others, (recordNumber raw : Int) ≠ slot.tag.number)
    (hread : Run (Step reg t) start (portions.flatMap Portion.others) m) :
    ∃ d, Encode.each (Portion.write nested slot) portions = .ok d ∧
      (d.length < 18446744073709551616 → ∃ ws,
        Forall₂ (EqualTo reg) (portions.flatMap Portion.values) ws ∧
        merge reg start d = .done (m.set slot.attr (.list ws)) []) := by
  obtain ⟨hfresh, ht⟩ := hinto.fresh_reset hclass.toStoresApart ht hreset
  have hget := hfresh.toBlank.get?_eq hclass.toStoresApart hstored
  have hunset := hclass.unset_startOf hf hstored
  simp only [Field.Unset, Field.slot, hrepeated, if_true] at hunset
  rw [hunset] at hget
  obtain ⟨d, hd, hback⟩ := records_portions nested hrepeated hkind hpack hclass hf portions hvalues
    hothers hfresh.clear (by rw [hget]; rfl) hread
  refine ⟨d, hd, fun hlen => ?_⟩
  obtain ⟨ws, hws, hrecords⟩ := hback hlen
  refine ⟨ws, hws, ?_⟩
  rw [merge_of_clear ht hclass.toSettled hfresh.clear hset]
  nth_rewrite 1 [← Record.set_eq_self hget]
  exact hrecords []

def rowField : Field :=
  .plain
    { attr := "ns", kind := .known .int32
      tag := { text := "", wireType := .varint, number := 1, repeated := true, required := false,
               name := "ns" } }

/-- A class with a list of numbers that is not written in runs. -/
def rowType : MessageType where
  name := "Row"
  fields := [rowField]
  params := [{ name := "ns", attr := "ns", whenNull := .list [] }]
  keepsUnknown := true

def rowRegistry : Registry where
  classes := #[.message rowType]

def emptyRow : Message where
  type := 0
  attrs := [("ns", .list [])]
  unknown? := some []

theorem regular_rowType : rowType.Regular rowRegistry := by
  have hfield : rowField.slot.Regular rowRegistry :=
    { known := ⟨_, rfl⟩, message := nofun, enum := nofun, wire := by rintro _ ⟨⟩; rfl,
      packed := nofun, group := nofun }
  have hfields {P : Field → Prop} (h : P rowField) : ∀ f ∈ rowType.fields, P f :=
    forall_mem_singleton.mpr h
  exact
    { nodup := by decide, free := by decide, index := nofun, ranges := rfl,
      fields := hfields hfield.toResolves, members := nofun, numbered := by decide,
      numbersOnce := by decide, attrsOnce := by decide, attrsFree := by decide,
      starts := hfields (forall_mem_singleton.mpr fun _ => .inr rfl),
      extensible := fun h => absurd rfl h, set := nofun, entries := hfields hfield,
      unset := hfields (forall_mem_singleton.mpr fun _ => rfl), compared := rfl,
      unsetOneofs := nofun, separate := nofun, groupMembers := nofun, apart := nofun }

theorem runs_and_elements_mix_row : ∃ ws, Forall₂ (EqualTo rowRegistry) [.int 7, .int 1, .int 2] ws ∧
    merge rowRegistry emptyRow [8, 7, 16, 5, 10, 2, 1, 2, 10, 0] =
      .done ({ emptyRow with unknown? := some [16, 5] }.set "ns" (.list ws)) [] := by
  have hinto : rowType.Instance emptyRow := by
    refine ⟨fun attr => ?_, rfl, rfl⟩
    by_cases h : attr = "ns"
    · subst h
      decide
    · simp [Record.get?, emptyRow, Dictionary.get?, rowType, MessageType.storedAttrs, h, Ne.symm h]
  have hvalues : ∀ v ∈ [Value.int 7, .int 1, .int 2], Kind.int32.Accepts v := by
    simp only [mem_cons, not_mem_nil, or_false, forall_eq_or_imp, forall_eq]
    exact ⟨⟨7, rfl, by decide⟩, ⟨1, rfl, by decide⟩, ⟨2, rfl, by decide⟩⟩
  have hf : Field.plain rowField.slot ∈ rowType.fields := mem_cons_self
  have hreset : rowRegistry.reset emptyRow = .ok emptyRow := rfl
  obtain ⟨d, hwritten, hmixed⟩ := runs_and_elements_mix regular_rowType rfl rfl hinto hreset hf
    mem_cons_self rfl rfl rfl (fun _ => .ok [])
    [.element (.int 7), .other [16, 5], .run [.int 1, .int 2], .run []] hvalues (by decide)
    (.cons ⟨⟨_, _, rfl, by decide⟩, rfl⟩ .nil)
  cases hwritten
  exact hmixed (by decide)

end Protobind

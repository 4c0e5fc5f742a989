import Protobind.Proofs.Classes

/-!
# Raw records

The records of extensions and of unknown fields are kept as they are. When they are read again, a
record of an extension joins those of its number (`merges_extensions`), an unknown record those that
were kept before (`merges_unknown`). In a
message set an extension is written as an item, and read back as the record that the item stands for
(`MessageSet.decode_writeItems`).
-/

namespace Protobind

open List Decode

variable {α : Type} {bs data raw rest : Bytes} {m m' : Message} {number : Nat} {p : Nat → Prop}
  {key : α} {reg : Registry} {t : MessageType}

/-! ## Dictionaries -/

namespace Dictionary

variable {β : Type} [BEq α]

theorem set_eq_self {v : β} {d : Dictionary α β} (h : get? key d = some v) : set key v d = d := by
  induction d with
  | nil => cases h
  | cons p rest ih =>
    obtain ⟨k, x⟩ := p
    unfold get? at h
    unfold set
    split at h
    · rename_i hk
      cases h
      rw [if_pos hk]
    · rename_i hk
      rw [if_neg hk, ih h]

variable [LawfulBEq α]

theorem set_set (key : α) (v w : β) (d : Dictionary α β) :
    set key w (set key v d) = set key w d := by
  induction d with
  | nil => simp [set]
  | cons p rest ih =>
    obtain ⟨k, x⟩ := p
    by_cases h : k = key
    · subst h
      simp [set]
    · have hne : (k == key) = false := by simp [h]
      simp [set, hne, ih]

end Dictionary

/-! ## Merging -/

/-- Whether reading some data turns a message of a class into another one, whatever follows. -/
def Merges (reg : Registry) (t : MessageType) (bs : Bytes) (m m' : Message) : Prop :=
  ∀ inGroup rest, records reg inGroup (.ofType t) m (bs ++ rest) =
    records reg inGroup (.ofType t) m' rest

namespace Merges

theorem nil (m : Message) : Merges reg t [] m m := fun _ _ => rfl

theorem append {bs' : Bytes} {m'' : Message} (h : Merges reg t bs m m')
    (h' : Merges reg t bs' m' m'') : Merges reg t (bs ++ bs') m m'' := by
  intro inGroup rest
  rw [append_assoc, h, h']

end Merges

/-! ## Whole records -/

/-- Whether a byte string is one record of a number: a key, and a value that ends with the string. -/
def IsRecord (number : Nat) (raw : Bytes) : Prop :=
  ∃ wire value, wire < 8 ∧ Varint.read raw = .ok (number * 8 + wire) value ∧
    skipValue wire value = .ok () []

/-- A sequence of whole records, each of a number with a property. -/
inductive RecordsOf (p : Nat → Prop) : Bytes → Prop
  | nil : RecordsOf p []
  | cons {number : Nat} {raw rest : Bytes} (hp : p number) (h : IsRecord number raw)
      (hrest : RecordsOf p rest) : RecordsOf p (raw ++ rest)

theorem IsRecord.ne_nil (h : IsRecord number raw) : raw ≠ [] := by
  rintro rfl
  obtain ⟨wire, value, _, hread, _⟩ := h
  cases hread

theorem RecordsOf.append (h : RecordsOf p raw) (hrest : RecordsOf p rest) :
    RecordsOf p (raw ++ rest) := by
  induction h with
  | nil => exact hrest
  | cons hp hrecord _ ih =>
    rw [append_assoc]
    exact .cons hp hrecord ih

theorem RecordsOf.single (hp : p number) (h : IsRecord number raw) : RecordsOf p raw := by
  have := RecordsOf.cons hp h .nil
  rwa [append_nil] at this

theorem RecordsOf.imp {q : Nat → Prop} (hpq : ∀ n, p n → q n) (h : RecordsOf p raw) :
    RecordsOf q raw := by
  induction h with
  | nil => exact .nil
  | cons hp hrecord _ ih => exact .cons (hpq _ hp) hrecord ih

theorem RecordsOf.flatMap {raw : α → Bytes} {as : List α} (h : ∀ a ∈ as, RecordsOf p (raw a)) :
    RecordsOf p (as.flatMap raw) := by
  induction as with
  | nil => exact .nil
  | cons a as ih =>
    exact (h a mem_cons_self).append (ih fun b hb => h b (mem_cons_of_mem a hb))

theorem Decode.mergeRecord_unknown (h : (number : Int) ∉ t.numbers) (nested : Nested)
    (m : Message) (wire : Nat) (start rest : Bytes) :
    mergeRecord reg nested (.ofType t) m number wire start rest =
      match skipValue wire rest with
      | .error e _ => .failed (.malformed e) m
      | .ok _ rest' =>
        match keep t.ranges m number (start.take (start.length - rest'.length)) with
        | .ok m => .done m rest'
        | .error fault => .failed fault m := by
  unfold MessageType.numbers at h
  rw [mem_append, not_or] at h
  have hfield : fieldNumbered? number (Layout.ofType t).table = none :=
    fieldNumbered?_eq_none h.1
  have hmember : ((Layout.ofType t).codec?.bind fun codec =>
      findByNumber? number codec.groups) = none := by
    have hnone := findByNumber?_eq_none h.2
    unfold MessageType.groups at hnone
    show (t.codec?.bind fun codec => findByNumber? number codec.groups) = none
    cases hcodec : t.codec? with
    | none => rfl
    | some codec => rw [hcodec] at hnone; exact hnone
  unfold mergeRecord
  rw [hfield]
  simp only [hmember]
  rfl

/-- A record that no field and no member takes is kept as it is. -/
theorem merges_record (h : IsRecord number raw) (hpos : 0 < number)
    (hnew : (number : Int) ∉ t.numbers) (hkeep : keep t.ranges m number raw = .ok m') :
    Merges reg t raw m m' := by
  intro inGroup rest
  obtain ⟨wire, value, hwire, hread, hskip⟩ := h
  have hend : wire ≠ WireType.endGroup.code := by
    rintro rfl
    cases hskip
  obtain ⟨key, rfl, hkey⟩ := Varint.local_read _ _ _ hread
  obtain ⟨used, rfl, hused⟩ := local_skipValue wire _ _ _ hskip
  have hmod : (number * 8 + wire) % 8 = wire := by omega
  have hdiv : (number * 8 + wire) / 8 = number := by omega
  have hdata := hkey (used ++ rest)
  have hraw : (key ++ (used ++ rest)).take ((key ++ (used ++ rest)).length - rest.length) =
      key ++ (used ++ []) := by
    have hlen : (key ++ (used ++ rest)).length - rest.length = (key ++ used).length := by
      simp only [length_append]
      omega
    rw [hlen, ← append_assoc, take_left, append_nil]
  rw [append_nil, append_assoc]
  rw [append_nil] at hraw hkeep
  cases hbytes : key ++ (used ++ rest) with
  | nil => rw [hbytes] at hdata; cases hdata
  | cons b bs =>
    rw [records_cons, ← hbytes, step, hdata]
    simp only [hmod, hdiv, if_neg hend]
    rw [if_neg (by omega), mergeRecord_unknown hnew, hused rest]
    simp only [hraw, hkeep]

/-! ## Unknown records and extensions -/

/-- Whether a number is neither that of a field nor that of an extension. -/
abbrev MessageType.IsUnknown (t : MessageType) (n : Nat) : Prop :=
  0 < n ∧ (n : Int) ∉ t.numbers ∧ inRanges (n : Int) t.ranges = false

theorem merges_unknown (h : RecordsOf t.IsUnknown raw) :
    ∀ m : Message, m.Clear → Merges reg t raw m { m with unknown? := m.unknown?.map (· ++ raw) } := by
  induction h with
  | nil =>
    intro m _
    simpa using Merges.nil m
  | @cons number raw rest hnumber hrecord _ ih =>
    intro m hm
    obtain ⟨hpos, hnew, hrange⟩ := hnumber
    have hkeep : keep t.ranges m number raw =
        .ok { m with unknown? := m.unknown?.map (· ++ raw) } := by
      unfold keep
      rw [hrange, hm.addUnknown_eq]
      rfl
    have hrest := ih { m with unknown? := m.unknown?.map (· ++ raw) } hm
    simp only [Option.map_map, Function.comp_def, append_assoc] at hrest
    exact (merges_record hrecord hpos hnew hkeep).append hrest

/-- The records of an extension are kept behind those that its number had before. -/
theorem merges_extension {number : Int} (hpos : 0 < number) (hnew : number ∉ t.numbers)
    (hrange : inRanges number t.ranges = true) (h : RecordsOf (fun n => (n : Int) = number) raw) :
    ∀ (m : Message) (ext : RawMap), m.Clear → m.extensions? = some ext → raw ≠ [] →
      Merges reg t raw m
        { m with
          extensions? :=
            some (ext.set number ((ext.get? number).getD [] ++ raw)) } := by
  induction h with
  | nil => exact fun _ _ _ _ hne => absurd rfl hne
  | @cons n raw rest hn hrecord _ ih =>
    subst hn
    intro m ext hm hext _
    have hkeep : keep t.ranges m n raw =
        .ok { m with
          extensions? :=
            some (ext.set (n : Int) ((ext.get? (n : Int)).getD [] ++ raw)) } := by
      unfold keep
      rw [hrange, hm.extensionStore?_eq, hext]
      rfl
    have hfirst : Merges reg t raw m _ := merges_record hrecord (by omega) hnew hkeep
    by_cases hrest : rest = []
    · subst hrest
      simpa using hfirst
    · have hmore := ih
        { m with
          extensions? :=
            some (ext.set (n : Int) ((ext.get? (n : Int)).getD [] ++ raw)) }
        _ hm rfl hrest
      rw [Dictionary.get?_set, if_pos (by simp), Dictionary.set_set] at hmore
      have := hfirst.append hmore
      simpa [append_assoc] using this

/-- Records of extensions are kept as such where the class has a range for them, and as unknown records
elsewhere. -/
theorem merges_pairs (pairs : RawMap)
    (h : ∀ p ∈ pairs, 0 < p.1 ∧ p.1 ∉ t.numbers ∧ p.2 ≠ [] ∧ RecordsOf (fun n => (n : Int) = p.1) p.2)
    (hnodup : (pairs.map (·.1)).Nodup) :
    ∀ m : Message, m.Clear →
      (∀ p ∈ pairs, inRanges p.1 t.ranges = true → ∃ ext, m.extensions? = some ext ∧ p.1 ∉ ext.map (·.1)) →
        Merges reg t (pairs.flatMap (·.2)) m
          { m with
            extensions? := m.extensions?.map (· ++ pairs.filter (inRanges ·.1 t.ranges))
            unknown? := m.unknown?.map (· ++ (pairs.filter (!inRanges ·.1 t.ranges)).flatMap (·.2)) } := by
  induction pairs with
  | nil =>
    intro m _ _
    simpa using Merges.nil m
  | cons p pairs ih =>
    intro m hm hext
    obtain ⟨hpos, hnew, hne, hrecords⟩ := h p mem_cons_self
    rw [map_cons, nodup_cons] at hnodup
    replace ih := ih (fun q hq => h q (mem_cons_of_mem p hq)) hnodup.2
    cases hrange : inRanges p.1 t.ranges with
    | true =>
      obtain ⟨ext, hsome, hnot⟩ := hext p mem_cons_self hrange
      have hfirst : Merges reg t p.2 m _ :=
        merges_extension hpos hnew hrange hrecords m ext hm hsome hne
      rw [Dictionary.get?_eq_none hnot, Dictionary.set_of_not_mem hnot] at hfirst
      have hrest := ih (m.keeping (ext ++ [p])) hm fun q hq hrange => by
        obtain ⟨ext', hsome', hnot'⟩ := hext q (mem_cons_of_mem p hq) hrange
        cases hsome.symm.trans hsome'
        refine ⟨_, rfl, ?_⟩
        rw [map_append, mem_append, not_or]
        refine ⟨hnot', fun heq => hnodup.1 ?_⟩
        rw [← show q.1 = p.1 from mem_singleton.mp heq]
        exact mem_map_of_mem hq
      have := hfirst.append hrest
      simpa [hrange, hsome] using this
    | false =>
      have hunknown : RecordsOf t.IsUnknown p.2 := hrecords.imp fun n (hn : n = p.1) =>
        ⟨by omega, hn ▸ hnew, hn ▸ hrange⟩
      have hfirst : Merges reg t p.2 m _ := merges_unknown hunknown m hm
      have hrest := ih { m with unknown? := m.unknown?.map (· ++ p.2) } hm
        fun q hq => hext q (mem_cons_of_mem p hq)
      have := hfirst.append hrest
      simpa [hrange, Function.comp_def, append_assoc] using this

/-- Extensions that are read one after the other are kept in the order in which they come. -/
theorem merges_extensions (pairs : RawMap)
    (h : ∀ p ∈ pairs, 0 < p.1 ∧ p.1 ∉ t.numbers ∧ inRanges p.1 t.ranges = true ∧ p.2 ≠ [] ∧
      RecordsOf (fun n => (n : Int) = p.1) p.2) (m : Message) (ext : RawMap) (hm : m.Clear)
    (hext : m.extensions? = some ext) (hnodup : ((ext ++ pairs).map (·.1)).Nodup) :
    Merges reg t (pairs.flatMap (·.2)) m (m.keeping (ext ++ pairs)) := by
  rw [map_append] at hnodup
  have hmerges : Merges reg t (pairs.flatMap (·.2)) m _ :=
    merges_pairs pairs (fun p hp => ⟨(h p hp).1, (h p hp).2.1, (h p hp).2.2.2⟩) hnodup.of_append_right m hm
      fun p hp _ => ⟨ext, hext, fun hmem =>
        disjoint_of_nodup_append hnodup hmem (mem_map_of_mem hp)⟩
  have hall : pairs.filter (inRanges ·.1 t.ranges) = pairs :=
    filter_eq_self.mpr fun p hp => (h p hp).2.2.1
  have hnone : pairs.filter (!inRanges ·.1 t.ranges) = [] :=
    filter_eq_nil_iff.mpr fun p hp => by simp [(h p hp).2.2.1]
  simpa [hall, hnone, hext] using hmerges

/-! ## Message sets -/

namespace MessageSet

theorem readMember_rawRecord (number : Int) (hdata : Short data) (name : String) :
    readMember name (rawRecord number data) = .ok data := by
  have hmod : word64 (recordKey number .bytes) % 8 = WireType.bytes.code := by
    have hcode : WireType.bytes.code = 2 := rfl
    unfold word64 recordKey
    rw [hcode]
    omega
  have hrun := readRun_writeRun hdata []
  rw [append_nil] at hrun
  unfold readMember rawRecord writeKey
  rw [Varint.read_write]
  simp only [hmod, hrun]
  rfl

theorem readItem_writeItem (number : Int) (hdata : Short data) (fuel : Nat) (rest : Bytes) :
    readItem (fuel + 3) none none
        (writeKey typeId .varint ++ (Varint.write number ++ (writeKey payload .bytes ++
          (writeRun data ++ (writeKey item .endGroup ++ rest))))) =
      .ok (some (word64 number), some data) rest := by
  rw [readItem_succ, read_writeKey (by decide : FitsKey typeId)]
  simp only
  rw [if_neg (by decide), if_pos (by decide), Varint.read_write]
  simp only
  rw [readItem_succ, read_writeKey (by decide : FitsKey payload)]
  simp only
  rw [if_neg (by decide), if_neg (by decide), if_pos (by decide), readRun_writeRun hdata]
  simp only
  rw [readItem_succ, read_writeKey (by decide : FitsKey item)]
  simp only
  rw [if_pos (by decide)]

theorem readEntry_writeItem {number : Int} (hnumber : 0 ≤ number ∧ number < 18446744073709551616)
    (hdata : Short data) (ext : RawMap) (rest : Bytes) :
    readEntry ext (writeItem number data ++ rest) =
      .ok (ext.set number (rawRecord number data)) rest := by
  have hcast : ((word64 number : Nat) : Int) = number := by
    unfold word64
    omega
  rw [readEntry_eq]
  unfold writeItem
  simp only [append_assoc]
  rw [read_writeKey (by decide)]
  simp only
  rw [if_pos (by decide), readItem_fuel _ (_ + 3) _ (Nat.le_refl _) (Nat.le_add_right _ 3),
    readItem_writeItem number hdata]
  simp only [hcast]

theorem decode_of_readEntry {ext ext' : RawMap}
    (h : readEntry ext bs = .ok ext' rest) : decode ext bs = decode ext' rest := by
  have hlt := readEntry_length_lt h
  unfold decode
  cases bs with
  | nil => cases h
  | cons b bs =>
    rw [length_cons] at hlt ⊢
    rw [decodeEntries, h]
    exact decodeEntries_fuel _ _ _ (by omega) (Nat.le_refl _) _

theorem decode_of_refused {ext : RawMap} {b : UInt8} {e : DecodeError}
    (h : readEntry ext (b :: bs) = .error e rest) : decode ext (b :: bs) = (ext, some e) := by
  unfold decode
  rw [length_cons, decodeEntries, h]

/-- The items that are written of the records of a message set are read back as these records. -/
theorem decode_writeItems (pairs : RawMap)
    (h : ∀ p ∈ pairs, (0 ≤ p.1 ∧ p.1 < 18446744073709551616) ∧
      ∃ data : Bytes, p.2 = rawRecord p.1 data ∧ Short data) :
    ∃ bs, writeItems pairs = .ok bs ∧
      ∀ ext, ((ext ++ pairs).map (·.1)).Nodup → decode ext bs = (ext ++ pairs, none) := by
  induction pairs with
  | nil =>
    refine ⟨[], rfl, fun ext _ => ?_⟩
    rw [append_nil]
    rfl
  | cons p pairs ih =>
    obtain ⟨number, raw⟩ := p
    obtain ⟨hnumber, data, hraw, hdata⟩ := h (number, raw) mem_cons_self
    have hraw : raw = rawRecord number data := hraw
    subst hraw
    obtain ⟨bs, hwritten, hread⟩ := ih fun q hq => h q (mem_cons_of_mem _ hq)
    refine ⟨writeItem number data ++ bs, ?_, fun ext hnodup => ?_⟩
    · unfold writeItems
      rw [readMember_rawRecord number hdata, hwritten]
      rfl
    · have hnot : number ∉ ext.map (·.1) := by
        rw [map_append, map_cons] at hnodup
        exact fun hmem => disjoint_of_nodup_append hnodup hmem mem_cons_self
      rw [decode_of_readEntry (readEntry_writeItem hnumber hdata ext bs),
        Dictionary.set_of_not_mem hnot, hread _ (by simpa using hnodup), append_assoc]
      rfl

end MessageSet

end Protobind

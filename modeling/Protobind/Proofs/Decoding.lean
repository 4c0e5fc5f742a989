import Protobind.Proofs.Locality

/-!
# How much is read

Everything that is merged takes bytes away: a record at least its key, a group the key that ends it.
So fuel for as many records as there are bytes never runs out, and more gives the same outcome
(`mergeRecords_fuel`). Records can then be read off one by one with no fuel
(`Decode.records_cons`).
-/

namespace Protobind

open List Varint Value WireType

variable {β : Type} {bs : Bytes} {inGroup : Bool} {l : Layout} {m : Message} {n : Nat} {number : Int}
  {reg : Registry}

namespace Decode

/-! ## Readers that agree -/

/-- Whether two readers for messages do the same on data of at most `n` bytes. -/
def Nested.AgreeUpTo (n : Nat) (nested nested' : Nested) : Prop :=
  ∀ m bs, bs.length ≤ n →
    nested.message m bs = nested'.message m bs ∧ nested.group m bs = nested'.group m bs

theorem into_congr {merge merge' : Message → Bytes → Outcome Message}
    (h : ∀ m, merge m bs = merge' m bs) (v : Value) : into merge v bs = into merge' v bs := by
  cases v with
  | message m => exact congrArg (Outcome.map message) (h m)
  | _ => rfl

theorem single_of_isMessage_eq_false {slot : Slot} (h : slot.kind.isMessage = false)
    (nested : Nested) (current : Value) (bs : Bytes) :
    single reg nested slot current bs =
      match scalar reg slot bs with
      | .ok (v, rest) => .done v rest
      | .error fault => .failed fault current := by
  unfold single
  refine (if_neg (by simp [h])).trans ?_
  cases scalar reg slot bs <;> rfl

theorem isMessage_eq_false_of_isPackable {kind : SlotKind} (h : kind.isPackable = true) :
    kind.isMessage = false := by
  cases kind with
  | other name => rfl
  | known kind =>
    cases kind with
    | string | bytes | message | group => cases h
    | _ => rfl

section Agreement

variable {nested nested' : Nested} (hn : nested.Local) (ha : nested.AgreeUpTo n nested')
  (hbs : bs.length ≤ n)

section

include ha hbs

theorem embedded_congr (isGroup : Bool) (v : Value) : embedded nested isGroup v bs = embedded nested' isGroup v bs := by
  unfold embedded
  rw [into_congr (fun m => (ha m bs hbs).2)]
  unfold reading
  cases hrun : ofReader readRun bs with
  | error fault => rfl
  | ok r =>
    have hshort := length_lt_of_readRun (ofReader_eq_ok.mp hrun)
    simp only
    rw [into_congr (fun m => (ha m r.1 (by omega)).1)]

theorem single_congr (slot : Slot) (current : Value) : single reg nested slot current bs = single reg nested' slot current bs := by
  unfold single
  simp only [embedded_congr ha hbs]

theorem repeated_congr (slot : Slot) (wire : Nat) (current : Value) :
    repeated reg nested slot wire current bs = repeated reg nested' slot wire current bs := by
  unfold repeated
  by_cases hrun : (wire = bytes.code && slot.kind.isPackable) = true
  · rw [if_pos hrun, if_pos hrun]
    have hplain := isMessage_eq_false_of_isPackable (Bool.and_eq_true_iff.mp hrun).2
    unfold addedRun
    simp only [single_of_isMessage_eq_false hplain]
  · rw [if_neg hrun, if_neg hrun]
    simp only [reading, single_congr ha hbs]

end

/-- An entry is read by what its readers do on shorter data, and with any fuel that is as large as
the entry. -/
theorem entry_congr {readKey readKey' readValue readValue' : Nat → Parse Value}
    (hshort : ∀ wire bs v rest, readKey wire bs = .ok (v, rest) → rest.length ≤ bs.length)
    (hshort' : ∀ wire bs v rest, readValue wire bs = .ok (v, rest) → rest.length ≤ bs.length)
    (hkey : ∀ wire bs, bs.length ≤ n → readKey wire bs = readKey' wire bs)
    (hvalue : ∀ wire bs, bs.length ≤ n → readValue wire bs = readValue' wire bs) :
    ∀ fuel fuel' bs, bs.length ≤ fuel → bs.length ≤ fuel' → bs.length ≤ n → ∀ key value,
      entry readKey readValue fuel key value bs =
        entry readKey' readValue' fuel' key value bs := by
  refine fuel_induction (fun fuel fuel' _ _ _ => ?_) fun {fuel fuel' b bs} ih hbs key value => ?_
  · cases fuel <;> cases fuel' <;> rfl
  · rw [length_cons] at hbs
    unfold entry
    cases htag : ofReader read (b :: bs) with
    | error fault => rfl
    | ok p =>
      obtain ⟨tag, rest⟩ := p
      have hlt := length_lt_of_read (ofReader_eq_ok.mp htag)
      rw [length_cons] at hlt
      simp only [bind, Except.bind]
      split
      · rw [← hkey _ rest (by omega)]
        cases hread : readKey (tag % 8) rest with
        | error fault => rfl
        | ok q =>
          have := hshort _ _ _ _ hread
          exact ih _ (by omega) (by omega) _ _
      split
      · rw [← hvalue _ rest (by omega)]
        cases hread : readValue (tag % 8) rest with
        | error fault => rfl
        | ok q =>
          have := hshort' _ _ _ _ hread
          exact ih _ (by omega) (by omega) _ _
      · cases hskip : ofReader (skipValue (tag % 8 : Nat)) rest with
        | error fault => rfl
        | ok q =>
          have := (local_skipValue _).length_le (ofReader_eq_ok.mp hskip)
          exact ih _ (by omega) (by omega) _ _

include hn ha

theorem field_congr (f : Field) :
    ∀ (wire : Nat) (current : Value) (bs : Bytes), bs.length ≤ n →
      field reg nested f wire current bs = field reg nested' f wire current bs := by
  induction f with
  | plain slot =>
    intro wire current bs hbs
    unfold field
    rw [repeated_congr ha hbs, single_congr ha hbs]
  | map slot key val ihKey ihVal =>
    intro wire current bs hbs
    rw [field_map_eq, field_map_eq]
    unfold reading
    cases hrun : ofReader readRun bs with
    | error fault => rfl
    | ok p =>
      obtain ⟨run, rest⟩ := p
      have hlt := length_lt_of_readRun (ofReader_eq_ok.mp hrun)
      have hentry := entry_congr
        (fun wire bs v rest h => field_length_le hn (outcomeParse_eq_ok.mp h))
        (fun wire bs v rest h => field_length_le hn (outcomeParse_eq_ok.mp h))
        (fun wire bs h => congrArg outcomeParse (ihKey wire .null bs h))
        (fun wire bs h => congrArg outcomeParse (ihVal wire .null bs h))
        run.length _ run (Nat.le_refl _) (Nat.le_refl _) (by omega) .null .null
      simp only [mapEntry, readEntry, hentry]

include hbs

theorem mergeRecord_congr (l : Layout) (m : Message) (number wire : Nat) (start : Bytes) :
    mergeRecord reg nested l m number wire start bs =
      mergeRecord reg nested' l m number wire start bs := by
  have hfield : ∀ f, mergeField reg nested m f wire bs = mergeField reg nested' m f wire bs := by
    intro f
    unfold mergeField
    simp only [field_congr hn ha f wire _ bs hbs]
  have hmember : ∀ group member, mergeMember reg nested m group member wire bs =
      mergeMember reg nested' m group member wire bs := by
    intro group member
    have hstep : ∀ type step, readStep reg nested type bs step = readStep reg nested' type bs step := by
      intro type step
      unfold readStep
      simp only [embedded_congr ha hbs]
    unfold mergeMember oneofCase
    simp only [hstep]
  unfold mergeRecord
  simp only [hfield, hmember]

end Agreement

end Decode

open Decode

/-- Any fuel that is as large as the data gives the same outcome: a record takes at least the
bytes of its key, and so does a level of nesting. -/
theorem mergeRecords_fuel (reg : Registry) :
    ∀ fuel fuel' bs, bs.length ≤ fuel → bs.length ≤ fuel' → ∀ inGroup l m,
      mergeRecords reg fuel inGroup l m bs = mergeRecords reg fuel' inGroup l m bs := by
  refine fuel_induction (fun fuel fuel' inGroup l m => ?_)
    fun {fuel fuel' b bs} ih inGroup l m => ?_
  · rw [mergeRecords_nil, mergeRecords_nil]
  · rw [mergeRecords_cons, mergeRecords_cons, step, step]
    cases hkey : read (b :: bs) with
    | error e rest => rfl
    | ok tag rest =>
      have hrest := Nat.le_of_lt_succ (length_lt_of_read hkey)
      have ha : (boundedReaders reg fuel).AgreeUpTo bs.length (boundedReaders reg fuel') := by
        intro m data hdata
        have hfrom : ∀ inGroup, mergeFrom reg fuel inGroup m data =
            mergeFrom reg fuel' inGroup m data := by
          intro inGroup
          unfold mergeFrom
          simp only [ih data hdata]
        unfold boundedReaders
        simp only [hfrom, and_self]
      simp only
      rw [mergeRecord_congr (local_boundedReaders reg fuel) ha hrest]
      split
      · rfl
      split
      · rfl
      split
      · rename_i hrecord
        have hle := mergeRecord_length_le (local_boundedReaders reg fuel') hkey hrecord
        exact ih _ (by omega) _ _ _
      · rfl

/-! ## Reading without fuel -/

/-- Whether an outcome is a state with one property or a fault with another. -/
def Outcome.Ends {σ : Type} (p : σ → Prop) (q : Fault → Prop) : Outcome σ → Prop
  | .done s _ => p s
  | .failed fault _ => q fault

namespace Decode

/-- The readers for messages inside a message, with fuel that always suffices. -/
def readers (reg : Registry) : Nested where
  message := merge reg
  group := fun m bs => mergeFrom reg bs.length true m bs

/-- Merges records into a message of a layout, with fuel that always suffices. -/
def records (reg : Registry) (inGroup : Bool) (l : Layout) (m : Message) (bs : Bytes) :
    Outcome Message :=
  mergeRecords reg bs.length inGroup l m bs

theorem agreeUpTo_boundedReaders (reg : Registry) (n : Nat) :
    (boundedReaders reg n).AgreeUpTo n (readers reg) := by
  intro m bs hbs
  have hfrom : ∀ inGroup, mergeFrom reg n inGroup m bs = mergeFrom reg bs.length inGroup m bs := by
    intro inGroup
    unfold mergeFrom
    simp only [mergeRecords_fuel reg n bs.length bs hbs (Nat.le_refl _)]
  unfold boundedReaders readers merge
  simp only [hfrom, and_self]

/-- A group is read as it is, whatever follows it; without the key that ends it, it is malformed. -/
theorem reads_readers {tagged : Prop} (hreads : tagged → reg.ReadsTagged) :
    (readers reg).LocalIf tagged := by
  intro m bs m' rest h
  have hfrom (fuel : Nat) {data : Bytes} (hdata : data.length ≤ fuel) :
      (readers reg).group m data = (boundedReaders reg fuel).group m data :=
    (agreeUpTo_boundedReaders reg fuel m data hdata).2.symm
  -- The fuel is the length of the data, so other data has other fuel.
  have hread (fuel : Nat) (hfuel : bs.length ≤ fuel) : ReadsTo tagged startGroup.code
      ((boundedReaders reg fuel).group m) (.done m') RejectsInto bs rest :=
    reads_boundedReaders hreads fuel m (hfrom fuel hfuel ▸ h)
  obtain ⟨⟨used, hbs, hused⟩, hskipped⟩ := hread bs.length (Nat.le_refl _)
  have hlen : bs.length = used.length + rest.length := by rw [hbs, length_append]
  refine ⟨⟨used, hbs, fun more => ?_, fun part hpart hne => ?_⟩, hskipped⟩
  · obtain ⟨used', hbs', hused'⟩ := (hread (bs.length + more.length) (Nat.le_add_right _ _)).front
    obtain rfl : used = used' := append_cancel_right (hbs.symm.trans hbs')
    rw [hfrom (bs.length + more.length) (by rw [length_append]; omega)]
    exact hused'.exact more
  · have hle := hpart.length_le
    rw [hfrom bs.length (by omega)]
    exact hused.strict part hpart hne

theorem local_readers (reg : Registry) : (readers reg).Local := reads_readers False.elim

theorem records_nil : records reg inGroup l m [] =
      if inGroup then .failed (.malformed .endInGroup) m else .done m [] :=
  mergeRecords_nil inGroup

theorem records_cons (b : UInt8) (bs : Bytes) : records reg inGroup l m (b :: bs) =
      step reg (readers reg) (records reg inGroup l) inGroup l m (b :: bs) := by
  unfold records
  rw [length_cons, mergeRecords_cons]
  unfold step
  cases hkey : read (b :: bs) with
  | error e rest => rfl
  | ok tag rest =>
    have hlt := length_lt_of_read hkey
    rw [length_cons] at hlt
    have hrest : rest.length ≤ bs.length := by omega
    simp only
    rw [mergeRecord_congr (local_boundedReaders reg bs.length)
      (agreeUpTo_boundedReaders reg bs.length) hrest]
    split
    · rfl
    split
    · rfl
    cases hrecord : mergeRecord reg (readers reg) l m (tag / 8) (tag % 8) (b :: bs) rest with
    | done m rest' =>
      have hle := mergeRecord_length_le (local_readers reg) hkey hrecord
      exact mergeRecords_fuel reg _ _ _ (by omega) (by omega) _ _ _
    | failed fault m => rfl

theorem records_next {rest : Bytes} {tag : Nat} (h : read bs = .ok tag rest) :
    records reg inGroup l m bs = step reg (readers reg) (records reg inGroup l) inGroup l m bs := by
  cases bs with
  | nil => cases h
  | cons b bs => exact records_cons b bs

/-- Records that are read up to the end of the data are read one by one, each of them as it is whatever
follows it. -/
theorem records_induction {m' : Message} {rest' : Bytes}
    {motive : Message → Bytes → Prop} (nil : rest' = [] → motive m' [])
    (next : ∀ m m₁ tag key value rest, (∀ more, read (key ++ more) = .ok tag more) →
      tag % 8 ≠ endGroup.code →
      (∀ more, nextRecord reg (readers reg) l m (key ++ value ++ more) = .done m₁ more) →
      motive m₁ rest → motive m (key ++ value ++ rest))
    (h : records reg false l m bs = .done m' rest') : motive m bs := by
  induction hn : bs.length using Nat.strongRecOn generalizing bs m with
  | ind n ih =>
    cases hkey : read bs with
    | error e rest =>
      cases bs with
      | nil =>
        cases h
        exact nil rfl
      | cons b bs => rw [records_cons, step, hkey] at h; cases h
    | ok tag behind =>
      rw [records_next hkey, step_of_read hkey] at h
      split at h
      · cases h
      · rename_i hend
        split at h
        · rename_i m₁ rest hnext
          have hshort := length_lt_of_read hkey
          obtain ⟨tag', key, value, rfl, hkey', -, hnext'⟩ :=
            local_nextRecord (local_readers reg) False.elim hnext
          rw [append_assoc, hkey'] at hkey
          cases hkey
          refine next m m₁ tag key value rest hkey' hend hnext'.exact (ih rest.length ?_ h rfl)
          simp only [length_append] at hn hshort
          omega
        · cases h

theorem ends_records (reg : Registry) (l : Layout) {p : Message → Prop} {q : Fault → Prop}
    (hbad : ∀ e, q (.malformed e))
    (hstep : ∀ m start tag rest, p m → read start = .ok tag rest → tag / 8 ≠ 0 → rest.length < n →
      (mergeRecord reg (readers reg) l m (tag / 8) (tag % 8) start rest).Ends p q) (inGroup : Bool)
    (hm : p m) (hbs : bs.length ≤ n) : (records reg inGroup l m bs).Ends p q := by
  induction hlen : bs.length using Nat.strongRecOn generalizing bs m with
  | ind k ih =>
    cases bs with
    | nil =>
      rw [records_nil]
      split
      · exact hbad _
      · exact hm
    | cons b bs =>
      rw [records_cons, step]
      cases hkey : read (b :: bs) with
      | error e rest => exact hbad e
      | ok tag rest =>
        have hlt := length_lt_of_read hkey
        simp only
        split
        · split
          · exact hm
          · exact hbad _
        split
        · exact hbad _
        · rename_i hpos
          have hrecord := hstep m (b :: bs) tag rest hm hkey hpos (by omega)
          cases hdone : mergeRecord reg (readers reg) l m (tag / 8) (tag % 8) (b :: bs) rest with
          | failed fault m' => rw [hdone] at hrecord; exact hrecord
          | done m' rest' =>
            rw [hdone] at hrecord
            have hle := mergeRecord_length_le (local_readers reg) hkey hdone
            exact ih rest'.length (by omega) hrecord (by omega) rfl

theorem records_writeKey (reg : Registry) (inGroup : Bool) (l : Layout) (m : Message)
    (h : IsNumber number) {wire : WireType} (hwire : wire ≠ .endGroup) (rest : Bytes) :
    records reg inGroup l m (writeKey number wire ++ rest) =
      match mergeRecord reg (readers reg) l m number.toNat wire.code (writeKey number wire ++ rest)
        rest with
      | .done m rest => records reg inGroup l m rest
      | .failed fault m => .failed fault m := by
  have hread := read_writeKey h.fitsKey wire rest
  have hcode : wire.code < 8 := by cases wire <;> decide
  have hcode' : wire.code ≠ endGroup.code := by
    cases wire with
    | endGroup => exact absurd rfl hwire
    | _ => decide
  have hmod : (number.toNat * 8 + wire.code) % 8 = wire.code := by omega
  have hdiv : (number.toNat * 8 + wire.code) / 8 = number.toNat := by omega
  have hstep : records reg inGroup l m (writeKey number wire ++ rest) = _ :=
    (records_next hread).trans (step_of_read hread)
  simp only [hmod, if_neg hcode', nextRecord, hread, hdiv] at hstep
  rw [if_neg (by omega)] at hstep
  exact hstep

theorem records_endGroup (h : FitsKey number) (rest : Bytes) :
    records reg true l m (writeKey number .endGroup ++ rest) = .done m rest := by
  have hread := read_writeKey h .endGroup rest
  have hmod : (number.toNat * 8 + endGroup.code) % 8 = endGroup.code := by
    show (number.toNat * 8 + 4) % 8 = 4
    omega
  rw [records_next hread, step_of_read hread, if_pos hmod, if_pos rfl]

theorem mergeFrom_eq_records : mergeFrom reg bs.length inGroup m bs =
      match layout reg m with
      | .error fault => .failed fault m
      | .ok l => records reg inGroup l m bs := rfl

theorem embedded_message {start m' : Message} (hlen : Short bs)
    (hmerge : merge reg start bs = .done m' []) (rest : Bytes) :
    embedded (readers reg) false (.message start) (writeRun bs ++ rest) =
      .done (.message m') rest := by
  unfold embedded
  rw [if_neg (by decide), reading, ofReader_eq_ok.mpr (readRun_writeRun hlen rest)]
  simp only [into, readers, hmerge, Outcome.map, withRest]

theorem embedded_group {start m' : Message} {rest : Bytes}
    (h : (readers reg).group start bs = .done m' rest) :
    embedded (readers reg) true (.message start) bs = .done (.message m') rest := by
  unfold embedded
  rw [if_pos rfl]
  simp only [into, h, Outcome.map]

/-- Any fuel that is as large as a run reads the same values from it. -/
theorem unpack_fuel {read : Parse Value}
    (hread : ∀ bs v rest, read bs = .ok (v, rest) → rest.length < bs.length) :
    ∀ fuel fuel' bs, bs.length ≤ fuel → bs.length ≤ fuel' →
      unpack read fuel bs = unpack read fuel' bs := by
  refine fuel_induction (fun fuel fuel' => ?_) fun {fuel fuel' b bs} ih => ?_
  · cases fuel <;> cases fuel' <;> rfl
  · unfold unpack
    cases hb : read (b :: bs) with
    | error fault => rfl
    | ok p =>
      simp only
      rw [ih p.2 (Nat.le_of_lt_succ (hread _ _ _ hb))]

end Decode

end Protobind

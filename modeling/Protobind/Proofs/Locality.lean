import Protobind.Message.Decode
import Protobind.Proofs.Encoding
import Protobind.Proofs.Skipping

/-!
# Records stand on their own

A record that is merged takes a front part of the data. What stands behind that part has no
influence on it, and if the part is cut short anywhere, the rest of it is found to be missing
(`Decode.local_nextRecord`). If the tags of the fields fit their kinds, reading a value takes
exactly what skipping it takes; the condition is carried along as `tagged`.
-/

namespace Protobind

open List Varint WireType

variable {α β ρ ρ' σ τ : Type} {tagged : Prop} {l : Layout} {m m' : Message} {current v : Value}
  {wire fuel n number tag : Nat} {bs rest used value : Bytes} {a : α} {f : Field} {fault? : Option Fault}
  {member : VariantMember} {r : Reader α} {reg : Registry} {slot : Slot} {vs : List Value}

/-! ## Readers -/

/-- Whether what is read at the front of some data is `used`: with anything behind it the reading is
`done`, and with a part of it alone it is `bad`. -/
structure ReadsFront (read : Bytes → ρ) (done : Bytes → ρ) (bad : ρ → Prop) (used : Bytes) : Prop where
  exact : ∀ more, read (used ++ more) = done more
  strict : ∀ part, part <+: used → part ≠ used → bad (read part)

/-- Whether the value of a record whose wire type has the given code is followed by `rest`. -/
def Skipped (wire : Nat) (bs rest : Bytes) : Prop := skipValue wire bs = .ok () rest

/-- Whether a front part of some data is read, and `rest` stands behind it. With `tagged`, that is also
what a value of the wire type is followed by. -/
structure ReadsTo (tagged : Prop) (wire : Nat) (read done : Bytes → ρ) (bad : ρ → Prop)
    (bs rest : Bytes) : Prop where
  front : ∃ used, bs = used ++ rest ∧ ReadsFront read done bad used
  skipped : tagged → Skipped wire bs rest

/-- A proper part of two pieces is a proper part of the first one, or ends within the second one. -/
theorem cut_append {first second part : Bytes} (h : part <+: first ++ second)
    (hne : part ≠ first ++ second) : (part <+: first ∧ part ≠ first) ∨
      ∃ front, part = first ++ front ∧ front <+: second ∧ front ≠ second := by
  rcases Nat.lt_or_ge part.length first.length with hcut | hcut
  · exact .inl ⟨prefix_of_prefix_length_le h (prefix_append _ _) (Nat.le_of_lt hcut), by rintro rfl; omega⟩
  · obtain ⟨front, rfl⟩ := prefix_of_prefix_length_le (prefix_append _ _) h hcut
    exact .inr ⟨front, rfl, (prefix_append_right_inj first).mp h, by rintro rfl; exact hne rfl⟩

theorem ReadsTo.trans {read done : Bytes → ρ} {read' done' : Bytes → ρ'} {bad : ρ → Prop}
    {bad' : ρ' → Prop} (h : ReadsTo tagged wire read done bad bs rest)
    (hdone : ∀ bs rest, read bs = done rest → read' bs = done' rest)
    (hbad : ∀ bs, bad (read bs) → bad' (read' bs)) : ReadsTo tagged wire read' done' bad' bs rest := by
  obtain ⟨⟨used, hbs, hused⟩, hskipped⟩ := h
  refine ⟨⟨used, hbs, fun more => hdone _ _ (hused.exact more), fun part hpart hne => ?_⟩, hskipped⟩
  exact hbad _ (hused.strict part hpart hne)

namespace Reader

theorem Local.append (hr : r.Local) (h : r bs = .ok a rest) (more : Bytes) :
    r (bs ++ more) = .ok a (rest ++ more) := by
  obtain ⟨used, rfl, hused⟩ := hr bs a rest h
  rw [append_assoc]
  exact hused _

/-- Whether a reader has found that something is missing. -/
def Refuses (result : EStateM.Result DecodeError Bytes α) : Prop :=
  ∃ e rest, result = .error e rest

/-- A local reader cannot be content with a part of what it takes: it would take no more with the rest
of it behind that part. -/
theorem Local.front (hr : r.Local) (h : r bs = .ok a rest) :
    ∃ used, bs = used ++ rest ∧ ReadsFront r (.ok a) Refuses used := by
  obtain ⟨used, hbs, hused⟩ := hr bs a rest h
  refine ⟨used, hbs, hused, fun part hpart hne => ?_⟩
  obtain ⟨behind, rfl⟩ := hpart
  cases hread : r part with
  | error e rest' => exact ⟨e, rest', rfl⟩
  | ok a' rest' =>
    have hwhole := hused []
    rw [append_nil, hr.append hread] at hwhole
    have hnil := (append_eq_nil_iff.mp (EStateM.Result.ok.inj hwhole).2).2
    exact absurd (by simp [hnil]) hne

/-- Whether a reader takes exactly what is skipped of a value of a wire type. -/
structure Takes (r : Reader α) (wire : WireType) : Prop where
  isLocal : r.Local
  skips : ∀ ⦃bs a rest⦄, r bs = .ok a rest → Skipped wire.code bs rest

namespace Takes

variable {wire : WireType}

theorem bind (hr : r.Takes wire) {f : α → Reader β}
    (hf : ∀ a bs b rest, f a bs = .ok b rest → ∀ more, f a more = .ok b more) : Takes (r >>= f) wire := by
  have hrest : ∀ a bs b rest, f a bs = .ok b rest → rest = bs := fun a bs b rest h =>
    (EStateM.Result.ok.inj (h.symm.trans (hf a bs b rest h bs))).2
  constructor
  · refine hr.isLocal.bind fun a bs b rest h => ⟨[], ?_, hf a bs b rest h⟩
    rw [hrest a bs b rest h, nil_append]
  · intro bs b rest h
    obtain ⟨a, rest', hread, h⟩ := bind_ok.mp h
    rw [hrest a _ _ _ h]
    exact hr.skips hread

theorem lift (hr : r.Takes wire) {f : α → β} : Takes (do let a ← r; pure (f a)) wire :=
  hr.bind fun a bs b rest h more => by cases h; rfl

theorem map (hr : r.Takes wire) (f : α → β) : Takes (f <$> r) wire := by
  rw [map_eq_pure_bind]
  exact hr.lift

end Takes

end Reader

open Reader (Takes seqRight_unit)

theorem takes_read : Takes read .varint := ⟨local_read, fun _ _ _ h => seqRight_unit h⟩

theorem takes_readRun : Takes readRun .bytes := ⟨local_readRun, fun _ _ _ h => seqRight_unit h⟩

theorem takes_readFixed64 : Takes readFixed64 .fixed64 := by
  refine Takes.map ⟨local_takeBytes 8, fun _ _ _ h => ?_⟩ _
  exact seqRight_unit h

theorem takes_readFixed32 : Takes readFixed32 .fixed32 := by
  refine Takes.map ⟨local_takeBytes 4, fun _ _ _ h => ?_⟩ _
  exact seqRight_unit h

theorem takes_readText : Takes readText .bytes := by
  refine takes_readRun.bind fun data bs s rest h more => ?_
  cases htext : Bytes.toText? data with
  | some s => rw [htext] at h; cases h; rfl
  | none => rw [htext] at h; cases h

/-- Whether the tag of a field has the wire type that values of its kind are written with. -/
def Slot.Tagged (slot : Slot) : Prop :=
  ∀ kind, slot.kind = .known kind → slot.tag.wireType = kind.encoding.wireType

/-- The same of a table entry. That of a map is written as a run, whatever its tag is. -/
def Field.Tagged : Field → Prop
  | .plain slot => slot.Tagged
  | .map .. => True

theorem OneofCase.ofKind_wireType (kind : Kind) :
    (OneofCase.ofKind kind).wireType = kind.encoding.wireType := by
  cases kind <;> rfl

namespace Decode

/-! ## Parsers -/

theorem ofReader_eq_ok : ofReader r bs = .ok (a, rest) ↔ r bs = .ok a rest := by
  unfold ofReader
  cases r bs <;> constructor <;> intro h <;> cases h <;> rfl

theorem mapParse_eq_ok {f : α → β} {p : Parse α} {b : β} :
    mapParse f p bs = .ok (b, rest) ↔ ∃ a, p bs = .ok (a, rest) ∧ f a = b := by
  unfold mapParse
  rw [bind_eq_ok]
  constructor
  · rintro ⟨⟨a, rest'⟩, hp, h⟩
    cases h
    exact ⟨a, hp, rfl⟩
  · rintro ⟨a, hp, rfl⟩
    exact ⟨(a, rest), hp, rfl⟩

theorem outcomeParse_eq_ok {o : Outcome Value} :
    outcomeParse o = .ok (v, rest) ↔ o = .done v rest := by
  cases o <;> constructor <;> intro h <;> cases h <;> rfl

theorem map_eq_done {τ : Type} {f : σ → τ} {o : Outcome σ} {t : τ} (h : o.map f = .done t rest) :
    ∃ s, o = .done s rest ∧ f s = t := by
  cases o with
  | done s rest' => cases h; exact ⟨s, rfl, rfl⟩
  | failed fault s => cases h

/-- Whether a parser has found the data malformed. -/
def Rejects (result : Result (α × Bytes)) : Prop :=
  ∃ e, result = .error (.malformed e)

/-- The same of what is merged into a state. -/
def RejectsInto (outcome : Outcome σ) : Prop :=
  ∃ e s, outcome = .failed (.malformed e) s

/-- Whether a parser takes a front part of its data, comes out the same whatever follows it, and needs
all of it. -/
def LocalParse (tagged : Prop) (wire : Nat) (p : Parse α) : Prop :=
  ∀ ⦃bs a rest⦄, p bs = .ok (a, rest) →
    ReadsTo tagged wire p (fun rest => .ok (a, rest)) Rejects bs rest

/-- The same of what is merged into a state. -/
def LocalOutcome (tagged : Prop) (wire : Nat) (read : Bytes → Outcome σ) : Prop :=
  ∀ ⦃bs s rest⦄, read bs = .done s rest → ReadsTo tagged wire read (.done s) RejectsInto bs rest

theorem local_ofReader {wire : WireType} (hr : r.Takes wire) :
    LocalParse tagged wire.code (ofReader r) := by
  intro bs a rest h
  have h := ofReader_eq_ok.mp h
  have hread : ReadsTo tagged wire.code r (.ok a) Reader.Refuses bs rest :=
    ⟨hr.isLocal.front h, fun _ => hr.skips h⟩
  refine hread.trans (fun _ _ h => ofReader_eq_ok.mpr h) fun bs hbad => ?_
  obtain ⟨e, rest, h⟩ := hbad
  exact ⟨e, by simp only [ofReader, h]⟩

theorem LocalParse.bind {p : Parse α} (hp : LocalParse tagged wire p) (f : α → Result β) :
    LocalParse tagged wire fun bs => p bs >>= fun r => f r.1 >>= fun b => pure (b, r.2) := by
  intro bs b rest h
  obtain ⟨⟨a, rest'⟩, ha, h⟩ := bind_eq_ok.mp h
  obtain ⟨b', hb, h⟩ := bind_eq_ok.mp h
  cases h
  refine (hp ha).trans (fun bs rest h => ?_) fun bs hbad => ?_
  · exact bind_eq_ok.mpr ⟨_, h, bind_eq_ok.mpr ⟨_, hb, rfl⟩⟩
  · obtain ⟨e, hbad⟩ := hbad
    exact ⟨e, by rw [hbad]; rfl⟩

theorem local_mapParse {wire : WireType} (f : α → β) (hr : r.Takes wire) :
    LocalParse tagged wire.code (mapParse f (ofReader r)) :=
  (local_ofReader hr).bind fun a => .ok (f a)

namespace LocalOutcome

variable {read : Bytes → Outcome σ} (h : LocalOutcome tagged wire read)
include h

theorem length_le {s : σ} (hread : read bs = .done s rest) : rest.length ≤ bs.length := by
  obtain ⟨used, rfl, _⟩ := (h hread).front
  simp

theorem congr {read' : Bytes → Outcome σ} (heq : ∀ bs, read' bs = read bs) :
    LocalOutcome tagged wire read' :=
  (funext heq : read' = read) ▸ h

theorem wire_eq {wire' : Nat} (hwire : tagged → wire = wire') : LocalOutcome tagged wire' read :=
  fun _ _ _ hread => ⟨(h hread).front, fun ht => hwire ht ▸ (h hread).skipped ht⟩

theorem guarded {read' : Bytes → Outcome σ} {wire' : Nat} {fault : Fault} {s : σ}
    (heq : ∀ bs, read' bs = if wire' ≠ wire then .failed fault s else read bs) :
    LocalOutcome tagged wire' read' := by
  by_cases hwire : wire' = wire
  · exact (h.congr fun bs => (heq bs).trans (if_neg (not_not.mpr hwire))).wire_eq fun _ => hwire.symm
  · intro bs s' rest hread
    rw [heq, if_pos hwire] at hread
    cases hread

theorem map (f : σ → τ) : LocalOutcome tagged wire fun bs => (read bs).map f := by
  intro bs t rest hread
  obtain ⟨s, hs, rfl⟩ := map_eq_done hread
  refine (h hs).trans (fun bs rest h => by rw [h]; rfl) fun bs hbad => ?_
  obtain ⟨e, s, hbad⟩ := hbad
  exact ⟨e, f s, by rw [hbad]; rfl⟩

omit h in
theorem parse {read : Bytes → Outcome Value} (h : LocalOutcome tagged wire read) :
    LocalParse tagged wire fun bs => outcomeParse (read bs) := by
  intro bs v rest hread
  refine (h (outcomeParse_eq_ok.mp hread)).trans (fun bs rest h => outcomeParse_eq_ok.mpr h) fun bs hbad => ?_
  obtain ⟨e, s, hbad⟩ := hbad
  exact ⟨e, by rw [hbad]; rfl⟩

end LocalOutcome

theorem reading_eq_done {p : Parse α} {next : α → Outcome σ} {s s' : σ} :
    reading s p next bs = .done s' rest ↔ ∃ a rest', p bs = .ok (a, rest) ∧ next a = .done s' rest' := by
  unfold reading
  cases p bs with
  | error fault => simp
  | ok r =>
    obtain ⟨a, rest'⟩ := r
    cases hnext : next a <;> simp_all [withRest, and_comm]

theorem local_reading {p : Parse α} (hp : LocalParse tagged wire p) (s : σ) (next : α → Outcome σ) :
    LocalOutcome tagged wire (reading s p next) := by
  intro bs s' rest h
  obtain ⟨a, rest', ha, hnext⟩ := reading_eq_done.mp h
  refine (hp ha).trans (fun bs rest h => reading_eq_done.mpr ⟨a, rest', h, hnext⟩) fun bs hbad => ?_
  obtain ⟨e, hbad⟩ := hbad
  exact ⟨e, s, by rw [reading, hbad]⟩

/-! ## Values -/

/-- A value takes what is skipped of its wire type, whatever follows. -/
theorem local_scalar (reg : Registry) {kind : Kind} (hkind : slot.kind = .known kind) :
    LocalParse tagged kind.encoding.wireType.code (scalar reg slot) := by
  unfold scalar
  rw [hkind]
  cases kind with
  | double => exact local_mapParse _ takes_readFixed64
  | float => exact local_mapParse _ takes_readFixed32
  | fixed64 | sfixed64 => exact local_mapParse _ takes_readFixed64.lift
  | fixed32 | sfixed32 => exact local_mapParse _ takes_readFixed32.lift
  | int64 | uint64 | int32 | uint32 => exact local_mapParse _ takes_read.lift
  | bool => exact local_mapParse _ takes_read
  | sint32 | sint64 => exact local_mapParse _ (takes_read.map _)
  | string => exact local_mapParse _ takes_readText
  | bytes => exact local_mapParse _ takes_readRun
  | message | group => exact fun bs v rest h => by cases h
  | enum => exact (local_ofReader takes_read).bind fun n => reg.enumValue slot.typeName? (signed32 n)

theorem scalar_length_lt (h : scalar reg slot bs = .ok (v, rest)) : rest.length < bs.length := by
  cases hkind : slot.kind with
  | other name => unfold scalar at h; rw [hkind] at h; cases h
  | known kind =>
    have hread : LocalParse False _ (scalar reg slot) := local_scalar reg hkind
    obtain ⟨used, rfl, hused⟩ := (hread h).front
    cases used with
    | cons b used =>
      simp only [cons_append, length_cons, length_append]
      omega
    | nil =>
      have hnil := hused.exact []
      unfold scalar at hnil
      rw [hkind] at hnil
      cases kind <;> cases hnil

/-- Reads one entry of a map by its fields. -/
abbrev mapEntry (reg : Registry) (nested : Nested) (key val : Field) : Value → Bytes → Result Value :=
  readEntry reg key.slot val.slot (fun wire bs => outcomeParse (field reg nested key wire .null bs))
    (fun wire bs => outcomeParse (field reg nested val wire .null bs))

theorem field_map_eq (nested : Nested) (key val : Field) :
    field reg nested (.map slot key val) wire current bs =
      if wire ≠ bytes.code then .failed (badWireType slot wire .bytes) current
      else reading current (ofReader readRun)
        (fun run => ofResult current (mapEntry reg nested key val current run)) bs := by
  rw [field]

/-! ## Oneofs -/

section

open Value

theorem ofDoubleBits_natCast (h : n < 18446744073709551616) :
    ofDoubleBits n = .ok (.float ⟨UInt64.ofNat n⟩) := by
  have hlt : (n : Int) < 18446744073709551616 := by omega
  unfold ofDoubleBits
  rw [decide_eq_true (Int.natCast_nonneg n), decide_eq_true hlt, Int.toNat_natCast]
  rfl

theorem ofSingleBits_natCast (h : n < 4294967296) :
    ofSingleBits n = .ok (.float (Double.ofSingle n)) := by
  have hlt : (n : Int) < 4294967296 := by omega
  unfold ofSingleBits
  rw [decide_eq_true (Int.natCast_nonneg n), decide_eq_true hlt, Int.toNat_natCast]
  rfl

theorem ofReader_lift {α : Type} (f : α → β) (r : Reader α) (bs : Bytes) :
    ofReader (do let a ← r; pure (f a)) bs = mapParse f (ofReader r) bs := by
  unfold mapParse ofReader
  rw [Reader.bind_apply]
  cases r bs <;> rfl

theorem asInt_bind (n : Int) (f : Int → Result β) : ((int n).asInt >>= f) = f n := rfl

theorem convert_double (construct : Value → Result Value) (n : Int) :
    convert construct (.int n) .double = ofDoubleBits n := asInt_bind n ofDoubleBits

theorem convert_single (construct : Value → Result Value) (n : Int) :
    convert construct (.int n) .single = ofSingleBits n := asInt_bind n ofSingleBits

/-- The code for a member reads what a field of its kind would read, unless it has to know the type
of the member. -/
theorem readStep_eq_scalar {member : VariantMember} (hmessage : member.kind.isMessage = false)
    (henum : member.kind ≠ .enum) (reg : Registry) (nested : Nested) (type : Result Binding)
    (bs : Bytes) :
    readStep reg nested type bs (OneofCase.ofKind member.kind).read = scalar reg member.slot bs := by
  unfold scalar VariantMember.slot
  cases hkind : member.kind with
  | message | group => rw [hkind] at hmessage; cases hmessage
  | enum => exact absurd hkind henum
  | double =>
    simp only [OneofCase.ofKind, readStep, readSource, mapParse, ofReader_lift]
    cases hread : ofReader readFixed64 bs with
    | error fault => rfl
    | ok p =>
      have hbits := ofDoubleBits_natCast (readFixed64_lt (ofReader_eq_ok.mp hread))
      rw [ok_bind, ok_bind, pure_eq_ok, ok_bind, pure_eq_ok, ok_bind, convert_double, hbits]
      rfl
  | float =>
    simp only [OneofCase.ofKind, readStep, readSource, mapParse, ofReader_lift]
    cases hread : ofReader readFixed32 bs with
    | error fault => rfl
    | ok p =>
      have hbits := ofSingleBits_natCast (readFixed32_lt (ofReader_eq_ok.mp hread))
      rw [ok_bind, ok_bind, pure_eq_ok, ok_bind, pure_eq_ok, ok_bind, convert_single, hbits]
      rfl
  | bool =>
    simp only [OneofCase.ofKind, readStep, readSource, mapParse, ofReader_lift]
    cases ofReader read bs with
    | error fault => rfl
    | ok p =>
      have hzero : ((p.1 : Int) != 0) = (p.1 != 0) := by rw [Bool.eq_iff_iff]; simp
      simp only [bind, Except.bind, pure, Except.pure, convert, asInt, hzero]
  | _ =>
    simp only [OneofCase.ofKind, readStep, readSource, mapParse]
    generalize ofReader _ bs = read
    cases read <;> rfl

end

theorem readStep_message {kind : Kind} (hmessage : kind.isMessage = true) (reg : Registry) (nested : Nested)
    (type : Result Binding) (bs : Bytes) : readStep reg nested type bs (OneofCase.ofKind kind).read =
      type >>= fun b => reg.instantiate b >>= fun v =>
        outcomeParse (embedded nested (kind = .group) v bs) := by
  cases kind with
  | message | group => rfl
  | _ => cases hmessage

/-- Whether the readers for groups are local. -/
def Nested.LocalIf (tagged : Prop) (nested : Nested) : Prop :=
  ∀ m, LocalOutcome tagged startGroup.code (nested.group m)

abbrev Nested.Local : Nested → Prop := Nested.LocalIf False

section Nested

variable {nested : Nested} (hn : nested.LocalIf tagged)

include hn

theorem local_embedded (v : Value) (isGroup : Bool) :
    LocalOutcome tagged (if isGroup then startGroup.code else bytes.code) (embedded nested isGroup v) := by
  cases isGroup with
  | true =>
    cases v with
    | message m => exact (hn m).map Value.message
    | _ => exact fun bs w rest h => by cases h
  | false => exact local_reading (local_ofReader takes_readRun) v (into nested.message v)

theorem local_single (hslot : tagged → slot.Tagged) :
    LocalOutcome tagged slot.tag.wireType.code (single reg nested slot current) := by
  cases hkind : slot.kind with
  | other name =>
    intro bs v rest h
    simp [single, hkind, SlotKind.isMessage, scalar] at h
  | known kind =>
    suffices h : LocalOutcome tagged kind.encoding.wireType.code (single reg nested slot current) from
      h.wire_eq fun ht => by rw [hslot ht kind hkind]
    unfold single
    cases hmessage : slot.kind.isMessage with
    | true =>
      have hembedded (v : Value) : LocalOutcome tagged kind.encoding.wireType.code
          (embedded nested (slot.kind = .known .group) v) := by
        refine (local_embedded hn v _).wire_eq fun _ => ?_
        rw [hkind] at hmessage ⊢
        cases kind with
        | message | group => rfl
        | _ => cases hmessage
      simp only [if_true]
      split
      · exact fun bs v rest h => by cases h
      split
      · split
        · exact fun bs v rest h => by cases h
        · rename_i new _
          refine (local_reading (hembedded new).parse current (.done · [])).congr fun bs => ?_
          simp only [reading]
          cases embedded nested _ new bs <;> rfl
      · exact hembedded current
    | false =>
      refine (local_reading (local_scalar reg hkind) current (.done · [])).congr fun bs => ?_
      unfold reading
      cases scalar reg slot bs <;> rfl

theorem local_repeated (hslot : tagged → slot.Tagged) :
    LocalOutcome tagged wire (repeated reg nested slot wire current) := by
  by_cases hrun : (wire = bytes.code && slot.kind.isPackable) = true
  · refine ((local_reading (local_ofReader takes_readRun) current _).congr fun bs => if_pos hrun).wire_eq
      fun _ => ?_
    rw [Bool.and_eq_true, decide_eq_true_eq] at hrun
    exact hrun.1.symm
  · cases hfault : appendFault? current with
    | some fault =>
      intro bs v rest h
      rw [repeated, if_neg hrun, hfault] at h
      split at h <;> cases h
    | none =>
      have hone : LocalOutcome tagged _ (single reg nested slot .null) := local_single hn hslot
      exact (local_reading hone.parse current (fun v => added current [v] none)).guarded fun bs => by
        rw [repeated, if_neg hrun, hfault]

/-- A field takes one value, or one run, whatever follows it. -/
theorem local_field (hf : tagged → f.Tagged) :
    LocalOutcome tagged wire (field reg nested f wire current) := by
  cases f with
  | map slot key val =>
    exact (local_reading (local_ofReader takes_readRun) current _).guarded fun _ => field_map_eq ..
  | plain slot =>
    by_cases hmap : slot.kind.isMap = true
    · intro bs v rest h
      rw [field, if_pos hmap] at h
      split at h <;> cases h
    by_cases hrepeated : slot.tag.repeated = true
    · exact (local_repeated hn hf).congr fun bs => by rw [field, if_neg hmap, if_pos hrepeated]
    exact (local_single hn hf).guarded fun bs => by rw [field, if_neg hmap, if_neg hrepeated]

omit hn in
theorem field_length_le (hn : nested.Local) (h : field reg nested f wire current bs = .done v rest) :
    rest.length ≤ bs.length :=
  (local_field hn False.elim).length_le h

theorem local_readStep {type : Result Binding} :
    LocalParse tagged member.kind.encoding.wireType.code fun bs =>
      readStep reg nested type bs (OneofCase.ofKind member.kind).read := by
  by_cases henum : member.kind = .enum
  · rw [henum]
    cases type with
    | error fault => exact fun bs v rest h => by cases h
    | ok binding => exact (local_mapParse _ takes_read.lift).bind fun v => convert (reg.apply binding) v .enum
  cases hmessage : member.kind.isMessage with
  | true =>
    have hembedded (isGroup : Bool) : LocalParse tagged (if isGroup then startGroup.code else bytes.code)
        fun bs => type >>= fun binding => reg.instantiate binding >>= fun v =>
          outcomeParse (embedded nested isGroup v bs) := by
      cases type with
      | error fault => exact fun bs v rest h => by cases h
      | ok binding =>
        simp only [ok_bind]
        cases reg.instantiate binding with
        | error fault => exact fun bs v rest h => by cases h
        | ok v => exact (local_embedded hn v isGroup).parse
    cases hkind : member.kind with
    | message => exact hembedded false
    | group => exact hembedded true
    | _ => rw [hkind] at hmessage; cases hmessage
  | false =>
    have hslot : member.slot.kind = .known member.kind := rfl
    simp only [readStep_eq_scalar hmessage henum]
    exact local_scalar reg hslot

/-! ## Records -/

theorem local_mergeField (hf : tagged → f.Tagged) : LocalOutcome tagged wire (mergeField reg nested m f wire) := by
  unfold mergeField
  split
  · exact fun bs m' rest h => by cases h
  · exact (local_field hn hf).map _

omit hn in
theorem mergeMember_eq {group : OneofSlot} : mergeMember reg nested m group member wire bs =
      if wire ≠ member.kind.encoding.wireType.code then
        .failed (.malformed (.badWireType member.number wire member.kind.encoding.wireType.code)) m
      else
        reading m (fun bs => readStep reg nested member.type bs (OneofCase.ofKind member.kind).read)
          (fun v => ofResult m (wrap reg member v >>= fun w => pure (m.store group.attr w))) bs := by
  unfold mergeMember oneofCase
  simp only [reading, OneofCase.ofKind_wireType]
  by_cases hwire : wire ≠ member.kind.encoding.wireType.code
  · rw [if_pos hwire, if_pos hwire]
    rfl
  rw [if_neg hwire, if_neg hwire]
  cases readStep reg nested member.type bs (OneofCase.ofKind member.kind).read with
  | error fault => rfl
  | ok r =>
    simp only [ok_bind]
    cases wrap reg member r.1 <;> rfl

theorem local_mergeMember {group : OneofSlot} :
    LocalOutcome tagged wire (mergeMember reg nested m group member wire) :=
  (local_reading (local_readStep hn) m _).guarded fun _ => mergeMember_eq ..

omit hn in
theorem mem_of_fieldNumbered? {number : Int} {table : List Field} (h : fieldNumbered? number table = some f) :
    f ∈ table ∧ f.number = number := by
  have hmem := mem_of_find?_eq_some h
  have hnumber := find?_some h
  exact ⟨mem_reverse.mp hmem, by simpa using hnumber⟩

/-- Whether the tags of the fields of a layout fit their kinds. -/
def Layout.Tagged (l : Layout) : Prop := ∀ f ∈ l.table, f.Tagged

/-- A record is merged as it is, whatever follows it. The key stands in front of the data. -/
theorem local_mergeRecord {key : Bytes} (hl : tagged → l.Tagged) :
    LocalOutcome tagged wire fun bs => mergeRecord reg nested l m number wire (key ++ bs) bs := by
  unfold mergeRecord
  split
  · rename_i hfound
    exact local_mergeField hn fun ht => hl ht _ (mem_of_fieldNumbered? hfound).1
  split
  · exact local_mergeMember hn
  · intro bs m' rest h
    have htake (used more : Bytes) :
        (key ++ (used ++ more)).take ((key ++ (used ++ more)).length - more.length) =
          key ++ used := by
      rw [← append_assoc, length_append, Nat.add_sub_cancel]
      exact take_left' rfl
    simp only at h ⊢
    split at h
    · cases h
    · rename_i hskip
      obtain ⟨used, hbs, hused⟩ := (local_skipValue _).front hskip
      subst hbs
      rw [htake] at h
      split at h
      · rename_i hkeep
        cases h
        refine ⟨⟨used, rfl, fun more => by simp only [hused.exact, htake, hkeep], fun part hpart hne => ?_⟩,
          fun _ => hskip⟩
        obtain ⟨e, rest, hbad⟩ := hused.strict part hpart hne
        exact ⟨e, m, by simp only [hbad]⟩
      · cases h

omit hn in
theorem mergeRecord_length_le (hn : nested.Local) {start : Bytes} (hkey : read start = .ok tag bs)
    (h : mergeRecord reg nested l m number wire start bs = .done m' rest) :
    rest.length ≤ bs.length := by
  obtain ⟨key, rfl, _⟩ := local_read _ _ _ hkey
  exact (local_mergeRecord hn False.elim).length_le h

variable (reg nested) in
/-- Merges the record at the front of some data, which is not the end of a group. -/
def nextRecord (l : Layout) (m : Message) (bs : Bytes) : Outcome Message :=
  match read bs with
  | .error e _ => .failed (.malformed e) m
  | .ok tag rest =>
    if tag / 8 = 0 then .failed (.malformed (.illegalTag (tag / 8))) m
    else mergeRecord reg nested l m (tag / 8) (tag % 8) bs rest

omit hn in
theorem step_of_read {next : Message → Bytes → Outcome Message} {inGroup : Bool}
    (h : read bs = .ok tag rest) : step reg nested next inGroup l m bs =
      if tag % 8 = WireType.endGroup.code then
        if inGroup then .done m rest else .failed (.malformed .unexpectedEndGroup) m
      else
        match nextRecord reg nested l m bs with
        | .done m rest => next m rest
        | .failed fault m => .failed fault m := by
  simp only [step, nextRecord, h]
  split
  · rfl
  · split <;> rfl

/-- A record is found again by its key, and is merged as it is, whatever follows it; a part of it is
malformed. -/
theorem local_nextRecord (hl : tagged → l.Tagged) (h : nextRecord reg nested l m bs = .done m' rest) :
    ∃ tag key value, bs = key ++ value ++ rest ∧ (∀ more, read (key ++ more) = .ok tag more) ∧
      (tagged → Skipped (tag % 8) (value ++ rest) rest) ∧
      ReadsFront (nextRecord reg nested l m) (.done m') RejectsInto (key ++ value) := by
  unfold nextRecord at h
  split at h
  · cases h
  rename_i tag behind hkey
  split at h
  · cases h
  · rename_i hpos
    obtain ⟨key, rfl, hkey'⟩ := local_read.front hkey
    obtain ⟨⟨value, rfl, hvalue⟩, hskipped⟩ := local_mergeRecord hn hl h
    have hnext (bs : Bytes) : nextRecord reg nested l m (key ++ bs) =
        mergeRecord reg nested l m (tag / 8) (tag % 8) (key ++ bs) bs := by
      simp only [nextRecord, hkey'.exact, if_neg hpos]
    refine ⟨tag, key, value, by rw [append_assoc], hkey'.exact, hskipped, fun more => ?_,
      fun part hpart hne => ?_⟩
    · rw [append_assoc, hnext]
      exact hvalue.exact more
    -- The cut falls into the key, or into the value.
    · rcases cut_append hpart hne with ⟨hpart, hne⟩ | ⟨front, rfl, hpart, hne⟩
      · obtain ⟨e, rest, hbad⟩ := hkey'.strict part hpart hne
        exact ⟨e, m, by simp only [nextRecord, hbad]⟩
      · rw [hnext]
        exact hvalue.strict front hpart hne

end Nested

theorem skipped_group {rest' : Bytes} (hkey : read bs = .ok tag value)
    (hend : tag % 8 ≠ endGroup.code) (hvalue : Skipped (tag % 8) value rest)
    (hrest : Skipped startGroup.code rest rest') : Skipped startGroup.code bs rest' := by
  have hshort := length_lt_of_read hkey
  have hle := (local_skipValue _).length_le hvalue
  obtain ⟨fuel, hfuel⟩ : ∃ fuel, bs.length = fuel + 1 := ⟨bs.length - 1, by omega⟩
  have hgroup (bs : Bytes) : skipValue startGroup.code bs = skipGroup bs.length bs := rfl
  unfold Skipped at hvalue hrest ⊢
  rw [hgroup] at hrest ⊢
  have hvalue' : skipValueWith (skipGroup fuel) ((tag % 8 : Nat) : Int) value = .ok () rest := by
    rw [← hvalue, skipValue]
    rcases skipValueWith_cases (tag % 8 : Nat) with hgroup | ⟨skip, _, heq⟩
    · rw [hgroup, hgroup]
      exact skipGroup_fuel fuel _ _ (by omega) (Nat.le_refl _)
    · rw [heq, heq]
  rw [hfuel, skipGroup_succ, hkey]
  simp only [if_neg hend, hvalue']
  rw [← hrest]
  exact skipGroup_fuel fuel _ _ (by omega) (Nat.le_refl _)

theorem skipped_groupEnd (hkey : read bs = .ok tag rest) (hend : tag % 8 = endGroup.code) :
    Skipped startGroup.code bs rest := by
  have hshort := length_lt_of_read hkey
  obtain ⟨fuel, hfuel⟩ : ∃ fuel, bs.length = fuel + 1 := ⟨bs.length - 1, by omega⟩
  show skipGroup bs.length bs = _
  rw [hfuel, skipGroup_succ, hkey]
  exact if_pos hend

end Decode

/-! ## Groups -/

open Decode

/-- Whether every message is read by fields whose tags fit their kinds. -/
def Registry.ReadsTagged (reg : Registry) : Prop := ∀ m l, Decode.layout reg m = .ok l → l.Tagged

/-- The readers for messages that records are merged with when fuel is left. -/
def Decode.boundedReaders (reg : Registry) (fuel : Nat) : Nested where
  message := fun m bs =>
    if ((reg.messageType? m.type).map (·.isMessageSet)).getD false then mergeSet m bs
    else mergeFrom reg fuel false m bs
  group := mergeFrom reg fuel true

theorem mergeRecords_nil (inGroup : Bool) : mergeRecords reg fuel inGroup l m [] =
      if inGroup then .failed (.malformed .endInGroup) m else .done m [] := by
  cases fuel <;> rfl

theorem mergeRecords_cons (inGroup : Bool) (b : UInt8) (bs : Bytes) :
    mergeRecords reg (fuel + 1) inGroup l m (b :: bs) = step reg (boundedReaders reg fuel)
      (mergeRecords reg fuel inGroup l) inGroup l m (b :: bs) := rfl

theorem mergeRecords_of_read {inGroup : Bool} (h : read bs = .ok tag rest) :
    mergeRecords reg (fuel + 1) inGroup l m bs =
      step reg (boundedReaders reg fuel) (mergeRecords reg fuel inGroup l) inGroup l m bs := by
  cases bs with
  | nil => cases h
  | cons b bs => rfl

theorem mergeRecords_of_refused (h : Reader.Refuses (read bs)) :
    RejectsInto (mergeRecords reg (fuel + 1) true l m bs) := by
  obtain ⟨e, rest, h⟩ := h
  cases bs with
  | nil => exact ⟨_, _, mergeRecords_nil _⟩
  | cons b bs => exact ⟨e, m, by rw [mergeRecords_cons, step, h]⟩

theorem Decode.reads_of_mergeRecords (hreads : tagged → reg.ReadsTagged)
    (h : ∀ l m, (tagged → l.Tagged) → LocalOutcome tagged startGroup.code (mergeRecords reg fuel true l m)) :
    (boundedReaders reg fuel).LocalIf tagged := by
  intro m
  show LocalOutcome tagged _ (mergeFrom reg fuel true m)
  unfold mergeFrom
  cases hlayout : layout reg m with
  | error fault => exact fun bs m' rest h => by cases h
  | ok l => exact h l m fun ht => hreads ht m l hlayout

/-- The records of a group end with it. The induction is on the fuel. -/
theorem Decode.local_mergeRecords (hreads : tagged → reg.ReadsTagged) (fuel : Nat) : ∀ l m, (tagged → l.Tagged) →
    LocalOutcome tagged startGroup.code (mergeRecords reg fuel true l m) := by
  induction fuel with
  | zero =>
    intro l m _ bs m' rest h
    cases bs <;> cases h
  | succ fuel ih =>
    intro l m hl bs m' rest h
    cases hkey : read bs with
    | error e _ =>
      have hbad : RejectsInto (mergeRecords reg (fuel + 1) true l m bs) :=
        mergeRecords_of_refused ⟨e, _, hkey⟩
      obtain ⟨_, _, hbad⟩ := hbad
      rw [hbad] at h
      cases h
    | ok tag behind =>
      rw [mergeRecords_of_read hkey, step_of_read hkey] at h
      split at h
      · rename_i hend
        cases h
        obtain ⟨key, hbs, hkey'⟩ := local_read.front hkey
        refine ⟨⟨key, hbs, fun more => ?_, fun part hpart hne => ?_⟩, fun _ => skipped_groupEnd hkey hend⟩
        · have hread := hkey'.exact more
          rw [mergeRecords_of_read hread, step_of_read hread, if_pos hend, if_pos rfl]
        · exact mergeRecords_of_refused (hkey'.strict part hpart hne)
      · rename_i hend
        split at h
        · rename_i m₁ behind' hnext
          obtain ⟨tag', key, value, rfl, hkey', hvalue, hnext'⟩ :=
            local_nextRecord (reads_of_mergeRecords hreads ih) hl hnext
          have hskipped (ht : tagged) (hrest : Skipped startGroup.code behind' rest) :=
            skipped_group hkey hend (by rw [append_assoc, hkey'] at hkey; cases hkey; exact hvalue ht) hrest
          rw [append_assoc, hkey'] at hkey
          cases hkey
          obtain ⟨⟨used, rfl, hused⟩, hrest⟩ := ih _ _ hl h
          -- The first record is merged from its own bytes, and the others from what follows them.
          have hstep (bs : Bytes) : mergeRecords reg (fuel + 1) true l m (key ++ value ++ bs) =
              mergeRecords reg fuel true l m₁ bs := by
            have hread := hkey' (value ++ bs)
            rw [← append_assoc] at hread
            rw [mergeRecords_of_read hread, step_of_read hread, if_neg hend, hnext'.exact]
          refine ⟨⟨key ++ value ++ used, by simp only [append_assoc], fun more => ?_,
            fun part hpart hne => ?_⟩, fun ht => hskipped ht (hrest ht)⟩
          · rw [append_assoc, hstep]
            exact hused.exact more
          rcases cut_append hpart hne with ⟨hpart, hne⟩ | ⟨front, rfl, hpart, hne⟩
          · obtain ⟨e, s, hbad⟩ := hnext'.strict part hpart hne
            cases hread : read part with
            | error e rest => exact mergeRecords_of_refused ⟨e, rest, hread⟩
            | ok tag rest' =>
              obtain ⟨behind', hbehind⟩ := hpart
              have hsame := local_read.append hread behind'
              rw [hbehind, hkey'] at hsame
              cases hsame
              exact ⟨e, s, by rw [mergeRecords_of_read hread, step_of_read hread, if_neg hend, hbad]⟩
          · rw [hstep]
            exact hused.strict front hpart hne
        · cases h

theorem Decode.reads_boundedReaders (hreads : tagged → reg.ReadsTagged) (fuel : Nat) :
    (boundedReaders reg fuel).LocalIf tagged :=
  reads_of_mergeRecords hreads (local_mergeRecords hreads fuel)

theorem Decode.local_boundedReaders (reg : Registry) (fuel : Nat) : (boundedReaders reg fuel).Local :=
  reads_boundedReaders False.elim fuel

end Protobind

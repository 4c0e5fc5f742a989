import Protobind.Proofs.Contents
import Protobind.Proofs.Encoding

/-!
# Sizes agree with encodings

The size of a message is computed by a walk of its own. `Agrees` relates the two walks for any part
of a message; it is carried from values to fields, oneofs and extensions and, by induction on the
fuel, to messages of any depth. A message that can be encoded has a size unless a module has rebound
`len`, which the code for a text or a byte string in a oneof calls.
-/

namespace Protobind

open List Encode

variable {α : Type} {bs : Bytes} {codec : OneofCodec} {entries : List (Value × Value)}
  {f : α → Bytes} {group : OneofSlot} {held v : Value} {m : Message} {member : VariantMember}
  {reg : Registry} {t : MessageType} {x : Result α}

/-- How the size of something in a message relates to its encoding. -/
structure Agrees (measured kinded : Prop) (written : Result Bytes) (size : Result Nat) : Prop where
  /-- What is written has the size; what cannot be measured may have none. -/
  ok : ∀ bs, written = .ok bs → size = .ok bs.length ∨ ¬measured ∧ size = .error .wrongType
  /-- What cannot be written has no size for the same reason. -/
  error : ∀ fault, written = .error fault → measured → kinded →
    ∃ fault', size = .error fault' ∧ fault'.family = fault.family

namespace Agrees

variable {p q k l : Prop} {e e' : Result Bytes} {s s' : Result Nat}

theorem imp (h : Agrees p k e s) (hp : q → p) (hk : l → k) : Agrees q l e s where
  ok := fun bs he => (h.ok bs he).imp_right fun hs => ⟨mt hp hs.1, hs.2⟩
  error := fun fault he hq hl => h.error fault he (hp hq) (hk hl)

theorem of_length {n : Nat} (h : bs.length = n) : Agrees p k (.ok bs) (.ok n) where
  ok := by rintro _ ⟨⟩; exact .inl (h ▸ rfl)
  error := by rintro _ ⟨⟩

theorem of_ok (bs : Bytes) : Agrees p k (.ok bs) (.ok bs.length) := of_length rfl

theorem of_error {fault fault' : Fault} (h : fault'.family = fault.family) :
    Agrees p k (.error fault) (.error fault') where
  ok := by rintro _ ⟨⟩
  error := by rintro _ ⟨⟩ _ _; exact ⟨fault', rfl, h⟩

/-- A step that both computations have in common comes first. -/
theorem bind {f : α → Result Bytes} {g : α → Result Nat}
    (h : ∀ a, x = .ok a → Agrees p k (f a) (g a)) : Agrees p k (x >>= f) (x >>= g) := by
  cases x with
  | error fault => exact of_error rfl
  | ok a => exact h a rfl

/-- One part is written after the other, and measured in the same order. -/
theorem andThen {f : Bytes → Result Bytes} {g : Nat → Result Nat} (h : Agrees p k e s)
    (hnext : ∀ a, Agrees p k (f a) (g a.length)) : Agrees p k (e >>= f) (s >>= g) := by
  constructor
  · intro bs he
    obtain ⟨a, rfl, ha⟩ := bind_eq_ok.mp he
    rcases h.ok a rfl with hs | ⟨hp, hs⟩
    · rw [hs]
      exact (hnext a).ok bs ha
    · rw [hs]
      exact .inr ⟨hp, rfl⟩
  · intro fault he hp hk
    cases e with
    | ok a =>
      rw [(h.ok a rfl).resolve_right fun hs => hs.1 hp]
      exact (hnext a).error fault he hp hk
    | error _ =>
      cases he
      obtain ⟨fault', hs, hf⟩ := h.error fault rfl hp hk
      exact ⟨fault', by rw [hs]; rfl, hf⟩

theorem map {f : Bytes → Bytes} {g : Nat → Nat} (h : Agrees p k e s)
    (hlen : ∀ bs, (f bs).length = g bs.length) :
    Agrees p k (e >>= fun bs => pure (f bs)) (s >>= fun n => pure (g n)) :=
  h.andThen fun a => .of_length (hlen a)

theorem each {write : α → Result Bytes} {size : α → Result Nat} : ∀ as : List α,
    (∀ a ∈ as, Agrees p k (write a) (size a)) → Agrees p k (each write as) (Size.each size as)
  | [], _ => .of_ok []
  | a :: as, h => by
    have htail := each as fun b hb => h b (mem_cons_of_mem a hb)
    exact (h a mem_cons_self).andThen fun head => htail.map fun tail => length_append

/-- A step that only the writer makes. It succeeds for a value of the right kind, and what is written
has a fixed size. -/
theorem fixed {n : Nat} (hx : k → ∃ a, x = .ok a) (hlen : ∀ a, (f a).length = n) :
    Agrees p k (x >>= fun a => pure (f a)) (.ok n) := by
  cases x with
  | ok a => exact .of_length (hlen a)
  | error fault =>
    refine ⟨by rintro _ ⟨⟩, fun _ _ _ hk => ?_⟩
    obtain ⟨a, ha⟩ := hx hk
    cases ha

/-- A step that both make, and what is written has the size that is computed from it. -/
theorem step {g : α → Nat} (hlen : ∀ a, (f a).length = g a) :
    Agrees p k (x >>= fun a => pure (f a)) (x >>= fun a => pure (g a)) :=
  bind fun a _ => .of_length (hlen a)

end Agrees

/-! ## Values -/

/-- Whether a value is one of a kind: a number that the kind can hold, a text, a byte string, or a
message that may be missing. -/
def Value.OfKind (v : Value) : Kind → Prop
  | .double => ∃ bits, v.doubleBits = .ok bits
  | .float => ∃ bits, v.singleBits = .ok bits
  | .bool => ∃ b, v = .bool b
  | .string => ∃ s, v = .text s
  | .bytes => ∃ bs, v = .bytes bs
  | .message | .group => v = .null ∨ ∃ m, v = .message m
  | _ => ∃ n, v.asInt = .ok n

theorem length_writeRun (data : Bytes) : (writeRun data).length = Size.run data.length := by
  rw [writeRun, length_append, Varint.length_write, Size.run]

theorem length_writeKey (number : Int) (wire : WireType) :
    (writeKey number wire).length = Size.key number wire := Varint.length_write _

theorem length_writeFixed64 (n : Int) : (writeFixed64 n).length = 8 := Bytes.length_ofNatLE _ _

theorem length_writeFixed32 (n : Int) : (writeFixed32 n).length = 4 := Bytes.length_ofNatLE _ _

variable {p k : Prop} {write : Writer} {size : Message → Result Nat}

theorem agrees_run (hv : k → v.OfKind .bytes) :
    Agrees p k (v.asBytes >>= fun bs => pure (writeRun bs))
      (v.length >>= fun n => pure (Size.run n)) := by
  cases v with
  | bytes bs => exact .of_length (length_writeRun bs)
  | text _ | list _ | map _ => exact ⟨by rintro _ ⟨⟩, fun _ _ _ hk => by cases (hv hk).choose_spec⟩
  | _ => exact .of_error rfl

theorem agrees_body (h : ∀ m, v = .message m → Agrees p k (write m) (size m)) :
    Agrees p k (body write v) (Size.body size v) := by
  cases v with
  | message m => exact h m rfl
  | _ => exact .of_error rfl

theorem agrees_value {kind : SlotKind} (hv : k → ∀ known, kind = .known known → v.OfKind known)
    (h : kind.isMessage → ∀ m, v = .message m → Agrees p k (write m) (size m)) :
    Agrees p k (value write kind v) (Size.value size kind v) := by
  cases kind with
  | other name => exact .of_error rfl
  | known kind =>
    have hv hk := hv hk kind rfl
    cases kind with
    | double => exact .fixed hv fun _ => length_writeFixed64 _
    | float => exact .fixed hv fun _ => length_writeFixed32 _
    | int64 | uint64 | int32 | uint32 | enum => exact .step fun _ => Varint.length_write _
    | fixed64 | sfixed64 => exact .fixed hv fun _ => length_writeFixed64 _
    | fixed32 | sfixed32 => exact .fixed hv fun _ => length_writeFixed32 _
    | bool => exact .of_length (by cases v.truthy <;> rfl)
    | string => exact .step fun _ => length_writeRun _
    | bytes => exact agrees_run hv
    | message => exact (agrees_body (h rfl)).map length_writeRun
    | sint32 => exact .step fun _ => Varint.length_write _
    | sint64 => exact .step fun _ => Varint.length_write _
    | group => exact .of_error rfl

theorem agrees_single (slot : Slot) (hv : k → ∀ known, slot.kind = .known known → v.OfKind known)
    (h : slot.kind.isMessage → ∀ m, v = .message m → Agrees p k (write m) (size m)) :
    Agrees p k (single write slot v) (Size.single size slot v) := by
  unfold single Size.single
  by_cases hgroup : slot.kind = .known .group
  · simp only [if_pos hgroup]
    have hmessage : slot.kind.isMessage = true := by rw [hgroup]; rfl
    exact (agrees_body (h hmessage)).map
      (f := fun bs => writeKey slot.tag.number .startGroup ++ bs ++ writeKey slot.tag.number .endGroup)
      (g := fun n => Size.key slot.tag.number .startGroup + n + Size.key slot.tag.number .endGroup)
      (fun bs => by simp only [length_append, length_writeKey])
  · simp only [if_neg hgroup]
    exact (agrees_value hv h).map
      (f := fun bs => writeKey slot.tag.number slot.tag.wireType ++ bs)
      (g := fun n => Size.key slot.tag.number slot.tag.wireType + n)
      (fun bs => by simp only [length_append, length_writeKey])

/-! ## Fields -/

/-- Whether the value of a field, if it is set, is of the kind of the field. -/
def Field.Kinded : Field → Value → Prop
  | .plain slot, v =>
    ∀ kind, slot.kind = .known kind →
      if slot.tag.repeated then ∀ items, v.items = .ok items → ∀ item ∈ items, item.OfKind kind
      else v = .null ∨ v.OfKind kind
  | .map _ key val, v =>
    ∀ entries, v.entries = .ok entries → ∀ e ∈ entries, key.Kinded e.1 ∧ val.Kinded e.2

theorem agrees_plain {slot : Slot} (always : Bool) (hv : k → (Field.plain slot).Kinded v)
    (h : ∀ m, (Field.plain slot).Holds v m → Agrees p k (write m) (size m)) :
    Agrees p k (field write (.plain slot) always v) (Size.field size (.plain slot) always v) := by
  unfold Field.Holds at h
  unfold Field.Kinded at hv
  unfold field Size.field
  split
  · exact .of_error rfl
  split
  · rename_i hrep
    simp only [if_pos hrep] at h hv
    have hkinds {items : List Value} (hitems : v.items = .ok items) (item : Value) (hi : item ∈ items)
        (hk : k) (kind : Kind) (hkind : slot.kind = .known kind) : item.OfKind kind :=
      hv hk kind hkind items hitems item hi
    have hinside {items : List Value} (hitems : v.items = .ok items) (item : Value) (hi : item ∈ items)
        (hmessage : slot.kind.isMessage) (m : Message) (hm : item = .message m) :
        Agrees p k (write m) (size m) :=
      h m ⟨hmessage, items, hitems, hm ▸ hi⟩
    split
    · exact .of_ok []
    split
    · refine .bind fun items hitems => ?_
      have hall := Agrees.each items fun item hi =>
        agrees_value (hkinds hitems item hi) (hinside hitems item hi)
      exact hall.map (f := fun bs => writeKey slot.tag.number .bytes ++ writeRun bs)
        (g := fun n => Size.key slot.tag.number .bytes + Size.run n)
        (fun bs => by simp only [length_append, length_writeKey, length_writeRun])
    · exact .bind fun items hitems => .each items fun item hi =>
        agrees_single slot (hkinds hitems item hi) (hinside hitems item hi)
  · rename_i hrep
    simp only [if_neg hrep] at h hv
    split
    · split
      · exact .of_error rfl
      · exact .of_ok []
    split
    · exact .of_ok []
    · rename_i hnull _
      have hne : v ≠ .null := by rintro rfl; exact hnull rfl
      exact agrees_single slot (fun hk kind hkind => (hv hk kind hkind).resolve_left hne)
        fun hmessage m hm => h m ⟨hmessage, hm⟩

theorem agrees_field : ∀ (f : Field) (always : Bool) (v : Value), (k → f.Kinded v) →
    (∀ m, f.Holds v m → Agrees p k (write m) (size m)) →
      Agrees p k (field write f always v) (Size.field size f always v)
  | .plain slot, always, v, hv, h => agrees_plain always hv h
  | .map slot key val, always, v, hv, h => by
    unfold field Size.field
    refine .bind fun entries hentries => .each entries fun e he => ?_
    have hkey := agrees_field key true e.1 (fun hk => (hv hk entries hentries e he).1) fun m hm =>
      h m ⟨entries, e.1, e.2, hentries, he, .inl hm⟩
    have hval := agrees_field val true e.2 (fun hk => (hv hk entries hentries e he).2) fun m hm =>
      h m ⟨entries, e.1, e.2, hentries, he, .inr hm⟩
    refine hkey.andThen
      (f := fun a => field write val true e.2 >>= fun b =>
        pure (writeKey slot.tag.number .bytes ++ writeRun (a ++ b)))
      (g := fun m => Size.field size val true e.2 >>= fun n =>
        pure (Size.key slot.tag.number .bytes + Size.run (m + n)))
      (fun a => hval.map fun b => ?_)
    simp only [length_append, length_writeKey, length_writeRun]

/-! ## Extensions -/

namespace ExtensionStore

/-- The keys that a value in the place of extensions is written by, and what stands under them. -/
theorem keys_of_written (htruthy : v.truthy = true) (h : (other v).written = .ok bs) :
    ∃ items keys records, v.items = .ok items ∧ keys.Perm items ∧
      Forall₂ (fun key raw => v.part key = .ok (.bytes raw)) keys records ∧
      bs = records.flatten := by
  simp only [written, htruthy, Bool.not_true, Bool.false_eq_true, if_false] at h
  obtain ⟨items, hitems, h⟩ := bind_eq_ok.mp h
  obtain ⟨keys, hkeys, h⟩ := bind_eq_ok.mp h
  obtain ⟨records, hrecords, h⟩ := bind_eq_ok.mp h
  cases h
  refine ⟨items, keys, records, hitems, Value.perm_sorted hkeys, ?_, rfl⟩
  refine (mapM_eq_ok hrecords).imp fun key raw hraw => ?_
  obtain ⟨part, hpart, hbytes⟩ := bind_eq_ok.mp hraw
  cases part with
  | bytes raw' => cases hbytes; exact hpart
  | _ => cases hbytes

/-- Only a dictionary is written as extensions. The elements of a row would have to be numbers, to be
positions, and byte strings as well. -/
theorem map_of_written (htruthy : v.truthy = true) (h : (other v).written = .ok bs) :
    ∃ entries, v = .map entries := by
  obtain ⟨items, keys, records, hitems, hperm, hparts, _⟩ := keys_of_written htruthy h
  have hne : items ≠ [] := by
    rintro rfl
    rw [Value.truthy_of_items hitems] at htruthy
    cases htruthy
  have hrow (hpart : ∀ key, v.part key =
      Value.position items.length key >>= fun i => pure (items.getD i .null)) : False := by
    have hall : ∀ key ∈ items, ∃ raw i, Value.position items.length key = .ok i ∧
        items.getD i .null = .bytes raw := by
      intro key hkey
      obtain ⟨raw, _, hraw⟩ := exists_of_forall₂ hparts (hperm.mem_iff.mpr hkey)
      rw [hpart] at hraw
      obtain ⟨i, hi, hget⟩ := bind_eq_ok.mp hraw
      exact ⟨raw, i, hi, Except.ok.inj hget⟩
    obtain ⟨key, hkey⟩ := exists_mem_of_ne_nil items hne
    obtain ⟨raw, i, _, hraw⟩ := hall key hkey
    obtain ⟨_, j, hj, _⟩ := hall _ (Value.mem_of_getD hraw)
    obtain ⟨n, hn⟩ := Value.asInt_of_position hj
    cases hn
  cases v with
  | map entries => exact ⟨entries, rfl⟩
  | list _ | text _ | bytes _ => cases hitems; exact (hrow fun _ => rfl).elim
  | _ => cases hitems

theorem foldl_lengths (parts : List Bytes) (start : Nat) :
    (parts.map List.length).foldl (· + ·) start = start + parts.flatten.length := by
  induction parts generalizing start with
  | nil => rfl
  | cons part parts ih =>
    rw [map_cons, foldl_cons, ih, flatten_cons, length_append]
    omega

/-- The byte string that a dictionary has under a key. -/
def rawUnder (entries : List (Value × Value)) (key : Value) : Bytes :=
  match Value.valueOf? key entries with
  | some (.bytes raw) => raw
  | _ => []

theorem rawUnder_of_part {key : Value} {raw : Bytes}
    (h : (Value.map entries).part key = .ok (.bytes raw)) : rawUnder entries key = raw := by
  rw [rawUnder, Value.valueOf?_of_part h]

/-- A dictionary of byte strings is as long as they are together. -/
theorem size_of_raw {raw : Value → Bytes} (h : ∀ e ∈ entries, e.2 = .bytes (raw e.1)) :
    (other (.map entries)).size =
      .ok (entries.map fun e => raw e.1).flatten.length := by
  have hlengths : entries.mapM (fun e => e.2.length) =
      .ok ((entries.map fun e => raw e.1).map List.length) := by
    induction entries with
    | nil => rfl
    | cons e rest ih =>
      rw [mapM_cons, ih fun e' he' => h e' (mem_cons_of_mem e he'), h e mem_cons_self]
      rfl
  cases entries with
  | nil => rfl
  | cons e rest =>
    show ((e :: rest).mapM (fun e => e.2.length) >>= fun lengths =>
      pure (lengths.foldl (· + ·) 0)) = _
    rw [hlengths]
    show Except.ok _ = _
    rw [foldl_lengths, Nat.zero_add]

/-- The records of a dictionary are as long together as the values that the dictionary has. -/
theorem size_of_written (hd : DistinctKeys entries) (htruthy : (Value.map entries).truthy = true)
    (h : (other (.map entries)).written = .ok bs) :
    (other (.map entries)).size = .ok bs.length := by
  obtain ⟨items, keys, records, hitems, hperm, hparts, rfl⟩ := keys_of_written htruthy h
  cases hitems
  -- Every value is a byte string, and it is the one that is found under its key.
  have hvalue : ∀ e ∈ entries, e.2 = .bytes (rawUnder entries e.1) := by
    intro e he
    obtain ⟨raw, _, hraw⟩ := exists_of_forall₂ hparts (hperm.mem_iff.mpr (mem_map_of_mem he))
    rw [rawUnder_of_part hraw]
    exact (Value.valueOf?_eq_of_mem hd he (Value.valueOf?_of_part hraw)).symm
  have hrecords : records = keys.map (rawUnder entries) := by
    clear hperm h
    induction hparts with
    | nil => rfl
    | cons hraw _ ih => rw [map_cons, ← ih, rawUnder_of_part hraw]
  rw [size_of_raw hvalue, hrecords, (hperm.map (rawUnder entries)).flatten.length_eq, map_map]
  rfl

end ExtensionStore

theorem agrees_store {store : ExtensionStore}
    (hd : ∀ entries, store = .other (.map entries) → DistinctKeys entries)
    (hstore : k → ∀ v, store = .other v → v.truthy = false) :
    Agrees p k store.written store.size := by
  cases store with
  | records extensions =>
    exact .of_length ((perm_sortByNumber extensions).flatMap_right _).length_eq
  | other v =>
    cases htruthy : v.truthy with
    | false =>
      simp only [ExtensionStore.written, ExtensionStore.size, htruthy, Bool.not_false, if_true]
      exact .of_ok []
    | true =>
      refine ⟨fun bs hw => .inl ?_, fun _ _ _ hk => ?_⟩
      · obtain ⟨entries, rfl⟩ := ExtensionStore.map_of_written htruthy hw
        exact ExtensionStore.size_of_written (hd entries rfl) htruthy hw
      · exact absurd (htruthy.symm.trans (hstore hk v rfl)) Bool.noConfusion

theorem agrees_unknown (hm : k → ∀ v, m.get? unknownAttr = some v → v.truthy = false) :
    Agrees p k m.writtenUnknown m.unknownSize := by
  unfold Record.writtenUnknown Record.unknownSize
  cases hv : m.get? unknownAttr with
  | none => exact .of_ok _
  | some v =>
    cases htruthy : v.truthy with
    | false =>
      simp only [htruthy, Bool.false_eq_true, if_false]
      exact .of_ok []
    | true =>
      simp only [htruthy, if_true]
      refine ⟨fun bs hw => .inl ?_, fun _ _ _ hk => ?_⟩
      · cases v with
        | bytes raw => cases hw; rfl
        | _ => cases hw
      · exact absurd (htruthy.symm.trans (hm hk v hv)) Bool.noConfusion

/-! ## Oneofs -/

/-- Whether the size of a member can be computed. The code that measures a text or a byte string
calls a function that its module may have rebound. -/
def OneofCodec.Measures (codec : OneofCodec) (member : VariantMember) : Prop :=
  member.kind = .string ∨ member.kind = .bytes → "len" ∉ codec.rebound

theorem size_each_singleton (size : α → Result Nat) (a : α) : Size.each size [a] = size a := by
  cases h : size a <;> simp [Size.each, h, bind, Except.bind, pure, Except.pure]

/-- The code for a member measures what a field of its kind would measure, if it can measure
anything. -/
theorem size_oneofCase_eq_single (size : Message → Result Nat) (h : codec.Measures member)
    (held : Value) :
    Size.oneofCase size codec.rebound (.ofKind member.kind) member.number held =
      Size.single size member.slot held := by
  unfold Size.oneofCase Size.single VariantMember.slot
  unfold OneofCodec.Measures at h
  cases hkind : member.kind with
  | group =>
    simp only [OneofCase.ofKind, Size.each, Size.sizeStep, if_true]
    cases Size.body size held <;> simp [bind, Except.bind, pure, Except.pure]
    omega
  | string | bytes =>
    have hlen : codec.rebound.contains "len" = false := by simpa using h (by simp [hkind])
    simp only [OneofCase.ofKind, size_each_singleton, Size.sizeStep, hlen]
    rfl
  | _ =>
    simp only [OneofCase.ofKind, size_each_singleton]
    rfl

/-- A text or a byte string is not measured by the code of a module that has rebound the function
for it. -/
theorem size_oneofCase_of_not_measures (write : Writer)
    (size : Message → Result Nat) (h : ¬codec.Measures member)
    (hw : oneofCase write (.ofKind member.kind) member.number held = .ok bs) :
    Size.oneofCase size codec.rebound (.ofKind member.kind) member.number held =
      .error .wrongType := by
  unfold OneofCodec.Measures at h
  obtain ⟨hkind, hlen⟩ := Classical.not_imp.mp h
  have hcontains : codec.rebound.contains "len" = true := by simpa using hlen
  unfold oneofCase at hw
  unfold Size.oneofCase
  obtain ⟨steps, hsteps, _⟩ := bind_eq_ok.mp hw
  rcases hkind with hkind | hkind
  · simp only [hkind, OneofCase.ofKind, each_singleton, size_each_singleton, writeStep,
      Size.sizeStep] at hsteps ⊢
    obtain ⟨s, hs, _⟩ := bind_eq_ok.mp hsteps
    simp only [hs, bind, Except.bind, hcontains, if_true]
  · simp only [hkind, OneofCase.ofKind, size_each_singleton, Size.sizeStep, hcontains, if_true]
    rfl

theorem agrees_case (codec : OneofCodec) (hp : p → codec.Measures member)
    (hv : k → held.OfKind member.kind)
    (h : member.kind.isMessage → ∀ m, held = .message m → Agrees p k (write m) (size m)) :
    Agrees p k (oneofCase write (.ofKind member.kind) member.number held)
      (Size.oneofCase size codec.rebound (.ofKind member.kind) member.number held) := by
  by_cases hm : codec.Measures member
  · rw [oneofCase_eq_single, size_oneofCase_eq_single size hm]
    refine agrees_single member.slot (fun hk known hknown => ?_) h
    cases hknown
    exact hv hk
  · refine ⟨fun bs hw => .inr ⟨mt hp hm, ?_⟩, fun _ _ hp' => absurd (hp hp') hm⟩
    exact size_oneofCase_of_not_measures write size hm hw

theorem agrees_oneof (codec : OneofCodec)
    (h : ∀ member held, reg.Sets m group member held → (p → codec.Measures member) ∧
      (k → held.OfKind member.kind) ∧ (member.kind.isMessage → ∀ inner, held = .message inner →
        Agrees p k (write inner) (size inner))) :
    Agrees p k (oneof reg write codec m group) (Size.oneof reg size codec m group) := by
  refine .bind fun v hv => ?_
  show Agrees p k (oneofValue reg codec group write v) (Size.oneofValue reg codec group size v)
  unfold oneofValue Size.oneofValue Registry.heldMember
  split
  · exact .of_ok []
  · rename_i hnull
    split
    · exact .of_error rfl
    cases hfound : reg.findMember v group.members with
    | error fault => exact .of_error rfl
    | ok found =>
      cases found with
      | none =>
        simp only [ok_bind]
        split
        · exact .of_error rfl
        · exact .of_error rfl
      | some member =>
        simp only [ok_bind, bind_assoc]
        refine .bind fun held hheld => ?_
        obtain ⟨hmeasures, hkind, hinside⟩ := h member held
          ⟨v, Record.require_eq_ok.mp hv, by rintro rfl; exact hnull rfl, hfound, hheld⟩
        exact agrees_case codec hmeasures hkind hinside

/-! ## Messages -/

namespace Registry

variable (reg : Registry)

/-- Whether a message itself has no member set that cannot be measured. -/
def MeasuresMembers (m : Message) : Prop :=
  ∀ t codec group member held, reg.messageType? m.type = some t → t.isMessageSet = false →
    t.codecOf m = .ok (some codec) → group ∈ codec.groups → reg.Sets m group member held →
      codec.Measures member

/-- Whether a message itself holds values of the kinds of its fields and members, and byte strings in
its extensions and unknown records. -/
structure HoldsKinds (m : Message) : Prop where
  fields : ∀ t table f v, reg.messageType? m.type = some t → t.tableOf m = .ok table → f ∈ table →
    m.own? f.slot.attr = some v → f.Kinded v
  members : ∀ t codec group member held, reg.messageType? m.type = some t →
    t.codecOf m = .ok (some codec) → group ∈ codec.groups → reg.Sets m group member held →
      held.OfKind member.kind
  extensions : ∀ v, m.get? extensionsAttr = some v → v.truthy = false
  unknown : ∀ v, m.get? unknownAttr = some v → v.truthy = false

end Registry

/-- Whether a dictionary that a message has in the place of its extensions has every key once. -/
def Record.KeysOnce (m : Message) : Prop :=
  ∀ entries, m.get? extensionsAttr = some (.map entries) → DistinctKeys entries

theorem agrees_fields {table : List Field}
    (h : ∀ f ∈ table, ∀ v, m.own? f.slot.attr = some v → (k → f.Kinded v) ∧
      ∀ inner, f.Holds v inner → Agrees p k (write inner) (size inner)) :
    Agrees p k (fields write m table) (Size.fields size m table) := by
  refine Agrees.each table fun f hf => .bind fun v hv => ?_
  obtain ⟨hkind, hinside⟩ := h f hf v (Record.require_eq_ok.mp hv)
  exact agrees_field f false v hkind hinside

theorem size_message_eq_parts (ht : m.HasType reg t) (hset : t.isMessageSet = false) :
    Size.message reg size m =
      (t.tableOf m >>= fun table => Size.fields size m table >>= fun plain =>
        t.codecOf m >>= fun codec? => Size.members reg size m codec? >>= fun oneofs =>
          m.extensionsSize >>= fun extensions => m.unknownSize >>= fun unknown =>
            pure (plain + oneofs + extensions + unknown)) := by
  unfold Size.message
  simp only [ht, hset, Bool.false_eq_true, if_false]

theorem agrees_extensions (hkeys : m.KeysOnce)
    (hm : k → ∀ v, m.get? extensionsAttr = some v → v.truthy = false) :
    Agrees p k m.writtenExtensions m.extensionsSize := by
  unfold Record.writtenExtensions Record.extensionsSize
  cases hstore : m.extensionStore? with
  | none => exact .of_ok []
  | some store =>
    have hother : ∀ v, store = .other v → m.get? extensionsAttr = some v := by
      rintro v rfl
      unfold Record.extensionStore? at hstore
      cases hv : m.get? extensionsAttr with
      | none =>
        rw [hv] at hstore
        obtain ⟨_, _, hrecords⟩ := Option.map_eq_some_iff.mp hstore
        cases hrecords
      | some v' =>
        rw [hv] at hstore
        cases hstore
        rfl
    exact agrees_store (fun entries he => hkeys entries (hother _ he))
      fun hk v hv => hm hk v (hother v hv)

theorem agrees_messageSet (ht : m.HasType reg t) (hset : t.isMessageSet = true) :
    Agrees p k (message reg write m) (Size.message reg size m) := by
  unfold message Size.message
  simp only [ht, hset, if_true]
  cases m.extensionStore? with
  | none => exact .of_error rfl
  | some store =>
    simp only
    cases MessageSet.encodeStore store with
    | error fault => exact .of_error rfl
    | ok bs => exact .of_ok bs

/-- The size of a message agrees with what is written of it, if the same is true of the messages
inside. -/
theorem agrees_message (hkeys : m.KeysOnce) (hp : p → reg.MeasuresMembers m)
    (hk : k → reg.HoldsKinds m)
    (h : ∀ inner, reg.Writes m inner → Agrees p k (write inner) (size inner)) :
    Agrees p k (message reg write m) (Size.message reg size m) := by
  cases ht : reg.messageType? m.type with
  | none =>
    unfold message Size.message
    rw [ht]
    exact .of_error rfl
  | some t =>
    cases hset : t.isMessageSet with
    | true => exact agrees_messageSet ht hset
    | false =>
      rw [message_eq_parts ht hset, size_message_eq_parts ht hset]
      refine .bind fun table htable => (agrees_fields fun f hf v hv => ⟨fun hk' => ?_, ?_⟩).andThen
        fun plain => .bind fun codec? hcodec => Agrees.andThen ?_ fun oneofs =>
          (agrees_extensions hkeys fun hk' => (hk hk').extensions).andThen fun extensions =>
            (agrees_unknown fun hk' => (hk hk').unknown).map fun unknown => ?_
      · exact (hk hk').fields t table f v ht htable hf hv
      · exact fun inner hin => h inner ⟨t, ht, hset, .inl ⟨table, f, v, htable, hf, hv, hin⟩⟩
      · cases codec? with
        | none => exact .of_ok []
        | some codec =>
          refine Agrees.each codec.groups fun group hgroup => agrees_oneof codec
            fun member held hsets => ⟨fun hp' => ?_, fun hk' => ?_, fun hmessage inner hin => ?_⟩
          · exact hp hp' t codec group member held ht hset hcodec hgroup hsets
          · exact (hk hk').members t codec group member held ht hcodec hgroup hsets
          · exact h inner ⟨t, ht, hset, .inr ⟨codec, group, member, hcodec, hgroup, hmessage,
              hin ▸ hsets⟩⟩
      · simp only [length_append]

/-- With any fuel, the size of a message agrees with what is written of it. -/
theorem agrees_encodeMessage (fuel : Nat) : ∀ m, reg.Throughout Record.KeysOnce m →
      Agrees (reg.Throughout reg.MeasuresMembers m) (reg.Throughout reg.HoldsKinds m)
        (encodeMessage reg fuel m) (sizeMessage reg fuel m) := by
  induction fuel with
  | zero => exact fun m _ => .of_error rfl
  | succ fuel ih =>
    intro m hkeys
    refine agrees_message hkeys.here (·.here) (·.here) fun inner hin => ?_
    exact (ih inner (hkeys.inside hin)).imp (·.inside hin) (·.inside hin)

/-! ## What has a size -/

namespace Size

variable {n : Nat}

theorem mem_of_each {f : α → Result Nat} : ∀ {as : List α} {n : Nat}, each f as = .ok n →
    ∀ a ∈ as, ∃ n, f a = .ok n
  | [], _, _, _, ha => absurd ha not_mem_nil
  | b :: bs, _, h, a, ha => by
    obtain ⟨n, hn, h⟩ := bind_eq_ok.mp h
    obtain ⟨_, hrest, _⟩ := bind_eq_ok.mp h
    rcases mem_cons.mp ha with rfl | ha
    · exact ⟨n, hn⟩
    · exact mem_of_each hrest a ha

theorem message_of_value {kind : SlotKind} (hkind : kind.isMessage)
    (h : value size kind (.message m) = .ok n) : ∃ n, size m = .ok n := by
  cases kind with
  | other name => cases h
  | known kind =>
    cases kind with
    | message =>
      obtain ⟨n, hn, _⟩ := bind_eq_ok.mp h
      exact ⟨n, hn⟩
    | group => cases h
    | _ => cases hkind

theorem message_of_single {slot : Slot} (hkind : slot.kind.isMessage)
    (h : single size slot (.message m) = .ok n) : ∃ n, size m = .ok n := by
  unfold single at h
  split at h
  · obtain ⟨n, hn, _⟩ := bind_eq_ok.mp h
    exact ⟨n, hn⟩
  · obtain ⟨_, hvalue, _⟩ := bind_eq_ok.mp h
    exact message_of_value hkind hvalue

theorem message_of_field : ∀ {f : Field} {always : Bool} {v : Value} {n : Nat},
    field size f always v = .ok n → f.Holds v m → ∃ n, size m = .ok n
  | .plain slot, always, v, n, h, hm => by
    obtain ⟨hmessage, hm⟩ := hm
    unfold field at h
    split at h
    · cases h
    split at h
    · rename_i hrep
      rw [if_pos hrep] at hm
      obtain ⟨items, hitems, hm⟩ := hm
      rw [hitems, Value.truthy_of_items hitems, List.isEmpty_eq_false_iff.mpr (ne_nil_of_mem hm)] at h
      split at h
      · contradiction
      split at h
      · rw [ok_bind] at h
        obtain ⟨_, hall, _⟩ := bind_eq_ok.mp h
        obtain ⟨_, hitem⟩ := mem_of_each hall _ hm
        exact message_of_value hmessage hitem
      · obtain ⟨_, hitem⟩ := mem_of_each h _ hm
        exact message_of_single hmessage hitem
    · rename_i hrep
      rw [if_neg hrep] at hm
      subst hm
      rw [hmessage, Bool.not_true, Bool.and_false, Bool.false_and] at h
      exact message_of_single hmessage h
  | .map slot key val, always, v, n, h, hm => by
    obtain ⟨entries, k, item, hentries, he, hm⟩ := hm
    rw [field, hentries] at h
    obtain ⟨_, hentry⟩ := mem_of_each h _ he
    obtain ⟨_, hkey, hentry⟩ := bind_eq_ok.mp hentry
    obtain ⟨_, hval, _⟩ := bind_eq_ok.mp hentry
    exact hm.elim (message_of_field hkey) (message_of_field hval)

theorem member_of_oneof (h : oneof reg size codec m group = .ok n)
    (hsets : reg.Sets m group member held) :
    codec.Measures member ∧ ∀ inner, held = .message inner → member.kind.isMessage →
      ∃ n, size inner = .ok n := by
  obtain ⟨v, hv, hne, hfind, hheld⟩ := hsets
  rw [oneof, Record.require_eq_ok.mpr hv, ok_bind, oneofValue, if_neg fun hnull => hne (Value.isNull_iff.mp hnull)] at h
  obtain ⟨⟨_, _⟩, hfound, h⟩ := bind_eq_ok.mp h
  obtain ⟨_, hfind', hheld'⟩ := heldMember_eq_ok.mp hfound
  cases hfind.symm.trans hfind'
  cases hheld.symm.trans hheld'
  have hm : codec.Measures member := by
    by_contra hm
    obtain ⟨hkind, hlen⟩ := Classical.not_imp.mp hm
    have hcontains : codec.rebound.contains "len" = true := by simpa using hlen
    obtain ⟨_, hsteps, _⟩ := bind_eq_ok.mp h
    rcases hkind with hkind | hkind
    · simp only [hkind, OneofCase.ofKind, size_each_singleton, sizeStep, hcontains, if_true] at hsteps
      obtain ⟨_, _, hsteps⟩ := bind_eq_ok.mp hsteps
      cases hsteps
    · simp only [hkind, OneofCase.ofKind, size_each_singleton, sizeStep, hcontains, if_true] at hsteps
      cases hsteps
  refine ⟨hm, ?_⟩
  rintro inner rfl hmessage
  rw [size_oneofCase_eq_single size hm] at h
  exact message_of_single (show member.slot.kind.isMessage from hmessage) h

theorem inside_of_message (h : message reg size m = .ok n) :
    reg.MeasuresMembers m ∧ ∀ inner, reg.Writes m inner → ∃ n, size inner = .ok n := by
  have honeof {t codec group} (ht : m.HasType reg t)
      (hset : t.isMessageSet = false) (hcodec : t.codecOf m = .ok (some codec))
      (hgroup : group ∈ codec.groups) : ∃ n, oneof reg size codec m group = .ok n := by
    rw [size_message_eq_parts ht hset] at h
    obtain ⟨table, _, h⟩ := bind_eq_ok.mp h
    obtain ⟨_, _, h⟩ := bind_eq_ok.mp h
    rw [hcodec, ok_bind] at h
    obtain ⟨_, hgroups, _⟩ := bind_eq_ok.mp h
    exact mem_of_each hgroups group hgroup
  constructor
  · intro t codec group member held ht hset hcodec hgroup hsets
    obtain ⟨_, hsize⟩ := honeof ht hset hcodec hgroup
    exact (member_of_oneof hsize hsets).1
  · rintro inner ⟨t, ht, hset, ⟨table, f, v, htable, hf, hv, hin⟩ | ⟨codec, group, member, hcodec,
      hgroup, hmessage, hsets⟩⟩
    · rw [size_message_eq_parts ht hset, htable, ok_bind] at h
      obtain ⟨_, hfields, _⟩ := bind_eq_ok.mp h
      obtain ⟨_, hfield⟩ := mem_of_each hfields f hf
      rw [Record.require_eq_ok.mpr hv, ok_bind] at hfield
      exact message_of_field hfield hin
    · obtain ⟨_, hsize⟩ := honeof ht hset hcodec hgroup
      exact (member_of_oneof hsize hsets).2 inner rfl hmessage

/-- What has a size is measured throughout. -/
theorem measures_of_sizeMessage : ∀ (fuel : Nat) {m : Message} {n : Nat},
    sizeMessage reg fuel m = .ok n → reg.Throughout reg.MeasuresMembers m
  | 0, _, _, h => by cases h
  | fuel + 1, _, _, h => by
    obtain ⟨hm, hinside⟩ := inside_of_message h
    refine Registry.throughout_iff.mpr ⟨hm, fun inner hin => ?_⟩
    obtain ⟨_, hsize⟩ := hinside inner hin
    exact measures_of_sizeMessage fuel hsize

end Size

/-- A message that can be encoded has the size of its encoding, unless a text or a byte string is set
in a oneof of a module that has rebound `len`; then it has no size. A message of the right kinds that
cannot be encoded has no size for the same class of reason. -/
theorem encodedSize_agrees (reg : Registry) (m : Message)
    (hkeys : reg.Throughout Record.KeysOnce m) :
    (∀ bs, encode reg m = .ok bs →
      (encodedSize reg m = .ok bs.length ↔ reg.Throughout reg.MeasuresMembers m) ∧
        (¬reg.Throughout reg.MeasuresMembers m → encodedSize reg m = .error .wrongType)) ∧
      (reg.Throughout reg.HoldsKinds m → reg.Throughout reg.MeasuresMembers m →
        ∀ family, (∃ fault, encode reg m = .error fault ∧ fault.family = family) ↔
          ∃ fault, encodedSize reg m = .error fault ∧ fault.family = family) := by
  have h : Agrees (reg.Throughout reg.MeasuresMembers m) (reg.Throughout reg.HoldsKinds m)
    (encode reg m) (encodedSize reg m) := agrees_encodeMessage m.weight m hkeys
  constructor
  · intro bs hbs
    refine ⟨⟨Size.measures_of_sizeMessage _, fun hp => ?_⟩, fun hp => ?_⟩
    · exact (h.ok bs hbs).resolve_right fun hs => hs.1 hp
    · exact ((h.ok bs hbs).resolve_left fun hs => hp (Size.measures_of_sizeMessage _ hs)).2
  · intro hkinds hmeasures family
    constructor
    · rintro ⟨fault, hfault, rfl⟩
      exact h.error fault hfault hmeasures hkinds
    · rintro ⟨fault, hfault, rfl⟩
      cases he : encode reg m with
      | ok bs =>
        cases hfault.symm.trans ((h.ok bs he).resolve_right fun hs => hs.1 hmeasures)
      | error fault' =>
        obtain ⟨fault'', hsize, hfamily⟩ := h.error fault' he hmeasures hkinds
        cases hfault.symm.trans hsize
        exact ⟨fault', rfl, hfamily.symm⟩

/-- A class with a oneof that has one member, a text, in a module that has rebound some names. -/
def textMemberRegistry (rebound : List String) : Registry where
  classes :=
    #[.message
        { name := "U", oneofs := ["o"], params := [{ name := "o", attr := "o" }]
          codec? := some
            { owner := "U"
              groups :=
                [{ attr := "o", label := "o"
                   members := [{ number := 2, kind := .string, attr := "s", variant := .ok (.type 2) }] }]
              rebound } },
      .discriminator "U_O",
      .variant { name := "U_S", base? := some 1, slot := "s", stored := "s", assigned := "s" }]

/-- A message of that class with the member set. -/
def textMemberMessage : Message := { type := 0, attrs := [("o", .variant 2 "s" (.text "ab"))] }

theorem throughout_textMemberMessage {p : Message → Prop} (rebound : List String)
    (h : p textMemberMessage) : (textMemberRegistry rebound).Throughout p textMemberMessage := by
  refine Registry.throughout_iff.mpr ⟨h, ?_⟩
  rintro inner ⟨t, ht, _, ⟨table, f, v, htable, hf, _⟩ | ⟨codec, group, member, hcodec, hgroup,
    hmessage, v, hv, _, hfind, _⟩⟩
  · cases ht
    cases htable
    cases hf
  · cases ht
    cases hcodec
    obtain rfl := mem_singleton.mp hgroup
    cases hv
    cases hfind
    cases hmessage

theorem encodedSize_textMember :
    (textMemberRegistry ["len"]).Throughout Record.KeysOnce textMemberMessage ∧
      encode (textMemberRegistry ["len"]) textMemberMessage = .ok [18, 2, 97, 98] ∧
      encodedSize (textMemberRegistry ["len"]) textMemberMessage = .error .wrongType ∧
      encodedSize (textMemberRegistry []) textMemberMessage = .ok 4 := by
  have hkeys : textMemberMessage.KeysOnce := fun entries h => by cases h
  have hcaptured : ¬(textMemberRegistry ["len"]).Throughout
      (textMemberRegistry ["len"]).MeasuresMembers textMemberMessage := by
    intro h
    have hmeasures := h.here _ _ _ _ (.text "ab") rfl rfl rfl mem_cons_self
      ⟨.variant 2 "s" (.text "ab"), rfl, by simp, rfl, rfl⟩
    exact hmeasures (.inl rfl) mem_cons_self
  have hfree : (textMemberRegistry []).Throughout (textMemberRegistry []).MeasuresMembers
      textMemberMessage := by
    refine throughout_textMemberMessage [] fun t codec group member held ht _ hcodec _ _ _ => ?_
    cases ht
    cases hcodec
    exact not_mem_nil
  exact ⟨throughout_textMemberMessage _ hkeys, rfl,
    ((encodedSize_agrees _ _ (throughout_textMemberMessage _ hkeys)).1 _ rfl).2 hcaptured,
    ((encodedSize_agrees _ _ (throughout_textMemberMessage _ hkeys)).1 [18, 2, 97, 98] rfl).1.mpr hfree⟩

end Protobind

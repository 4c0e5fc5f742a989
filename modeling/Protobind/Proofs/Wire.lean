import Protobind.Wire.Record

/-!
# Reading back the primitive encodings

Every reader of the wire format gives back what its writer was given, whatever stands behind it. A
reader that succeeds on other data looks at no byte behind the part it takes (`Reader.Local`).
-/

namespace Protobind

open List Bytes

variable {n : Int} {bs rest : Bytes}

/-! ## Readers -/

namespace Reader

variable {α β : Type}

theorem bind_apply (r : Reader α) (f : α → Reader β) (bs : Bytes) : (r >>= f) bs =
      match r bs with
      | .ok a rest => f a rest
      | .error e rest => .error e rest := by
  show EStateM.bind r f bs = _
  unfold EStateM.bind
  cases r bs <;> rfl

theorem bind_ok {r : Reader α} {f : α → Reader β} {b : β} :
    (r >>= f) bs = .ok b rest ↔ ∃ a mid, r bs = .ok a mid ∧ f a mid = .ok b rest := by
  rw [bind_apply]
  cases r bs <;> simp [and_assoc]

theorem map_ok {r : Reader α} {f : α → β} {b : β} :
    (f <$> r) bs = .ok b rest ↔ ∃ a, r bs = .ok a rest ∧ f a = b := by
  show EStateM.map f r bs = _ ↔ _
  unfold EStateM.map
  cases r bs <;> simp [and_assoc]
  exact and_comm

theorem seqRight_unit {r : Reader α} {a : α} (h : r bs = .ok a rest) :
    (r *> pure () : Reader Unit) bs = .ok () rest := by
  rw [seqRight_eq_bind, bind_apply, h]
  rfl

/-- A reader that is read through takes a front part of its input, and nothing behind that part has
any influence on it. -/
def Local (r : Reader α) : Prop :=
  ∀ bs a rest, r bs = .ok a rest →
    ∃ used, bs = used ++ rest ∧ ∀ more, r (used ++ more) = .ok a more

theorem local_pure (a : α) : Local (pure a : Reader α) := by
  intro bs b rest h
  cases h
  exact ⟨[], rfl, fun _ => rfl⟩

theorem Local.bind {r : Reader α} {f : α → Reader β} (hr : Local r) (hf : ∀ a, Local (f a)) :
    Local (r >>= f) := by
  intro bs b rest h
  obtain ⟨a, mid, hrb, hfa⟩ := bind_ok.mp h
  obtain ⟨used, rfl, hused⟩ := hr bs a mid hrb
  obtain ⟨used', rfl, hused'⟩ := hf a mid b rest hfa
  refine ⟨used ++ used', by rw [append_assoc], fun more => ?_⟩
  exact bind_ok.mpr ⟨a, _, by rw [append_assoc, hused], hused' more⟩

theorem Local.seqRight {r : Reader α} {s : Reader β} (hr : Local r) (hs : Local s) :
    Local (r *> s) := by
  rw [seqRight_eq_bind]
  exact hr.bind fun _ => hs

theorem Local.map {r : Reader α} (hr : Local r) (f : α → β) : Local (f <$> r) := by
  rw [map_eq_pure_bind]
  exact hr.bind fun _ => local_pure _

theorem Local.length_le {r : Reader α} (hr : Local r) {a : α} (h : r bs = .ok a rest) :
    rest.length ≤ bs.length := by
  obtain ⟨used, rfl, _⟩ := hr bs a rest h
  rw [length_append]
  omega

theorem Local.length_lt {r : Reader α} (hr : Local r) (hnil : ∀ a rest, r [] ≠ .ok a rest) {a : α}
    (h : r bs = .ok a rest) : rest.length < bs.length := by
  obtain ⟨used, rfl, hused⟩ := hr bs a rest h
  cases used with
  | nil => exact absurd (hused []) (hnil a [])
  | cons b used => simp only [length_append, length_cons]; omega

end Reader

/-! ## Varints -/

namespace Varint

theorem toNat_ofNat_of_lt {n : Nat} (h : n < 256) : (UInt8.ofNat n).toNat = n := by
  rw [UInt8.toNat_ofNat']
  exact Nat.mod_eq_of_lt h

theorem readGroups_cons (most : Nat) (b : UInt8) (bs : Bytes) : readGroups (most + 1) (b :: bs) =
      if b < 128 then .ok b.toNat bs
      else
        match readGroups most bs with
        | .ok high rest => .ok (b.toNat - 128 + 128 * high) rest
        | .error e rest => .error e rest := rfl

theorem readGroups_last {n : Nat} (h : n < 128) (most : Nat) (rest : Bytes) :
    readGroups (most + 1) (UInt8.ofNat n :: rest) = .ok n rest := by
  have hb : UInt8.ofNat n < 128 := by
    rw [UInt8.lt_iff_toNat_lt, toNat_ofNat_of_lt (by omega)]
    exact h
  rw [readGroups_cons, if_pos hb, toNat_ofNat_of_lt (by omega)]

/-- Reading joins the groups that writing has split a number into. -/
theorem readGroups_writeGroups (more : Nat) : ∀ (n : Nat) (rest : Bytes), n < Nat.pow 128 (more + 1) →
    readGroups (more + 1) (writeGroups more n ++ rest) = .ok n rest := by
  induction more with
  | zero =>
    intro n rest h
    exact readGroups_last (by simpa using h) 0 rest
  | succ more ih =>
    intro n rest h
    rw [writeGroups]
    split
    · rename_i hn
      exact readGroups_last hn _ rest
    · have hb : ¬ UInt8.ofNat (n % 128 + 128) < 128 := by
        rw [UInt8.lt_iff_toNat_lt, toNat_ofNat_of_lt (by omega)]
        show ¬ n % 128 + 128 < 128
        omega
      have hdiv : n / 128 < Nat.pow 128 (more + 1) := by
        rw [Nat.div_lt_iff_lt_mul (by omega)]
        exact h
      rw [cons_append, readGroups_cons, if_neg hb, ih _ _ hdiv, toNat_ofNat_of_lt (by omega)]
      show EStateM.Result.ok (n % 128 + 128 - 128 + 128 * (n / 128)) rest = .ok n rest
      congr 1
      omega

theorem local_readGroups (most : Nat) : Reader.Local (readGroups most) := by
  induction most with
  | zero => intro bs a rest h; cases h
  | succ most ih =>
    intro bs a rest h
    cases bs with
    | nil => cases h
    | cons b bs =>
      rw [readGroups_cons] at h
      split at h
      · rename_i hb
        cases h
        exact ⟨[b], rfl, fun more => by rw [singleton_append, readGroups_cons, if_pos hb]⟩
      · rename_i hb
        cases hrest : readGroups most bs with
        | error e rest' => rw [hrest] at h; cases h
        | ok high rest' =>
          rw [hrest] at h
          cases h
          obtain ⟨used, rfl, hused⟩ := ih bs high rest hrest
          refine ⟨b :: used, rfl, fun more => ?_⟩
          rw [cons_append, readGroups_cons, if_neg hb, hused]

theorem read_eq_map : read = (· % 18446744073709551616) <$> readGroups maxBytes := by
  funext bs
  show _ = EStateM.map _ _ bs
  unfold read EStateM.map
  cases readGroups maxBytes bs <;> rfl

theorem local_read : Reader.Local read := by
  rw [read_eq_map]
  exact (local_readGroups maxBytes).map _

theorem length_lt_of_read {n : Nat} (h : read bs = .ok n rest) : rest.length < bs.length :=
  local_read.length_lt (fun _ _ h => by cases h) h

theorem read_lt {n : Nat} (h : read bs = .ok n rest) : n < 18446744073709551616 := by
  rw [read_eq_map] at h
  obtain ⟨m, _, rfl⟩ := Reader.map_ok.mp h
  exact Nat.mod_lt _ (by decide)

theorem read_write (n : Int) (rest : Bytes) : read (write n ++ rest) = .ok (word64 n) rest := by
  have hw := word64_lt n
  have hbound : word64 n < Nat.pow 128 (9 + 1) := Nat.lt_trans hw (by decide)
  have hgroups : readGroups maxBytes (write n ++ rest) = .ok (word64 n) rest :=
    readGroups_writeGroups 9 _ _ hbound
  simp only [read, hgroups, Nat.mod_eq_of_lt hw]

end Varint

/-! ## Words -/

theorem Bytes.toNatLE_ofNatLE (width n : Nat) :
    toNatLE (ofNatLE width n) = n % Nat.pow 256 width := by
  induction width generalizing n with
  | zero => exact (Nat.mod_one n).symm
  | succ width ih =>
    have hpow : Nat.pow 256 (width + 1) = 256 * Nat.pow 256 width := Nat.mul_comm _ _
    rw [ofNatLE, toNatLE, ih, UInt8.toNat_ofNat', hpow, Nat.mod_mul]

theorem takeBytes_append (data rest : Bytes) :
    takeBytes data.length (data ++ rest) = .ok data rest := by
  unfold takeBytes
  rw [if_pos (by rw [length_append]; omega), take_left, drop_left]

theorem takeBytes_ok {count : Nat} {data : Bytes} : takeBytes count bs = .ok data rest ↔
    data.length = count ∧ bs = data ++ rest := by
  constructor
  · intro h
    unfold takeBytes at h
    split at h
    · rename_i hle
      cases h
      exact ⟨length_take_of_le hle, (take_append_drop count bs).symm⟩
    · cases h
  · rintro ⟨rfl, rfl⟩
    exact takeBytes_append data rest

theorem local_takeBytes (count : Nat) : Reader.Local (takeBytes count) := by
  intro bs data rest h
  obtain ⟨hlen, rfl⟩ := takeBytes_ok.mp h
  exact ⟨data, rfl, fun more => takeBytes_ok.mpr ⟨hlen, rfl⟩⟩

theorem readWord_ofNatLE {width n : Nat} (h : n < Nat.pow 256 width) (rest : Bytes) :
    (toNatLE <$> takeBytes width) (ofNatLE width n ++ rest) = .ok n rest := by
  refine Reader.map_ok.mpr ⟨_, takeBytes_ok.mpr ⟨length_ofNatLE _ _, rfl⟩, ?_⟩
  rw [toNatLE_ofNatLE, Nat.mod_eq_of_lt h]

theorem readFixed64_writeFixed64 (n : Int) (rest : Bytes) :
    readFixed64 (writeFixed64 n ++ rest) = .ok (word64 n) rest :=
  readWord_ofNatLE (word64_lt n) rest

theorem readFixed32_writeFixed32 (n : Int) (rest : Bytes) :
    readFixed32 (writeFixed32 n ++ rest) = .ok (word32 n) rest :=
  readWord_ofNatLE (word32_lt n) rest

theorem Bytes.toNatLE_lt (bs : Bytes) : toNatLE bs < Nat.pow 256 bs.length := by
  induction bs with
  | nil => exact Nat.one_pos
  | cons b bs ih =>
    have hb := b.toNat_lt
    show b.toNat + 256 * toNatLE bs < Nat.pow 256 bs.length * 256
    omega

theorem toNatLE_lt_of_takeBytes {count n : Nat} (h : (toNatLE <$> takeBytes count) bs = .ok n rest) :
    n < Nat.pow 256 count := by
  obtain ⟨data, hdata, rfl⟩ := Reader.map_ok.mp h
  exact (takeBytes_ok.mp hdata).1 ▸ toNatLE_lt data

theorem readFixed64_lt {n : Nat} (h : readFixed64 bs = .ok n rest) :
    n < 18446744073709551616 := toNatLE_lt_of_takeBytes h

theorem readFixed32_lt {n : Nat} (h : readFixed32 bs = .ok n rest) :
    n < 4294967296 := toNatLE_lt_of_takeBytes h

/-! ## Integers -/

theorem word32_natCast {n : Nat} (h : n < 4294967296) : word32 n = n := by
  unfold word32; omega

theorem word64_natCast {n : Nat} (h : n < 18446744073709551616) : word64 n = n := by
  unfold word64; omega

theorem word32_word64 (n : Int) : word32 (word64 n) = word32 n := by
  unfold word32 word64; omega

theorem signed32_word32 (n : Int) :
    signed32 (word32 n) = (n + 2147483648) % 4294967296 - 2147483648 := by
  unfold signed32 word32
  rw [Int.bmod_def]
  split <;> omega

theorem signed32_word64 (n : Int) :
    signed32 (word64 n) = (n + 2147483648) % 4294967296 - 2147483648 := by
  unfold signed32 word64
  rw [Int.bmod_def]
  split <;> omega

theorem signed64_word64 (n : Int) : signed64 (word64 n) =
    (n + 9223372036854775808) % 18446744073709551616 - 9223372036854775808 := by
  unfold signed64 word64
  rw [Int.bmod_def]
  split <;> omega

/-- All bits of a word are turned over by the word of ones. -/
theorem xor_ones {w x : Nat} (h : x < Nat.pow 2 w) :
    x ^^^ (Nat.pow 2 w - 1) = Nat.pow 2 w - (x + 1) := by
  refine Nat.eq_of_testBit_eq fun i => ?_
  have hones : (Nat.pow 2 w - 1).testBit i = decide (i < w) := Nat.testBit_two_pow_sub_one w i
  have hturned := Nat.testBit_two_pow_sub_succ h i
  rw [Nat.testBit_xor, hones]
  refine Eq.trans ?_ hturned.symm
  cases hi : decide (i < w) with
  | true => simp
  | false =>
    have hle : w ≤ i := by simpa using hi
    have hx : x < Nat.pow 2 i := Nat.lt_of_lt_of_le h (Nat.pow_le_pow_right (by omega) hle)
    simp [Nat.testBit_lt_two_pow hx]

/-- The number that a signed one is turned into: twice as large, with the sign as the last bit. -/
def doubled (n : Int) : Nat := if 0 ≤ n then (2 * n).toNat else (-2 * n - 1).toNat

theorem unzigzag_doubled (n : Int) : unzigzag (doubled n) = n := by
  unfold unzigzag doubled
  split <;> split <;> omega

theorem zigzag32_eq (h : -2147483648 ≤ n ∧ n < 2147483648) : zigzag32 n = doubled n := by
  unfold zigzag32 doubled
  split
  · rw [show word32 (n / 2147483648) = 0 by unfold word32; omega, Nat.xor_zero]
    unfold word32
    omega
  · have hlt : word32 (2 * n) < Nat.pow 2 32 := word32_lt _
    rw [show word32 (n / 2147483648) = Nat.pow 2 32 - 1 by show _ = 4294967295; unfold word32; omega,
      xor_ones hlt]
    show 4294967296 - (word32 (2 * n) + 1) = _
    unfold word32
    omega

theorem zigzag64_eq (h : -9223372036854775808 ≤ n ∧ n < 9223372036854775808) : zigzag64 n = doubled n := by
  unfold zigzag64 doubled
  split
  · rw [show word64 (n / 9223372036854775808) = 0 by unfold word64; omega, Nat.xor_zero]
    unfold word64
    omega
  · have hlt : word64 (2 * n) < Nat.pow 2 64 := word64_lt _
    rw [show word64 (n / 9223372036854775808) = Nat.pow 2 64 - 1 by
      show _ = 18446744073709551615; unfold word64; omega, xor_ones hlt]
    show 18446744073709551616 - (word64 (2 * n) + 1) = _
    unfold word64
    omega

theorem readZigzag32_writeZigzag32 (h : -2147483648 ≤ n ∧ n < 2147483648) (rest : Bytes) :
    readZigzag32 (writeZigzag32 n ++ rest) = .ok n rest := by
  refine Reader.map_ok.mpr ⟨_, Varint.read_write _ rest, ?_⟩
  have hlt : doubled n < 4294967296 := by unfold doubled; split <;> omega
  rw [zigzag32_eq h, word64_natCast (by omega), Nat.mod_eq_of_lt hlt, unzigzag_doubled]

theorem readZigzag64_writeZigzag64 (h : -9223372036854775808 ≤ n ∧ n < 9223372036854775808) (rest : Bytes) :
    readZigzag64 (writeZigzag64 n ++ rest) = .ok n rest := by
  refine Reader.map_ok.mpr ⟨_, Varint.read_write _ rest, ?_⟩
  have hlt : doubled n < 18446744073709551616 := by unfold doubled; split <;> omega
  rw [zigzag64_eq h, word64_natCast hlt, unzigzag_doubled]

/-! ## Runs of bytes -/

/-- Whether the length of a byte string can be written in front of it. -/
abbrev Short (bs : Bytes) : Prop := bs.length < 18446744073709551616

namespace Short

variable {data : Bytes}

theorem of_sublist (h : Short bs) (hdata : data.Sublist bs) : Short data :=
  Nat.lt_of_le_of_lt hdata.length_le h

theorem left (h : Short (data ++ rest)) : Short data := h.of_sublist (sublist_append_left ..)

theorem right (h : Short (rest ++ data)) : Short data := h.of_sublist (sublist_append_right ..)

theorem of_writeRun (h : Short (writeRun data)) : Short data := right h

theorem of_flatMap {α : Type} {f : α → Bytes} {a : α} {as : List α} (h : Short (as.flatMap f))
    (ha : a ∈ as) : Short (f a) := by
  rw [flatMap_def] at h
  exact h.of_sublist (sublist_flatten_of_mem (mem_map_of_mem ha))

end Short

theorem local_readRun : Reader.Local readRun := Varint.local_read.bind local_takeBytes

theorem readRun_writeRun {data : Bytes} (h : Short data) (rest : Bytes) :
    readRun (writeRun data ++ rest) = .ok data rest := by
  rw [readRun, writeRun, Reader.bind_apply, append_assoc, Varint.read_write]
  show takeBytes (word64 data.length) (data ++ rest) = _
  rw [word64_natCast h, takeBytes_append]

theorem length_lt_of_readRun {data : Bytes} (h : readRun bs = .ok data rest) :
    data.length + rest.length < bs.length := by
  obtain ⟨n, rest', hn, h⟩ := Reader.bind_ok.mp h
  have hlt := Varint.length_lt_of_read hn
  rwa [(takeBytes_ok.mp h).2, length_append] at hlt

theorem Bytes.toText?_ofText (s : String) : toText? (ofText s) = some s := by
  have hbytes : (⟨(ofText s).toArray⟩ : ByteArray) = s.toUTF8 := by
    unfold ofText
    rw [Array.toArray_toList]
  unfold toText?
  rw [hbytes]
  exact (dif_pos (c := s.toUTF8.IsValidUTF8) s.isValidUTF8).trans rfl

theorem readText_writeText {s : String} (h : Short (ofText s))
    (rest : Bytes) : readText (writeText s ++ rest) = .ok s rest := by
  rw [readText, writeText, Reader.bind_apply, readRun_writeRun h]
  simp only [toText?_ofText]
  rfl

/-! ## Keys -/

/-- Whether there is room for a number in a key. -/
abbrev FitsKey (number : Int) : Prop := 0 ≤ number ∧ number < 2305843009213693952

/-- Whether a field can have a number. -/
abbrev IsNumber (number : Int) : Prop := 0 < number ∧ number < 2305843009213693952

theorem IsNumber.fitsKey {number : Int} (h : IsNumber number) : FitsKey number :=
  ⟨Int.le_of_lt h.1, h.2⟩

theorem read_writeKey {number : Int} (h : FitsKey number) (wire : WireType) (rest : Bytes) :
    Varint.read (writeKey number wire ++ rest) = .ok (number.toNat * 8 + wire.code) rest := by
  have hcode : wire.code < 8 := by cases wire <;> decide
  rw [writeKey, Varint.read_write]
  congr 1
  unfold word64 recordKey
  omega

end Protobind

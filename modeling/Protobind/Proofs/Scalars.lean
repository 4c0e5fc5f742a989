import Protobind.Message.Equality
import Protobind.Proofs.Classes

/-!
# Single values there and back

A value of a kind that is no message is read back from what is written of it, whatever follows it,
as an equal value (`scalar_value`): a truth value in a field of integers comes back as an integer.
-/

namespace Protobind

open Decode Value Encode Kind Varint

variable {reg : Registry} {v w : Value} {n : Int} {bs rest : Bytes} {kind : Kind}

/-! ## Equal values -/

/-- Whether comparing a value with another one finds them equal, with any fuel that suffices. -/
def EqualTo (reg : Registry) (v w : Value) : Prop :=
  ∀ fuel, v.weight < fuel → Equality.bounded reg fuel false v w = .ok true

theorem Value.weight_pos (v : Value) : 0 < v.weight := by
  cases v with
  | message m => cases m; simp [weight]
  | _ => simp [weight]

theorem Record.weight_pos (m : Message) : 0 < m.weight := Value.weight_pos (.message m)

theorem EqualTo.holds (h : EqualTo reg v w) :
    Equality.bounded reg (v.weight + w.weight) false v w = .ok true :=
  h _ (Nat.lt_add_of_pos_right w.weight_pos)

namespace Equality

theorem value_of_isKey {nested : Bool → Value → Value → Result Bool} {same : Bool} (hv : v.isKey = true)
    (hw : w.isKey = true) (hnan : v ≠ .nan) :
    Equality.value reg nested same v w = .ok (sameKey v w) := by
  cases v with
  | nan => exact absurd rfl hnan
  | list | map | variant | discriminator | message => cases hv
  | _ =>
    cases w with
    | list | map | variant | discriminator | message => cases hw
    | _ => rfl

end Equality

theorem equalTo_of_sameKey (hv : v.isKey = true) (hw : w.isKey = true) (hnan : v ≠ .nan)
    (h : sameKey v w = true) : EqualTo reg v w := by
  intro fuel hfuel
  obtain ⟨fuel, rfl⟩ : ∃ k, fuel = k + 1 := ⟨fuel - 1, by omega⟩
  rw [Equality.bounded, Equality.value_of_isKey hv hw hnan, h]

theorem equalTo_null (reg : Registry) : EqualTo reg .null .null :=
  equalTo_of_sameKey rfl rfl (by simp) rfl

namespace Value

theorem cases_of_asInt (h : v.asInt = .ok n) :
    v = .int n ∨ (∃ b, v = .bool b ∧ n = if b then 1 else 0) ∨ ∃ id, v = .enum id n := by
  cases v with
  | bool b => cases h; exact .inr (.inl ⟨b, rfl, rfl⟩)
  | int n => cases h; exact .inl rfl
  | enum id n => cases h; exact .inr (.inr ⟨id, rfl⟩)
  | _ => cases h

theorem isKey_of_asInt (h : v.asInt = .ok n) : v.isKey = true := by
  rcases cases_of_asInt h with rfl | ⟨b, rfl, _⟩ | ⟨id, rfl⟩ <;> rfl

theorem isNull_of_asInt (h : v.asInt = .ok n) : v.isNull = false := by
  rcases cases_of_asInt h with rfl | ⟨b, rfl, _⟩ | ⟨id, rfl⟩ <;> rfl

theorem ne_nan_of_asInt (h : v.asInt = .ok n) : v ≠ .nan := by
  rintro rfl
  cases h

theorem truthy_of_asInt (h : v.asInt = .ok n) : v.truthy = (n != 0) := by
  rcases cases_of_asInt h with rfl | ⟨b, rfl, rfl⟩ | ⟨id, rfl⟩
  · rfl
  · cases b <;> rfl
  · rfl

theorem sameKey_of_asInt {m : Int} (hv : v.asInt = .ok m) (hw : w.asInt = .ok n) :
    sameKey v w = (m == n) := by
  rcases cases_of_asInt hv with rfl | ⟨b, rfl, rfl⟩ | ⟨id, rfl⟩ <;>
    rcases cases_of_asInt hw with rfl | ⟨c, rfl, rfl⟩ | ⟨id', rfl⟩ <;> rfl

end Value

theorem equalTo_of_asInt (hv : v.asInt = .ok n) (hw : w.asInt = .ok n) : EqualTo reg v w := by
  refine equalTo_of_sameKey (isKey_of_asInt hv) (isKey_of_asInt hw) (ne_nan_of_asInt hv) ?_
  rw [sameKey_of_asInt hv hw]
  simp

/-! ## Values of a kind -/

/-- Whether a value is one that fields of a kind hold, for kinds that are no messages. -/
def Kind.Accepts : Kind → Value → Prop
  | .double, v => ∃ d, v = .float d ∧ d.isNaN = false
  | .float, v => ∃ d, v = .float d ∧ d.isNaN = false ∧ d.toSingle?.map Double.ofSingle = some d
  | .int32, v | .sint32, v | .sfixed32, v | .enum, v =>
    ∃ n, v.asInt = .ok n ∧ -2147483648 ≤ n ∧ n < 2147483648
  | .int64, v | .sint64, v | .sfixed64, v =>
    ∃ n, v.asInt = .ok n ∧ -9223372036854775808 ≤ n ∧ n < 9223372036854775808
  | .uint32, v | .fixed32, v => ∃ n, v.asInt = .ok n ∧ 0 ≤ n ∧ n < 4294967296
  | .uint64, v | .fixed64, v => ∃ n, v.asInt = .ok n ∧ 0 ≤ n ∧ n < 18446744073709551616
  | .bool, v => ∃ n, v.asInt = .ok n ∧ (n = 0 ∨ n = 1)
  | .string, v => ∃ s, v = .text s
  | .bytes, v => ∃ bs, v = .bytes bs
  | .message, _ | .group, _ => False

theorem Double.toSingle?_lt {d : Double} (hnan : d.isNaN = false) {bits : Nat}
    (h : d.toSingle? = some bits) : bits < 4294967296 := by
  have hinfinite : BinaryFormat.single.infinity = 2139095040 := rfl
  have hsign : twoPow 31 = 2147483648 := rfl
  unfold Double.toSingle? at h
  simp only [hnan, Bool.false_eq_true, if_false, hinfinite, hsign] at h
  split at h
  · cases h
    split <;> omega
  · split at h
    · cases h
      split <;> omega
    · cases h

/-- Whether a value may come back in the place of another one: it is the same, or both stand for the
same integer. -/
def Value.Alike (v w : Value) : Prop := w = v ∨ ∃ n, v.asInt = .ok n ∧ w.asInt = .ok n

namespace Kind.Accepts

/-- What a kind accepts is a number that is one, a text, or a byte string. -/
theorem cases (h : kind.Accepts v) :
    (∃ n, v.asInt = .ok n) ∨ (∃ d, v = .float d ∧ d.isNaN = false) ∨ (∃ s, v = .text s) ∨
      ∃ bs, v = .bytes bs := by
  cases kind with
  | message | group => exact h.elim
  | double => exact .inr (.inl h)
  | float => obtain ⟨d, hd, hnan, _⟩ := h; exact .inr (.inl ⟨d, hd, hnan⟩)
  | string => exact .inr (.inr (.inl h))
  | bytes => exact .inr (.inr (.inr h))
  | _ => obtain ⟨n, hn, _⟩ := h; exact .inl ⟨n, hn⟩

theorem isKey (h : kind.Accepts v) : v.isKey = true := by
  rcases h.cases with ⟨n, hn⟩ | ⟨d, rfl, _⟩ | ⟨s, rfl⟩ | ⟨bs, rfl⟩
  · exact isKey_of_asInt hn
  · rfl
  · rfl
  · rfl

theorem isNull (h : kind.Accepts v) : v.isNull = false := by
  rcases h.cases with ⟨n, hn⟩ | ⟨d, rfl, _⟩ | ⟨s, rfl⟩ | ⟨bs, rfl⟩
  · exact isNull_of_asInt hn
  · rfl
  · rfl
  · rfl

theorem sameKey_self (h : kind.Accepts v) : sameKey v v = true := by
  rcases h.cases with ⟨n, hn⟩ | ⟨d, rfl, hnan⟩ | ⟨s, rfl⟩ | ⟨bs, rfl⟩
  · rw [sameKey_of_asInt hn hn]
    simp
  · simp [sameKey, Double.equal, hnan]
  · simp [sameKey]
  · simp [sameKey]

theorem alike (h : kind.Accepts v) (hw : v.Alike w) : kind.Accepts w := by
  rcases hw with rfl | ⟨n, hn, hw⟩
  · exact h
  · cases kind with
    | message | group => exact h.elim
    | double | float => obtain ⟨d, rfl, _⟩ := h; cases hn
    | string | bytes => obtain ⟨s, rfl⟩ := h; cases hn
    | _ =>
      obtain ⟨m, hm, hrange⟩ := h
      cases hn.symm.trans hm
      exact ⟨n, hw, hrange⟩

theorem equalTo (h : kind.Accepts v) (hw : v.Alike w) (reg : Registry) : EqualTo reg v w := by
  rcases hw with rfl | ⟨n, hn, hw⟩
  · refine equalTo_of_sameKey h.isKey h.isKey ?_ h.sameKey_self
    rintro rfl
    rcases h.cases with ⟨n, hn⟩ | ⟨d, hd, _⟩ | ⟨s, hs⟩ | ⟨bs, hbs⟩
    · cases hn
    · cases hd
    · cases hs
    · cases hbs
  · exact equalTo_of_asInt hn hw

end Kind.Accepts

/-! ## Writing and reading -/

theorem Decode.mapParse_of_read {α : Type} {f : α → Value} {r : Reader α} {a : α}
    (h : r bs = .ok a rest) : mapParse f (ofReader r) bs = .ok (f a, rest) :=
  mapParse_eq_ok.mpr ⟨a, ofReader_eq_ok.mpr h, rfl⟩

theorem Decode.mapParse_lift_of_read {f : Int → Value} {r : Reader Nat} {a : Nat}
    (h : r bs = .ok a rest) :
    mapParse f (ofReader (do let a ← r; pure (a : Int))) bs = .ok (f a, rest) := by
  refine mapParse_eq_ok.mpr ⟨(a : Int), ?_, rfl⟩
  rw [ofReader_lift]
  exact mapParse_eq_ok.mpr ⟨a, ofReader_eq_ok.mpr h, rfl⟩

theorem natCast_word64 (n : Int) : ((word64 n : Nat) : Int) = n % 18446744073709551616 := by
  unfold word64
  omega

theorem natCast_word32 (n : Int) : ((word32 n : Nat) : Int) = n % 4294967296 := by
  unfold word32
  omega

theorem Encode.value_of_alike (hv : kind.Accepts v) (h : v.Alike w) (nested nested' : Writer) :
    value nested (.known kind) w = value nested' (.known kind) v := by
  rcases h with rfl | ⟨n, hn, hw⟩
  · cases kind with
    | message | group => exact hv.elim
    | _ => rfl
  · cases kind with
    | message | group => exact hv.elim
    | double | float => obtain ⟨d, rfl, _⟩ := hv; cases hn
    | string | bytes => obtain ⟨s, rfl⟩ := hv; cases hn
    | bool =>
      simp only [value, truthy_of_asInt hn, truthy_of_asInt hw]
    | _ => simp only [value, hn, hw]

/-- The integers that a kind tells apart: how many of them are negative, and how many there are. -/
def Kind.residues? : Kind → Option (Int × Int)
  | .int32 | .enum | .sfixed32 => some (2147483648, 4294967296)
  | .uint32 | .fixed32 => some (0, 4294967296)
  | .int64 | .sfixed64 => some (9223372036854775808, 18446744073709551616)
  | .uint64 | .fixed64 => some (0, 18446744073709551616)
  | _ => none

/-- The integer of a kind that differs from an integer by a multiple of their number. -/
def Kind.reduced (kind : Kind) (n : Int) : Int :=
  match kind.residues? with
  | some (negative, count) => (n + negative) % count - negative
  | none => n

/-- Whether an integer has a form of a kind. The zigzag forms are those of signed words only. -/
def Kind.Counts : Kind → Int → Prop
  | .sint32, n => -2147483648 ≤ n ∧ n < 2147483648
  | .sint64, n => -9223372036854775808 ≤ n ∧ n < 9223372036854775808
  | kind, _ => kind.residues?.isSome = true

/-- An integer is written as a word, and read back as what the word stands for. -/
theorem integer_value (hn : v.asInt = .ok n) {write : Int → Bytes} {word : Int → Nat} {r : Reader Nat}
    {f : Int → Value} {k : Int} {plain : Prop} (hread : ∀ n rest, r (write n ++ rest) = .ok (word n) rest)
    (hf : f (word n) = .int k) :
    ∃ bs w, (∀ _ : Writer, (write <$> v.asInt) = .ok bs) ∧ w.asInt = .ok k ∧
      (plain → w = .int k) ∧ ∀ rest,
        mapParse f (ofReader (do let a ← r; pure (a : Int))) (bs ++ rest) = .ok (w, rest) :=
  ⟨write n, .int k, fun _ => by rw [hn]; rfl, rfl, fun _ => rfl, fun rest =>
    hf ▸ mapParse_lift_of_read (hread n rest)⟩

/-- An integer is written in the form of a kind, and read back reduced, whatever follows. -/
theorem integer_back {slot : Slot} (hslot : slot.Resolves reg) (hkind : slot.kind = .known kind)
    (hn : v.asInt = .ok n) (hcounts : kind.Counts n) :
    ∃ bs w, (∀ nested, value nested (.known kind) v = .ok bs) ∧
      w.asInt = .ok (kind.reduced n) ∧ (slot.typeName? = none → w = .int (kind.reduced n)) ∧
      ∀ rest, scalar reg slot (bs ++ rest) = .ok (w, rest) := by
  unfold scalar
  rw [hkind]
  cases kind with
  | double | float | bool | string | bytes | message | group => cases hcounts
  | int64 => exact integer_value hn read_write (congrArg _ (signed64_word64 n))
  | uint64 => exact integer_value hn read_write (by simp [reduced, residues?, natCast_word64])
  | int32 => exact integer_value hn read_write (congrArg _ (signed32_word64 n))
  | uint32 =>
    exact integer_value hn read_write (by simp [reduced, residues?, word32_word64, natCast_word32])
  | fixed64 =>
    exact integer_value hn readFixed64_writeFixed64 (by simp [reduced, residues?, natCast_word64])
  | sfixed64 => exact integer_value hn readFixed64_writeFixed64 (congrArg _ (signed64_word64 n))
  | fixed32 =>
    exact integer_value hn readFixed32_writeFixed32 (by simp [reduced, residues?, natCast_word32])
  | sfixed32 => exact integer_value hn readFixed32_writeFixed32 (congrArg _ (signed32_word32 n))
  | sint32 =>
    refine ⟨writeZigzag32 n, .int n, fun _ => ?_, rfl, fun _ => rfl, fun rest => ?_⟩
    · rw [value, hn]
      rfl
    · exact mapParse_of_read (readZigzag32_writeZigzag32 hcounts rest)
  | sint64 =>
    refine ⟨writeZigzag64 n, .int n, fun _ => ?_, rfl, fun _ => rfl, fun rest => ?_⟩
    · rw [value, hn]
      rfl
    · exact mapParse_of_read (readZigzag64_writeZigzag64 hcounts rest)
  | enum =>
    obtain ⟨w, hw, hint, _, _, hplain⟩ := hslot.enumValue hkind (enum.reduced n)
    refine ⟨write n, w, fun _ => ?_, hint, hplain, fun rest => ?_⟩
    · rw [value, hn]
      rfl
    · have hread := ofReader_eq_ok.mpr (read_write n rest)
      have hword : signed32 (word64 n) = enum.reduced n := signed32_word64 n
      simp only [hread, ok_bind, hword, hw]
      rfl

/-- A value of a kind is written, and read back as a value like it, whatever follows. -/
theorem scalar_value {slot : Slot} (hslot : slot.Resolves reg) (hkind : slot.kind = .known kind)
    (hv : kind.Accepts v) :
    ∃ bs w, (∀ nested, value nested (.known kind) v = .ok bs) ∧ v.Alike w ∧
      (Short bs → ∀ rest, scalar reg slot (bs ++ rest) = .ok (w, rest)) := by
  -- An integer in the range of its kind is reduced to itself.
  have integer {n : Int} (hn : v.asInt = .ok n) (hcounts : kind.Counts n) (hsame : kind.reduced n = n) :
      ∃ bs w, (∀ nested, value nested (.known kind) v = .ok bs) ∧ v.Alike w ∧
        (Short bs → ∀ rest, scalar reg slot (bs ++ rest) = .ok (w, rest)) := by
    obtain ⟨bs, w, hwritten, hw, _, hback⟩ := integer_back hslot hkind hn hcounts
    exact ⟨bs, w, hwritten, .inr ⟨n, hn, hsame ▸ hw⟩, fun _ => hback⟩
  cases kind with
  | message | group => exact hv.elim
  | double =>
    obtain ⟨d, rfl, _⟩ := hv
    refine ⟨_, .float d, fun _ => rfl, .inl rfl, fun _ rest => ?_⟩
    have hread := readFixed64_writeFixed64 d.bits.toNat rest
    rw [word64_natCast d.bits.toNat_lt] at hread
    rw [scalar, hkind]
    refine (mapParse_of_read hread).trans ?_
    rw [UInt64.ofNat_toNat]
  | float =>
    obtain ⟨d, rfl, hnan, hsingle⟩ := hv
    obtain ⟨bits, hbits, hback⟩ := Option.map_eq_some_iff.mp hsingle
    refine ⟨writeFixed32 bits, .float d, fun _ => ?_, .inl rfl, fun _ rest => ?_⟩
    · simp only [value, singleBits, hbits]
      rfl
    · have hread := readFixed32_writeFixed32 bits rest
      rw [word32_natCast (Double.toSingle?_lt hnan hbits)] at hread
      rw [scalar, hkind]
      refine (mapParse_of_read hread).trans ?_
      rw [hback]
  | string =>
    obtain ⟨s, rfl⟩ := hv
    refine ⟨writeText s, .text s, fun _ => rfl, .inl rfl, fun hlt rest => ?_⟩
    rw [scalar, hkind]
    exact mapParse_of_read (readText_writeText (Short.of_writeRun hlt) rest)
  | bytes =>
    obtain ⟨data, rfl⟩ := hv
    refine ⟨writeRun data, .bytes data, fun _ => rfl, .inl rfl, fun hlt rest => ?_⟩
    rw [scalar, hkind]
    exact mapParse_of_read (readRun_writeRun (Short.of_writeRun hlt) rest)
  | bool =>
    obtain ⟨n, hn, hbit⟩ := hv
    have htruth : v.truthy = (n != 0) := truthy_of_asInt hn
    refine ⟨write (if v.truthy then 1 else 0), .bool (n != 0), fun _ => rfl,
      .inr ⟨n, hn, ?_⟩, fun _ rest => ?_⟩
    · rcases hbit with rfl | rfl <;> rfl
    · rw [scalar, hkind]
      refine (mapParse_of_read (read_write _ rest)).trans ?_
      rw [htruth]
      rcases hbit with rfl | rfl <;> rfl
  | sint32 | sint64 =>
    obtain ⟨n, hn, hrange⟩ := hv
    exact integer hn hrange rfl
  | _ =>
    obtain ⟨n, hn, hrange⟩ := hv
    refine integer hn rfl ?_
    simp only [reduced, residues?]
    omega

end Protobind

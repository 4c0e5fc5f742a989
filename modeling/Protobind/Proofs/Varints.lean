import Protobind.Proofs.Wire
import Protobind.Wire.Buffer

/-!
# Varints in buffers

A varint ends at the first byte whose top bit is clear, which has to be one of ten. Whatever the
bytes of a buffer are, a varint is read up to such a byte or not at all. A spelling of a number may
be longer than the one that is written, but not shorter.
-/

namespace Protobind

open List

namespace Varint

/-- The number that bytes stand for, seven bits each, lowest first. -/
def joined : Bytes → Nat
  | [] => 0
  | b :: bs => b.toNat % 128 + 128 * joined bs

theorem joined_lt (bs : Bytes) : joined bs < Nat.pow 128 bs.length := by
  induction bs with
  | nil => exact Nat.one_pos
  | cons b bs ih =>
    show b.toNat % 128 + 128 * joined bs < Nat.pow 128 bs.length * 128
    omega

/-- Groups are read up to the first byte whose top bit is clear, or there is none among those that
may be read. -/
theorem readGroups_cases (most : Nat) (bs : Bytes) :
    (∃ more last rest, bs = more ++ last :: rest ∧ (∀ b ∈ more, 128 ≤ b) ∧ last < 128 ∧
        more.length < most ∧ readGroups most bs = .ok (joined (more ++ [last])) rest) ∨
      (∀ b ∈ bs.take most, 128 ≤ b) ∧ readGroups most bs =
        .error (if bs.length < most then .endInVarint else .varintOverflow) (bs.drop most) := by
  induction most generalizing bs with
  | zero => exact .inr ⟨by simp, rfl⟩
  | succ most ih =>
    cases bs with
    | nil => exact .inr ⟨by simp, rfl⟩
    | cons b bs =>
      rw [readGroups_cons]
      split
      · rename_i hb
        have hsmall : b.toNat < 128 := UInt8.lt_iff_toNat_lt.mp hb
        refine .inl ⟨[], b, bs, rfl, by simp, hb, Nat.succ_pos _, ?_⟩
        rw [nil_append, joined, joined, Nat.mod_eq_of_lt hsmall, Nat.mul_zero, Nat.add_zero]
      · rename_i hb
        have hlarge : 128 ≤ b := UInt8.not_lt.mp hb
        have hvalue : b.toNat - 128 = b.toNat % 128 := by
          have hle : 128 ≤ b.toNat := UInt8.le_iff_toNat_le.mp hlarge
          have hlt := b.toNat_lt
          omega
        rcases ih bs with ⟨more, last, rest, rfl, hmore, hlast, hlen, hread⟩ | ⟨hall, hread⟩
        · refine .inl ⟨b :: more, last, rest, rfl, forall_mem_cons.mpr ⟨hlarge, hmore⟩, hlast,
            Nat.succ_lt_succ hlen, ?_⟩
          rw [hread, hvalue]
          rfl
        · refine .inr ⟨forall_mem_cons.mpr ⟨hlarge, hall⟩, ?_⟩
          rw [hread]
          simp only [length_cons, Nat.succ_lt_succ_iff, drop_succ_cons]

/-- A number that fits into some groups is not written with more of them. -/
theorem countGroups_le (more : Nat) {n count : Nat} (hpos : 0 < count)
    (hn : n < Nat.pow 128 count) : countGroups more n ≤ count := by
  induction more generalizing n count with
  | zero => exact hpos
  | succ more ih =>
    unfold countGroups
    split
    · exact hpos
    · rename_i hlarge
      obtain ⟨count, rfl⟩ := Nat.exists_eq_add_one.mpr hpos
      have hrest : n / 128 < Nat.pow 128 count := Nat.div_lt_of_lt_mul (Nat.mul_comm 128 _ ▸ hn)
      have hmore : 0 < count := by
        rcases Nat.eq_zero_or_pos count with rfl | hmore
        · exact absurd hn hlarge
        · exact hmore
      exact Nat.succ_le_succ (ih hmore hrest)

end Varint

/-- A varint is read at a cursor if and only if one of the next ten bytes has its top bit clear. It
ends at the first such byte, its value is a word, and it has at least as many bytes as are written
of this value. The cursor moves forwards, up to the end of the data at most. -/
theorem varint_bounds (before bs : Bytes) :
    ∃ result used, Buffer.read ⟨before ++ bs, before.length⟩ Varint.read =
        (result, ⟨before ++ bs, before.length + used⟩) ∧ used ≤ bs.length ∧
      ((∃ v, result = .ok v) ↔ ∃ b ∈ bs.take 10, b < 128) ∧
      (∀ v, result = .ok v → v < 18446744073709551616 ∧
        ∃ more last rest, bs = more ++ last :: rest ∧ (∀ b ∈ more, 128 ≤ b) ∧ last < 128 ∧
          used = more.length + 1 ∧
          v = Varint.joined (more ++ [last]) % 18446744073709551616 ∧ Varint.size v ≤ used) ∧
      (∀ e, result = .error e →
        e = if bs.length < 10 then DecodeError.endInVarint else .varintOverflow) ∧
      ∀ n, (Varint.write n).length = Varint.size n := by
  have hunread : Buffer.unread ⟨before ++ bs, before.length⟩ = bs := drop_left
  unfold Buffer.read Varint.read
  rw [hunread]
  rcases Varint.readGroups_cases Varint.maxBytes bs with
    ⟨more, last, rest, rfl, hmore, hlast, hlen, hread⟩ | ⟨hall, hread⟩
  · have hcursor : (before ++ (more ++ last :: rest)).length - rest.length =
        before.length + (more.length + 1) := by
      simp only [length_append, length_cons]
      omega
    have hmem : last ∈ (more ++ last :: rest).take 10 := by
      obtain ⟨k, hk⟩ := Nat.exists_eq_add_of_lt hlen
      rw [show 10 = more.length + (k + 1) from hk, take_length_add_append]
      exact mem_append_right _ mem_cons_self
    refine ⟨.ok _, more.length + 1, by rw [hread, ← hcursor], by simp,
      ⟨fun _ => ⟨last, hmem, hlast⟩, fun _ => ⟨_, rfl⟩⟩, ?_, fun e h => (by cases h),
      Varint.length_write⟩
    rintro v ⟨⟩
    have hlt := Nat.mod_lt (Varint.joined (more ++ [last])) (y := 18446744073709551616) (by decide)
    have hfits := Nat.lt_of_le_of_lt (Nat.mod_le _ 18446744073709551616)
      (Varint.joined_lt (more ++ [last]))
    refine ⟨hlt, more, last, rest, rfl, hmore, hlast, rfl, rfl, ?_⟩
    rw [length_append] at hfits
    rw [Varint.size, word64_natCast hlt]
    exact Varint.countGroups_le _ (Nat.succ_pos _) hfits
  · have hcursor : (before ++ bs).length - (bs.drop 10).length = before.length + (bs.take 10).length := by
      simp only [length_append, length_drop, length_take]
      omega
    refine ⟨.error _, (bs.take 10).length, by rw [hread, ← hcursor]; rfl, length_take_le' _ _,
      ⟨?_, ?_⟩, fun v h => (by cases h), ?_, Varint.length_write⟩
    · rintro ⟨v, ⟨⟩⟩
    · rintro ⟨b, hb, hclear⟩
      exact absurd hclear (UInt8.not_lt.mpr (hall b hb))
    · rintro e ⟨⟩
      rfl

end Protobind

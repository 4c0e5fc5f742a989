import Mathlib.Algebra.Order.Field.Power
import Mathlib.Data.Rat.Cast.Order
import Mathlib.Tactic.FieldSimp
import Mathlib.Tactic.Ring
import Protobind.Number.Double

/-!
# Numbers of 32 bits inside those of 64 bits

Rounding is exact on the magnitudes of a format, and a format with more bits has all magnitudes of
one with fewer. So a number of 32 bits comes back when it is converted to 64 bits and again to 32.
The argument runs over the rational number that the bits of a magnitude stand for.
-/

namespace Protobind

variable {num den bits n s : Nat} {e : Int} {negative : Bool} {f : BinaryFormat}

theorem roundDiv_mul {q : Nat} (h : 0 < den) : roundDiv (q * den) den = q := by
  unfold roundDiv
  simp only [Nat.mul_div_cancel q h, Nat.mul_mod_left, Nat.mul_zero, if_pos h]

theorem twoPow_pos (n : Nat) : 0 < twoPow n := Nat.two_pow_pos n

theorem cast_twoPow (n : Nat) : ((twoPow n : Nat) : ℚ) = 2 ^ (n : ℤ) := by
  rw [zpow_natCast]
  exact Nat.cast_pow 2 n

theorem cast_twoPow_toNat (h : 0 ≤ e) : ((twoPow e.toNat : Nat) : ℚ) = 2 ^ e := by
  rw [cast_twoPow, Int.toNat_of_nonneg h]

namespace BinaryFormat

/-! ## Rounding an exact ratio -/

/-- A ratio that is a multiple of a power of two is divided by the power without rounding. -/
theorem roundScaled_eq (hden : 0 < den) (h : (num : ℚ) / den = s * 2 ^ e) :
    roundScaled num den e = s := by
  have hden' : (den : ℚ) ≠ 0 := Nat.cast_ne_zero.mpr (Nat.pos_iff_ne_zero.mp hden)
  have hnum : (num : ℚ) = s * 2 ^ e * den := by rw [← h]; field_simp
  unfold roundScaled
  by_cases he : 0 ≤ e
  · rw [if_pos he]
    have hexact : num = s * (den * twoPow e.toNat) := by
      have hcast : (num : ℚ) = s * (den * twoPow e.toNat : Nat) := by
        rw [hnum, Nat.cast_mul, cast_twoPow_toNat he]
        ring
      exact_mod_cast hcast
    rw [hexact]
    exact roundDiv_mul (Nat.mul_pos hden (twoPow_pos _))
  · rw [if_neg he]
    have hexact : num * twoPow (-e).toNat = s * den := by
      have hcast : ((num * twoPow (-e).toNat : Nat) : ℚ) = s * den := by
        rw [Nat.cast_mul, cast_twoPow_toNat (by omega), hnum, zpow_neg]
        have hpow : (2 : ℚ) ^ e ≠ 0 := by positivity
        field_simp
      exact_mod_cast hcast
    rw [hexact]
    exact roundDiv_mul hden

theorem log2_bounds (h : n ≠ 0) :
    (2 : ℚ) ^ (n.log2 : ℤ) ≤ n ∧ (n : ℚ) < 2 ^ ((n.log2 : ℤ) + 1) := by
  constructor
  · rw [zpow_natCast]
    exact_mod_cast Nat.log2_self_le h
  · have hlt : n < 2 ^ (n.log2 + 1) := Nat.lt_log2_self
    have hcast : (n : ℚ) < 2 ^ (n.log2 + 1) := by exact_mod_cast hlt
    rwa [← zpow_natCast] at hcast

theorem atLeast_iff (hden : 0 < den) (k : Int) :
    (if 0 ≤ k then den * twoPow k.toNat ≤ num else den ≤ num * twoPow (-k).toNat) ↔
      (2 : ℚ) ^ k ≤ (num : ℚ) / den := by
  have hden' : (0 : ℚ) < den := by exact_mod_cast hden
  rw [le_div_iff₀ hden']
  by_cases hk : 0 ≤ k
  · rw [if_pos hk, ← cast_twoPow_toNat hk, mul_comm]
    exact_mod_cast Iff.rfl
  · rw [if_neg hk]
    have hpow : (0 : ℚ) < 2 ^ k := by positivity
    have hneg : ((twoPow (-k).toNat : Nat) : ℚ) = (2 ^ k)⁻¹ := by
      rw [cast_twoPow_toNat (by omega), zpow_neg]
    have hle : (2 : ℚ) ^ k * den ≤ num ↔ (den : ℚ) ≤ num * (2 ^ k)⁻¹ := by
      rw [← div_eq_mul_inv, le_div_iff₀ hpow, mul_comm]
    rw [hle, ← hneg]
    exact_mod_cast Iff.rfl

/-- The exponent of a ratio lies between those of its neighbouring powers of two. -/
theorem logRatio_bounds (hnum : num ≠ 0) (hden : 0 < den) :
    (2 : ℚ) ^ logRatio num den ≤ (num : ℚ) / den ∧
      (num : ℚ) / den < 2 ^ (logRatio num den + 1) := by
  have hden' : (0 : ℚ) < den := by exact_mod_cast hden
  obtain ⟨hnumLe, hnumLt⟩ := log2_bounds hnum
  obtain ⟨hdenLe, hdenLt⟩ := log2_bounds (Nat.pos_iff_ne_zero.mp hden)
  have hlower : (2 : ℚ) ^ ((num.log2 : ℤ) - den.log2 - 1) ≤ (num : ℚ) / den := by
    rw [le_div_iff₀ hden']
    calc (2 : ℚ) ^ ((num.log2 : ℤ) - den.log2 - 1) * den
        ≤ 2 ^ ((num.log2 : ℤ) - den.log2 - 1) * 2 ^ ((den.log2 : ℤ) + 1) := by gcongr
      _ = 2 ^ (num.log2 : ℤ) := by
          rw [← zpow_add₀ (by norm_num)]
          congr 1
          ring
      _ ≤ num := hnumLe
  have hupper : (num : ℚ) / den < 2 ^ ((num.log2 : ℤ) - den.log2 + 1) := by
    rw [div_lt_iff₀ hden']
    calc (num : ℚ) < 2 ^ ((num.log2 : ℤ) + 1) := hnumLt
      _ = 2 ^ ((num.log2 : ℤ) - den.log2 + 1) * 2 ^ (den.log2 : ℤ) := by
          rw [← zpow_add₀ (by norm_num)]
          congr 1
          ring
      _ ≤ 2 ^ ((num.log2 : ℤ) - den.log2 + 1) * den := by gcongr
  unfold logRatio
  simp only [atLeast_iff hden]
  by_cases hle : (2 : ℚ) ^ ((num.log2 : ℤ) - den.log2) ≤ (num : ℚ) / den
  · rw [if_pos hle]
    exact ⟨hle, hupper⟩
  · rw [if_neg hle, sub_add_cancel]
    exact ⟨hlower, not_le.mp hle⟩

theorem logRatio_eq (hnum : num ≠ 0) (hden : 0 < den) (hle : (2 : ℚ) ^ e ≤ (num : ℚ) / den)
    (hlt : (num : ℚ) / den < 2 ^ (e + 1)) :
    logRatio num den = e := by
  obtain ⟨hle', hlt'⟩ := logRatio_bounds hnum hden
  have hone : (1 : ℚ) < 2 := by norm_num
  have hup : logRatio num den < e + 1 := (zpow_lt_zpow_iff_right₀ hone).mp (hle'.trans_lt hlt)
  have hdown : e < logRatio num den + 1 := (zpow_lt_zpow_iff_right₀ hone).mp (hle.trans_lt hlt')
  omega

/-! ## Magnitudes -/

/-- The number that the bits of a magnitude stand for. -/
def value (f : BinaryFormat) (bits : Nat) : ℚ := f.significand bits * 2 ^ f.exponent bits

theorem ratio_den_pos (f : BinaryFormat) (bits : Nat) : 0 < (f.ratio bits).2 := by
  unfold ratio
  simp only
  split
  · exact Nat.one_pos
  · exact twoPow_pos _

theorem ratio_eq_value (f : BinaryFormat) (bits : Nat) :
    ((f.ratio bits).1 : ℚ) / (f.ratio bits).2 = f.value bits := by
  unfold ratio value
  simp only
  split
  · rename_i he
    rw [Nat.cast_mul, cast_twoPow_toNat he, Nat.cast_one, div_one]
  · rw [cast_twoPow_toNat (by omega), zpow_neg, div_inv_eq_mul]

/-- Whether a significand and an exponent are those of a magnitude: the leading one is in its place,
or the exponent is the smallest. -/
structure Normal (f : BinaryFormat) (s : Nat) (e : Int) : Prop where
  lt : s < 2 * twoPow f.fractionBits
  le : f.minExponent ≤ e
  leading : twoPow f.fractionBits ≤ s ∨ e = f.minExponent

/-- The bits of the magnitude with a significand and an exponent. -/
def compose (f : BinaryFormat) (s : Nat) (e : Int) : Nat :=
  (e - f.minExponent).toNat * twoPow f.fractionBits + s

/-- A ratio that is a magnitude of the format is not rounded. -/
theorem nearest_eq (h : f.Normal s e) (hden : 0 < den) (hratio : (num : ℚ) / den = s * 2 ^ e) :
    f.nearest num den = f.compose s e := by
  have hden' : (0 : ℚ) < den := by exact_mod_cast hden
  unfold nearest compose
  by_cases hnum : num = 0
  · subst hnum
    have hzero : (s : ℚ) * 2 ^ e = 0 := by rw [← hratio, Nat.cast_zero, zero_div]
    have hs : s = 0 := by
      rcases mul_eq_zero.mp hzero with hs | hpow
      · exact_mod_cast hs
      · exact absurd hpow (by positivity)
    have he : e = f.minExponent := by
      refine h.leading.resolve_left fun hle => ?_
      have := twoPow_pos f.fractionBits
      omega
    rw [if_pos rfl, hs, he, sub_self]
    simp
  rw [if_neg hnum]
  have hmax : max (logRatio num den - f.fractionBits) f.minExponent = e := by
    have hpow : (0 : ℚ) < 2 ^ e := by positivity
    have hupper : (num : ℚ) / den < 2 ^ (e + f.fractionBits + 1) := by
      have hs : (s : ℚ) < 2 ^ ((f.fractionBits : ℤ) + 1) := by
        rw [zpow_add₀ (by norm_num), ← cast_twoPow, zpow_one, mul_comm]
        exact_mod_cast h.lt
      rw [hratio, add_assoc, zpow_add₀ (by norm_num : (2 : ℚ) ≠ 0), mul_comm]
      gcongr
    rcases h.leading with hle | he
    · have hlower : (2 : ℚ) ^ (e + f.fractionBits) ≤ (num : ℚ) / den := by
        have hs : (2 : ℚ) ^ (f.fractionBits : ℤ) ≤ s := by
          rw [← cast_twoPow]
          exact_mod_cast hle
        rw [hratio, zpow_add₀ (by norm_num : (2 : ℚ) ≠ 0), mul_comm]
        gcongr
      rw [logRatio_eq hnum hden hlower hupper]
      have := h.le
      omega
    · have hlog : logRatio num den < e + f.fractionBits + 1 := by
        have hone : (1 : ℚ) < 2 := by norm_num
        exact (zpow_lt_zpow_iff_right₀ hone).mp ((logRatio_bounds hnum hden).1.trans_lt hupper)
      omega
  simp only [hmax, roundScaled_eq hden hratio]

theorem normal_of_bits (f : BinaryFormat) (bits : Nat) :
    f.Normal (f.significand bits) (f.exponent bits) ∧
      f.compose (f.significand bits) (f.exponent bits) = bits := by
  have hpos := twoPow_pos f.fractionBits
  have hdiv := Nat.div_add_mod bits (twoPow f.fractionBits)
  have hmod := Nat.mod_lt bits hpos
  unfold compose significand exponent
  split
  · rename_i hlt
    rw [Nat.div_eq_of_lt hlt]
    refine ⟨⟨by omega, by simp, .inr (by simp)⟩, by simp⟩
  · rename_i hge
    have hone : 1 ≤ bits / twoPow f.fractionBits :=
      (Nat.le_div_iff_mul_le hpos).mpr (by omega)
    refine ⟨⟨by omega, by omega, .inl (by omega)⟩, ?_⟩
    obtain ⟨k, hk⟩ : ∃ k, bits / twoPow f.fractionBits = k + 1 := ⟨_, (Nat.sub_add_cancel hone).symm⟩
    rw [hk, Nat.mul_add, Nat.mul_one] at hdiv
    simp only [hk, Nat.add_sub_cancel, add_sub_cancel_left, Int.toNat_natCast]
    rw [Nat.mul_comm k]
    omega

theorem value_compose (h : f.Normal s e) : f.value (f.compose s e) = s * 2 ^ e := by
  have hpos := twoPow_pos f.fractionBits
  have hlt := h.lt
  have hle := h.le
  by_cases hleading : twoPow f.fractionBits ≤ s
  · obtain ⟨r, rfl⟩ := Nat.exists_eq_add_of_le hleading
    obtain ⟨k, rfl⟩ := Int.le.dest hle
    have hr : r < twoPow f.fractionBits := by omega
    have hbits : f.compose (twoPow f.fractionBits + r) (f.minExponent + k) =
        r + twoPow f.fractionBits * (k + 1) := by
      unfold compose
      rw [add_sub_cancel_left, Int.toNat_natCast]
      ring
    have hdiv : (r + twoPow f.fractionBits * (k + 1)) / twoPow f.fractionBits = k + 1 := by
      rw [Nat.add_mul_div_left _ _ hpos, Nat.div_eq_of_lt hr, Nat.zero_add]
    have hmod : (r + twoPow f.fractionBits * (k + 1)) % twoPow f.fractionBits = r := by
      rw [Nat.add_mul_mod_self_left, Nat.mod_eq_of_lt hr]
    have hge : ¬r + twoPow f.fractionBits * (k + 1) < twoPow f.fractionBits := by
      have := Nat.le_mul_of_pos_right (twoPow f.fractionBits) (show 0 < k + 1 by omega)
      omega
    unfold value significand exponent
    rw [hbits, if_neg hge, hdiv, hmod, Nat.add_sub_cancel, Nat.add_comm r]
  · have he : e = f.minExponent := h.leading.resolve_left hleading
    have hbits : f.compose s e = s := by simp [compose, he]
    unfold value significand exponent
    rw [hbits, if_pos (by omega), Nat.div_eq_of_lt (by omega), he]
    simp

/-- A magnitude of the format comes back from any ratio that stands for it. -/
theorem nearest_of_value (hden : 0 < den) (h : (num : ℚ) / den = f.value bits) :
    f.nearest num den = bits := by
  obtain ⟨hnormal, hbits⟩ := f.normal_of_bits bits
  rw [nearest_eq hnormal hden h, hbits]

/-- The magnitudes of 32 bits are magnitudes of 64 bits: the leading one of the significand is moved
to its place. -/
theorem exists_normal_double (h : bits < single.infinity) :
    ∃ s e, double.Normal s e ∧ single.value bits = s * 2 ^ e ∧
      double.compose s e < double.infinity := by
  obtain ⟨⟨hlt, hle, -⟩, -⟩ := single.normal_of_bits bits
  have hfraction : twoPow single.fractionBits = 8388608 := rfl
  have hminSingle : single.minExponent = -149 := rfl
  have hminDouble : double.minExponent = -1074 := rfl
  have hfractionDouble : twoPow double.fractionBits = 4503599627370496 := rfl
  have hinfinity : single.infinity = 2139095040 := rfl
  have hinfinityDouble : double.infinity = 9218868437227405312 := rfl
  have hexponent : single.exponent bits ≤ 104 := by
    unfold exponent
    rw [hfraction, hminSingle]
    omega
  rw [hfraction] at hlt
  rw [hminSingle] at hle
  by_cases hzero : single.significand bits = 0
  · refine ⟨0, double.minExponent, ⟨?_, Int.le_refl _, .inr rfl⟩, ?_, ?_⟩
    · rw [hfractionDouble]; omega
    · unfold value
      rw [hzero]
      simp
    · unfold compose
      rw [hinfinityDouble]
      simp
  · have hlog : (single.significand bits).log2 ≤ 23 := by
      have := (Nat.log2_lt hzero).mpr (show single.significand bits < 2 ^ 24 by omega)
      omega
    have hself := Nat.log2_self_le hzero
    have hself' : single.significand bits < 2 ^ ((single.significand bits).log2 + 1) :=
      Nat.lt_log2_self
    unfold value
    generalize single.significand bits = s at *
    generalize single.exponent bits = e at *
    obtain ⟨k, hk⟩ : ∃ k, s.log2 + k = 52 := ⟨52 - s.log2, by omega⟩
    have hpow : 0 < 2 ^ k := Nat.two_pow_pos k
    have hlower : 4503599627370496 ≤ s * 2 ^ k :=
      calc 4503599627370496 = 2 ^ s.log2 * 2 ^ k := by rw [← Nat.pow_add, hk]
        _ ≤ s * 2 ^ k := Nat.mul_le_mul_right _ hself
    have hupper : s * 2 ^ k < 9007199254740992 :=
      calc s * 2 ^ k < 2 ^ (s.log2 + 1) * 2 ^ k := Nat.mul_lt_mul_of_pos_right hself' hpow
        _ = 9007199254740992 := by rw [← Nat.pow_add, show s.log2 + 1 + k = 53 by omega]
    refine ⟨s * 2 ^ k, e - k, ⟨?_, ?_, .inl ?_⟩, ?_, ?_⟩
    · rw [hfractionDouble]; omega
    · rw [hminDouble]; omega
    · rw [hfractionDouble]; omega
    · rw [zpow_sub₀ (by norm_num : (2 : ℚ) ≠ 0), zpow_natCast]
      push_cast
      field_simp
    · unfold compose
      rw [hminDouble, hfractionDouble, hinfinityDouble]
      omega

/-- A magnitude of 32 bits is a magnitude of 64 bits, and comes back from it. -/
theorem single_of_double (h : bits < single.infinity) :
    double.nearest (single.ratio bits).1 (single.ratio bits).2 < double.infinity ∧
      single.nearest
        (double.ratio (double.nearest (single.ratio bits).1 (single.ratio bits).2)).1
        (double.ratio (double.nearest (single.ratio bits).1 (single.ratio bits).2)).2 = bits := by
  obtain ⟨s, e, hnormal, hvalue, hlt⟩ := exists_normal_double h
  have hnearest := nearest_eq hnormal (single.ratio_den_pos bits)
    ((single.ratio_eq_value bits).trans hvalue)
  rw [hnearest]
  refine ⟨hlt, nearest_of_value (double.ratio_den_pos _) ?_⟩
  rw [ratio_eq_value, value_compose hnormal, hvalue]

end BinaryFormat

/-! ## Conversions -/

namespace Double

theorem magnitude_ofMagnitude (h : bits < 9223372036854775808) :
    (ofMagnitude negative bits).magnitude = bits := by
  have hpow : twoPow 63 = 9223372036854775808 := rfl
  unfold magnitude ofMagnitude
  rw [hpow]
  simp only [UInt64.toNat_ofNat']
  split <;> omega

theorem isNegative_ofMagnitude (h : bits < 9223372036854775808) :
    (ofMagnitude negative bits).isNegative = negative := by
  have hpow : twoPow 63 = 9223372036854775808 := rfl
  unfold isNegative ofMagnitude
  rw [hpow]
  simp only [UInt64.toNat_ofNat']
  cases negative
  · simp only [Bool.false_eq_true, if_false, decide_eq_false_iff_not]
    omega
  · simp only [if_true, decide_eq_true_eq]
    omega

/-- A number that is no number is still none with 64 bits. -/
theorem isNaN_of_payload {payload : Nat} (h : payload < 8388608) :
    (ofMagnitude negative (BinaryFormat.double.infinity + (payload * twoPow 29 ||| twoPow 51))).isNaN
      = true := by
  have hinfinity : BinaryFormat.double.infinity = 9218868437227405312 := rfl
  have hpow29 : twoPow 29 = 536870912 := rfl
  have hpow51 : twoPow 51 = 2251799813685248 := rfl
  have hlow : twoPow 51 ≤ payload * twoPow 29 ||| twoPow 51 := Nat.right_le_or
  have hhigh : payload * twoPow 29 ||| twoPow 51 < 2 ^ 52 :=
    Nat.or_lt_two_pow (by rw [hpow29]; omega) (by rw [hpow51]; omega)
  unfold isNaN
  rw [magnitude_ofMagnitude (by rw [hinfinity]; omega), decide_eq_true_eq]
  have hpos := twoPow_pos 51
  omega

theorem toSingle?_infinity (negative : Bool) : (infinity negative).toSingle? =
      some ((if negative then twoPow 31 else 0) + BinaryFormat.single.infinity) := by
  cases negative <;> rfl

theorem toSingle?_nearest (h : bits < BinaryFormat.single.infinity) :
    (nearest negative (BinaryFormat.single.ratio bits).1 (BinaryFormat.single.ratio bits).2).toSingle?
      = some ((if negative then twoPow 31 else 0) + bits) := by
  have hinfinity : BinaryFormat.double.infinity = 9218868437227405312 := rfl
  obtain ⟨hlt, hback⟩ := BinaryFormat.single_of_double h
  unfold nearest
  rw [min_eq_left (Nat.le_of_lt hlt)]
  generalize BinaryFormat.double.nearest _ _ = magnitude at hlt hback ⊢
  rw [hinfinity] at hlt
  have hmagnitude : (ofMagnitude negative magnitude).magnitude = magnitude :=
    magnitude_ofMagnitude (by omega)
  have hnegative : (ofMagnitude negative magnitude).isNegative = negative :=
    isNegative_ofMagnitude (by omega)
  unfold toSingle?
  simp only [isNaN, isInfinite, ratio, hmagnitude, hnegative, hback, hinfinity]
  rw [if_neg (by simp; omega), if_neg (by simp; omega), if_pos h]

/-- A number of 32 bits that is a number comes back when it is converted to 64 bits and again to 32
bits. -/
theorem toSingle?_ofSingle (h : (ofSingle n).isNaN = false) :
    ((ofSingle n).toSingle?).map ofSingle = some (ofSingle n) := by
  have hinfinity : BinaryFormat.single.infinity = 2139095040 := rfl
  have hpow31 : twoPow 31 = 2147483648 := rfl
  have hpow32 : twoPow 32 = 4294967296 := rfl
  -- The sign and the magnitude make up the 32 bits that count.
  have hbits : ofSingle ((if decide (twoPow 31 ≤ n % twoPow 32) = true then twoPow 31 else 0) +
      n % twoPow 31) = ofSingle n := by
    have hsum : (if decide (2147483648 ≤ n % 4294967296) = true then 2147483648 else 0) +
        n % 2147483648 = n % 4294967296 := by
      simp only [decide_eq_true_eq]
      split <;> omega
    rw [hpow31, hpow32, hsum]
    unfold ofSingle
    rw [hpow31, hpow32, Nat.mod_mod, Nat.mod_mod_of_dvd n (by decide)]
  suffices hsingle : (ofSingle n).toSingle? =
      some ((if decide (twoPow 31 ≤ n % twoPow 32) = true then twoPow 31 else 0) + n % twoPow 31) by
    rw [hsingle, Option.map_some, hbits]
  unfold ofSingle at h ⊢
  simp only at h ⊢
  split at h
  · -- What is no number stays none.
    rename_i hlt
    rw [isNaN_of_payload (by rw [hpow31, hinfinity]; omega)] at h
    cases h
  · rename_i hle
    rw [if_neg hle]
    split
    · rename_i hinfinite
      rw [toSingle?_infinity, hinfinite]
    · rename_i hfinite
      exact toSingle?_nearest (by omega)

end Double

end Protobind

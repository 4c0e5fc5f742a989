/-!
# Machine words

`word32` and `word64` reduce an integer to the word that stands for it, `signed32` and `signed64`
read a word as a signed number, and the zigzag maps interleave the signed numbers with the unsigned
ones so that numbers near zero stay small.
-/

namespace Protobind

/-- The 32-bit word that stands for `n`. -/
def word32 (n : Int) : Nat := (n % 4294967296).toNat

/-- The 64-bit word that stands for `n`. -/
def word64 (n : Int) : Nat := (n % 18446744073709551616).toNat

/-- The signed number that the lowest 32 bits of `n` stand for. -/
def signed32 (n : Int) : Int := n.bmod 4294967296

/-- The signed number that the lowest 64 bits of `n` stand for. -/
def signed64 (n : Int) : Int := n.bmod 18446744073709551616

/-- The zigzag word of `n` in 32 bits: `0, -1, 1, -2, …` become `0, 1, 2, 3, …`. Bits above the
31st spill into the result when `n` is out of range. -/
def zigzag32 (n : Int) : Nat := word32 (2 * n) ^^^ word32 (n / 2147483648)

/-- The zigzag word of `n` in 64 bits. -/
def zigzag64 (n : Int) : Nat := word64 (2 * n) ^^^ word64 (n / 9223372036854775808)

def unzigzag (w : Nat) : Int := if w % 2 = 0 then (w / 2 : Nat) else -(w / 2 : Nat) - 1

theorem word32_lt (n : Int) : word32 n < 4294967296 := by
  unfold word32; omega

theorem word64_lt (n : Int) : word64 n < 18446744073709551616 := by
  unfold word64; omega

end Protobind

import Mathlib.Data.Nat.Bitwise

/-! Fixed-width machine words as natural numbers, with the masks used to align and slice them. -/

namespace Ccos.Lib

/-- The value an unsigned 64-bit result keeps after overflow. -/
def wrap64 (x : Nat) : Nat :=
  -- Unsigned arithmetic discards every carry out of the top bit.
  x % 2 ^ 64

/-- Bitwise complement of an unsigned 64-bit value. -/
def not64 (x : Nat) : Nat :=
  -- Subtracting from the all-ones word flips every bit of a value below 2^64.
  2 ^ 64 - 1 - x

def sub64 (x y : Nat) : Nat :=
  wrap64 (x + 2 ^ 64 - y)

/-- The value a 32-bit result with a sign keeps after overflow. -/
def wrapInt (x : Int) : Int :=
  x.bmod (2 ^ 32)

theorem toNat_add_one {x : UInt32} (small : x.toNat + 1 < 2 ^ 32) :
    (x + 1).toNat = x.toNat + 1 := by
  rw [UInt32.toNat_add]
  exact Nat.mod_eq_of_lt small

theorem toNat_sub_one {x : UInt32} (positive : 0 < x.toNat) : (x - 1).toNat = x.toNat - 1 :=
  UInt32.toNat_sub_of_le _ _ (UInt32.le_iff_toNat_le.mpr positive)

theorem wrapInt_of_range {x : Int} (low : -2 ^ 31 ≤ x) (high : x < 2 ^ 31) : wrapInt x = x :=
  Int.bmod_eq_of_le (by omega) (by omega)

theorem wrap64_of_lt {x : Nat} (small : x < 2 ^ 64) : wrap64 x = x :=
  Nat.mod_eq_of_lt small

theorem sub64_of_le {x y : Nat} (small : x < 2 ^ 64) (le : y ≤ x) : sub64 x y = x - y := by
  unfold sub64 wrap64
  omega

theorem wrap64_lt (x : Nat) : wrap64 x < 2 ^ 64 :=
  Nat.mod_lt _ (by decide)

/-- Clearing the low bits of a word rounds it down to a multiple of the power of two. -/
theorem land_not64_low {x k : Nat} (small : x < 2 ^ 64) (fits : k ≤ 64) :
    x &&& not64 (2 ^ k - 1) = x / 2 ^ k * 2 ^ k := by
  have positive : 0 < 2 ^ k := Nat.two_pow_pos k
  -- The complement of the low mask is the all-ones word of the remaining width, shifted up.
  have mask : not64 (2 ^ k - 1) = (2 ^ (64 - k) - 1) * 2 ^ k := by
    have split : 2 ^ (64 - k) * 2 ^ k = 2 ^ 64 := by rw [← Nat.pow_add]; congr 1; omega
    have le : 2 ^ k ≤ 2 ^ 64 := Nat.pow_le_pow_right (by decide) fits
    rw [Nat.sub_mul, split, not64]
    omega
  apply Nat.eq_of_testBit_eq
  intro i
  rw [mask, Nat.testBit_and, Nat.testBit_mul_two_pow, Nat.testBit_mul_two_pow,
    Nat.testBit_two_pow_sub_one, Nat.testBit_div_two_pow]
  by_cases low : k ≤ i
  · -- At or above the boundary the mask is one for as long as the word has bits.
    have back : i - k + k = i := by omega
    simp only [low, decide_true, Bool.true_and, back]
    by_cases inside : i < 64
    · simp [show i - k < 64 - k by omega]
    · have high : x.testBit i = false :=
        Nat.testBit_lt_two_pow (Nat.lt_of_lt_of_le small (Nat.pow_le_pow_right (by decide) (by omega)))
      simp [high]
  · simp [low]

theorem land_low (x k : Nat) : x &&& (2 ^ k - 1) = x % 2 ^ k :=
  Nat.and_two_pow_sub_one_eq_mod x k

/-- Keeping one field of a word is that field's value, back at its own position. -/
theorem land_field (x shift width : Nat) :
    x &&& ((2 ^ width - 1) * 2 ^ shift) = x / 2 ^ shift % 2 ^ width * 2 ^ shift := by
  apply Nat.eq_of_testBit_eq
  intro i
  rw [Nat.testBit_and, Nat.testBit_mul_two_pow, Nat.testBit_mul_two_pow,
    Nat.testBit_two_pow_sub_one, Nat.testBit_mod_two_pow, Nat.testBit_div_two_pow]
  by_cases low : shift ≤ i
  · have back : i - shift + shift = i := by omega
    simp only [low, decide_true, Bool.true_and, back]
    exact Bool.and_comm _ _
  · simp [low]

theorem mul_two_pow_lor {high low shift : Nat} (below : low < 2 ^ shift) :
    high * 2 ^ shift ||| low = high * 2 ^ shift + low := by
  rw [Nat.mul_comm]
  exact (Nat.two_pow_add_eq_or_of_lt below high).symm

end Ccos.Lib

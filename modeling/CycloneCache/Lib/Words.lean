import Mathlib.Tactic

/-!
# Rounding a machine word

A size of `w` bits is rounded to a multiple of `2 ^ k` by masking the low
bits away. Rounding down never wraps; rounding up adds `2 ^ k - 1` first and
is the rounding of the number as long as that sum fits the word.
-/

namespace CycloneCache.Lib

variable {w : Nat}

/-- `x & ~(2 ^ k - 1)` -/
def alignDown (k : Nat) (x : BitVec w) : BitVec w := x &&& ~~~(BitVec.ofNat w (2 ^ k - 1))

/-- `(x + (2 ^ k - 1)) & ~(2 ^ k - 1)` -/
def alignUp (k : Nat) (x : BitVec w) : BitVec w := alignDown k (x + BitVec.ofNat w (2 ^ k - 1))

theorem toNat_alignDown (k : Nat) (x : BitVec w) :
    (alignDown k x).toNat = x.toNat / 2 ^ k * 2 ^ k := by
  apply Nat.eq_of_testBit_eq
  intro i
  have hmask : (~~~(BitVec.ofNat w (2 ^ k - 1))).getLsbD i =
      (decide (i < w) && !decide (i < k)) := by
    rw [BitVec.getLsbD_not, BitVec.getLsbD_ofNat, Nat.testBit_two_pow_sub_one]
    cases decide (i < w) <;> rfl
  rw [alignDown, BitVec.testBit_toNat, BitVec.getLsbD_and, hmask, Nat.mul_comm,
    Nat.testBit_two_pow_mul, Nat.testBit_div_two_pow]
  by_cases hki : i < k
  · simp [hki, Nat.not_le.mpr hki]
  · have hle : k ≤ i := Nat.le_of_not_lt hki
    rw [Nat.sub_add_cancel hle, BitVec.testBit_toNat]
    by_cases hw : i < w
    · simp [hw, hki, hle]
    · simp [BitVec.getLsbD_of_ge x i (Nat.le_of_not_lt hw)]

theorem toNat_alignUp {k : Nat} {x : BitVec w} (h : x.toNat + (2 ^ k - 1) < 2 ^ w) :
    (alignUp k x).toNat = (x.toNat + (2 ^ k - 1)) / 2 ^ k * 2 ^ k := by
  have hmask : (BitVec.ofNat w (2 ^ k - 1)).toNat = 2 ^ k - 1 := by
    rw [BitVec.toNat_ofNat, Nat.mod_eq_of_lt (by omega)]
  rw [alignUp, toNat_alignDown, BitVec.toNat_add, hmask, Nat.mod_eq_of_lt h]

end CycloneCache.Lib

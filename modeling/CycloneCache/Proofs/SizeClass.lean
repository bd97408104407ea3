import CycloneCache.Proofs.Inserts

namespace CycloneCache.Ref

open DirEntry

section Classes

variable {n n' : Nat}

theorem approxSizeOf_eq (n : Nat) :
    approxSizeOf n = (blocksFor n - 1 + 1) * kBlockSize * 2 ^ bigFor n := rfl

theorem le_approxSizeOf (n : Nat) : min n 262144 ≤ approxSizeOf n := by
  simp only [approxSizeOf_eq, blocksFor, kBlockSize]
  rcases bigFor_cases n with ⟨h, hn⟩ | ⟨h, hn⟩ | ⟨h, hn⟩ | ⟨h, hn⟩ <;> rw [h] <;> omega

theorem approxSizeOf_lt (hpos : 0 < n) (hle : n ≤ 262144) :
    approxSizeOf n < n + kBlockSize * 2 ^ bigFor n := by
  simp only [approxSizeOf_eq, blocksFor, kBlockSize]
  rcases bigFor_cases n with ⟨h, -⟩ | ⟨h, -⟩ | ⟨h, -⟩ | ⟨h, -⟩ <;> rw [h] <;> omega

theorem approxSizeOf_least {k : Nat} (h : n ≤ (k + 1) * (kBlockSize * 2 ^ bigFor n)) :
    approxSizeOf n ≤ (k + 1) * (kBlockSize * 2 ^ bigFor n) := by
  simp only [approxSizeOf_eq, blocksFor, kBlockSize] at h ⊢
  rcases bigFor_cases n with ⟨hb, -⟩ | ⟨hb, -⟩ | ⟨hb, -⟩ | ⟨hb, -⟩ <;> rw [hb] at h ⊢ <;> omega

/-- Two sizes are in one class, or all of the lower class is below the other. -/
theorem approxSizeOf_mono (h : n ≤ n') : approxSizeOf n ≤ approxSizeOf n' := by
  simp only [approxSizeOf_eq, blocksFor, kBlockSize]
  rcases bigFor_cases n with ⟨hb, hn⟩ | ⟨hb, hn⟩ | ⟨hb, hn⟩ | ⟨hb, hn⟩ <;> rw [hb] <;>
    rcases bigFor_cases n' with ⟨hb', hn'⟩ | ⟨hb', hn'⟩ | ⟨hb', hn'⟩ | ⟨hb', hn'⟩ <;>
      rw [hb'] <;> omega

end Classes

namespace PackedEntry

variable {bytes : BitVec 64}

theorem bigLoop_eq (bytes : BitVec 64) : bigLoop bytes 0 = bigFor bytes.toNat := by
  have hreach : ∀ b, b ≤ 3 → ((63 + 1) * 512 * (1#64 <<< b) : BitVec 64).toNat = 32768 * 2 ^ b := by
    decide
  simp only [bigFor, kBlockSize]
  rw [bigLoop, bigLoop, bigLoop, bigLoop]
  simp only [gt_iff_lt, BitVec.lt_def]
  grind

theorem toNat_blocks (h : bytes.toNat + 4095 < 2 ^ 64) {b : Nat} (hb : b ≤ 3) :
    ((bytes + 512#64 <<< b - 1) / 512#64 <<< b).toNat =
      (bytes.toNat + 512 * 2 ^ b - 1) / (512 * 2 ^ b) := by
  have hsize : (512#64 <<< b).toNat = 512 * 2 ^ b := by
    interval_cases b <;> rfl
  have hle : 2 ^ b ≤ 2 ^ 3 := Nat.pow_le_pow_right (by decide) hb
  have hpos := Nat.two_pow_pos b
  have hone : (1 : BitVec 64).toNat = 1 := rfl
  rw [BitVec.toNat_udiv, BitVec.toNat_sub, BitVec.toNat_add, hsize, hone]
  congr 1
  omega

/-- The cap on the number of blocks keeps it a byte. -/
theorem toNat_capped (blocks : BitVec 64) :
    let atLeast := if blocks = 0 then 1 else blocks
    (((if atLeast > 64 then 64 else atLeast) - 1).setWidth 8).toNat =
      min (max blocks.toNat 1) 64 - 1 := by
  intro atLeast
  have hmax : atLeast.toNat = max blocks.toNat 1 := by
    simp only [atLeast]
    split
    · next hnone =>
      rw [hnone]
      rfl
    · next hsome =>
      have : blocks.toNat ≠ 0 := fun h => hsome (BitVec.eq_of_toNat_eq h)
      omega
  split
  · next hmany =>
    have : 64 < atLeast.toNat := hmany
    rw [← hmax, Nat.min_eq_right (by omega)]
    rfl
  · next hfew =>
    have hle : atLeast.toNat ≤ 64 := Nat.le_of_not_lt hfew
    rw [BitVec.toNat_setWidth, BitVec.toNat_sub_of_le (BitVec.le_def.mpr (by simp; omega))]
    simp
    omega

theorem storeApproxSize_eq (e : PackedEntry) (h : bytes.toNat + 4095 < 2 ^ 64) :
    e.storeApproxSize bytes = e.setApproxSize bytes.toNat := by
  have hle : bigFor bytes.toNat ≤ 3 := by
    rcases bigFor_cases bytes.toNat with h | h | h | h <;> omega
  simp only [storeApproxSize, setApproxSize, bigLoop_eq, blocksFor, kBlockSize]
  rw [← toNat_blocks h hle, toNat_capped]

theorem toNat_approxSize (e : PackedEntry) (bytes : Nat) :
    (e.setApproxSize bytes).approxSize.toNat = approxSizeOf bytes := by
  have hblocks : blocksFor bytes ≤ 64 := Nat.min_le_right _ _
  simp only [approxSize, approxSizeOf_eq, kBlockSize, big_setApproxSize, size_setApproxSize]
  rcases bigFor_cases bytes with ⟨hb, -⟩ | ⟨hb, -⟩ | ⟨hb, -⟩ | ⟨hb, -⟩ <;> rw [hb] <;>
    simp [Nat.shiftLeft_eq] <;> omega

/-- What `set_approx_size` leaves as it was, and what the size it stores is: not
below the size it is given, the least multiple of its block size that is not,
and larger for a larger size. -/
theorem size_classes (e : PackedEntry) (bytes : BitVec 64) (h : bytes.toNat + 4095 < 2 ^ 64) :
    let e' := e.storeApproxSize bytes
    let blockSize := 512 * 2 ^ e'.big
    (e'.offset = e.offset ∧ e'.tag = e.tag ∧ e'.phase = e.phase ∧ e'.head = e.head ∧
      e'.pinned = e.pinned ∧ e'.fillSerial = e.fillSerial) ∧
    min bytes.toNat 262144 ≤ e'.approxSize.toNat ∧
    (0 < bytes.toNat → bytes.toNat ≤ 262144 →
      e'.approxSize.toNat < bytes.toNat + blockSize) ∧
    ((∃ k < 64, e'.approxSize.toNat = (k + 1) * blockSize) ∧
      ∀ k, bytes.toNat ≤ (k + 1) * blockSize → e'.approxSize.toNat ≤ (k + 1) * blockSize) ∧
    ∀ (other : PackedEntry) (more : BitVec 64), bytes ≤ more → more.toNat + 4095 < 2 ^ 64 →
      e'.approxSize ≤ (other.storeApproxSize more).approxSize := by
  simp only [storeApproxSize_eq _ h, big_setApproxSize, toNat_approxSize]
  refine ⟨⟨offset_setApproxSize _ _, rfl, rfl, rfl, rfl, rfl⟩, le_approxSizeOf _,
    approxSizeOf_lt, ⟨⟨blocksFor bytes.toNat - 1, ?_, ?_⟩, fun k => approxSizeOf_least⟩, ?_⟩
  · have : blocksFor bytes.toNat ≤ 64 := Nat.min_le_right _ _
    omega
  · exact Nat.mul_assoc _ _ _
  · intro other more hle hmore
    rw [storeApproxSize_eq _ hmore, BitVec.le_def, toNat_approxSize, toNat_approxSize]
    exact approxSizeOf_mono (BitVec.le_def.mp hle)

/-- One byte more than 64 small blocks hold. -/
theorem size_classes_two : ((⟨1, 2, 3, 4, 5⟩ : PackedEntry).storeApproxSize 32769).approxSize = 33792 ∧
    ((⟨1, 2, 3, 4, 5⟩ : PackedEntry).storeApproxSize 32769).offset = 84017153 :=
  ⟨by decide +kernel, (size_classes ⟨1, 2, 3, 4, 5⟩ 32769 (by decide)).1.1.trans (by decide)⟩

end PackedEntry

end CycloneCache.Ref

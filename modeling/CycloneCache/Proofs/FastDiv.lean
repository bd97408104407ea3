import CycloneCache.Ref.FastDiv

namespace CycloneCache.Ref.FastDivU64

variable {d : BitVec 64}

/-- The carries of the cross products are not lost: their sum fits a word. -/
theorem cross_lt {x y z : Nat} (hx : x < 2 ^ 32) (hy : y < 2 ^ 32) (hz : z < 2 ^ 64) (w : Nat) :
    z / 2 ^ 32 + w % 2 ^ 32 + x * y < 2 ^ 64 := by
  have : x * y ≤ (2 ^ 32 - 1) * (2 ^ 32 - 1) := Nat.mul_le_mul (by omega) (by omega)
  omega

theorem toNat_mulhiPortable (a b : BitVec 64) :
    (mulhiPortable a b).toNat = a.toNat * b.toNat / 2 ^ 64 := by
  have ha := a.isLt
  have hb := b.isLt
  have hlo : ∀ w : BitVec 64, (w &&& 0xFFFFFFFF#64).toNat = w.toNat % 2 ^ 32 := by
    intro w
    rw [BitVec.toNat_and]
    exact Nat.and_two_pow_sub_one_eq_mod w.toNat 32
  simp only [mulhiPortable, BitVec.toNat_add, BitVec.toNat_mul, BitVec.toNat_ushiftRight, hlo,
    Nat.shiftRight_eq_div_pow]
  generalize hah : a.toNat / 2 ^ 32 = ah
  generalize hal : a.toNat % 2 ^ 32 = al
  generalize hbh : b.toNat / 2 ^ 32 = bh
  generalize hbl : b.toNat % 2 ^ 32 = bl
  have hlt : ∀ {x y : Nat}, x < 2 ^ 32 → y < 2 ^ 32 → x * y < 2 ^ 64 := by
    intro x y hx hy
    exact Nat.mul_lt_mul'' (c := 2 ^ 32) (d := 2 ^ 32) hx hy
  have hll : al * bl < 2 ^ 64 := hlt (by omega) (by omega)
  have hcross := cross_lt (x := al) (y := bh) (by omega) (by omega) hll (ah * bl)
  have hprod : a.toNat * b.toNat =
      ah * bh * 2 ^ 64 + (ah * bl + al * bh) * 2 ^ 32 + al * bl := by
    rw [show a.toNat = ah * 2 ^ 32 + al by omega, show b.toNat = bh * 2 ^ 32 + bl by omega]
    ring
  have hhigh : ah * bh + ah * bl / 2 ^ 32 + (al * bl / 2 ^ 32 + ah * bl % 2 ^ 32 + al * bh) / 2 ^ 32 =
      a.toNat * b.toNat / 2 ^ 64 := by omega
  have hfits : a.toNat * b.toNat / 2 ^ 64 < 2 ^ 64 :=
    Nat.div_lt_of_lt_mul (Nat.mul_lt_mul'' ha hb)
  have hhl : ah * bl < 2 ^ 64 := hlt (by omega) (by omega)
  have hlh : al * bh < 2 ^ 64 := hlt (by omega) (by omega)
  have hhh : ah * bh < 2 ^ 64 := hlt (by omega) (by omega)
  simp only [Nat.mod_eq_of_lt hll, Nat.mod_eq_of_lt hhl, Nat.mod_eq_of_lt hlh, Nat.mod_eq_of_lt hhh]
  omega

theorem toNat_mulhi (target : Target) (a b : BitVec 64) :
    (mulhi target a b).toNat = a.toNat * b.toNat / 2 ^ 64 := by
  have hprod : a.toNat * b.toNat < 2 ^ 64 * 2 ^ 64 := Nat.mul_lt_mul'' a.isLt b.isLt
  have hhigh := Nat.div_lt_of_lt_mul hprod
  cases target with
  | umulh =>
    rw [mulhi, BitVec.toNat_ofNat, Nat.mod_eq_of_lt hhigh]
  | int128 =>
    have ha := a.isLt
    have hb := b.isLt
    simp only [mulhi, BitVec.toNat_setWidth, BitVec.toNat_ushiftRight, BitVec.toNat_mul,
      Nat.shiftRight_eq_div_pow]
    rw [Nat.mod_eq_of_lt (a := a.toNat) (by omega), Nat.mod_eq_of_lt (a := b.toNat) (by omega),
      Nat.mod_eq_of_lt (b := 2 ^ 128) hprod, Nat.mod_eq_of_lt hhigh]
  | portable => exact toNat_mulhiPortable a b

/-- The reciprocal `m` is short of `w / d` by less than one, so what it makes of
`n` is short of the quotient by at most one. -/
theorem reciprocal_bounds {w d m n q : Nat} (hn : n < w) (hm : m * d < w) (hm' : w ≤ m * d + d)
    (hq : q * w ≤ n * m) (hq' : n * m < (q + 1) * w) : q * d ≤ n ∧ n < (q + 2) * d := by
  have hw : 0 < w := by omega
  have hd : 0 < d := by omega
  constructor
  · refine Nat.le_of_mul_le_mul_right ?_ hw
    calc q * d * w = q * w * d := by ring
      _ ≤ n * m * d := Nat.mul_le_mul_right d hq
      _ = n * (m * d) := by ring
      _ ≤ n * w := Nat.mul_le_mul_left n hm.le
  · refine Nat.lt_of_mul_lt_mul_right (a := w) ?_
    calc n * w ≤ n * (m * d + d) := Nat.mul_le_mul_left n hm'
      _ = n * m * d + n * d := by ring
      _ < (q + 1) * w * d + w * d :=
          Nat.add_lt_add (Nat.mul_lt_mul_of_pos_right hq' hd) (Nat.mul_lt_mul_of_pos_right hn hd)
      _ = (q + 2) * d * w := by ring

theorem mulhi_reciprocal (target : Target) (hd : 1 ≤ d.toNat) (n : BitVec 64) :
    let q := (mulhi target n (~~~0#64 / d)).toNat
    q * d.toNat ≤ n.toNat ∧ n.toNat < (q + 2) * d.toNat := by
  intro q
  have hm : (~~~0#64 / d).toNat = (2 ^ 64 - 1) / d.toNat := rfl
  have hq : q = n.toNat * ((2 ^ 64 - 1) / d.toNat) / 2 ^ 64 := by
    rw [← hm]
    exact toNat_mulhi target n _
  generalize hr : (2 ^ 64 - 1) / d.toNat = m at hq
  have hmd := Nat.div_mul_le_self (2 ^ 64 - 1) d.toNat
  have hmd' := Nat.lt_div_mul_add (a := 2 ^ 64 - 1) hd
  rw [hr] at hmd hmd'
  refine reciprocal_bounds n.isLt (m := m) (by omega) (by omega) ?_ ?_
  · rw [hq]
    exact Nat.div_mul_le_self _ _
  · rw [hq, Nat.mul_comm (_ + 1)]
    exact Nat.lt_mul_div_succ _ (Nat.two_pow_pos 64)

theorem quot_eq (target : Target) (hd : 1 ≤ d) (n : BitVec 64) :
    (ofDivisor d).quot target n = n / d := by
  have hpos : 1 ≤ d.toNat := hd
  have hne : d ≠ 0 := by
    rintro rfl
    cases hpos
  simp only [ofDivisor, quot, if_neg hne]
  split
  · next hone =>
    rw [hone]
    exact BitVec.udiv_one.symm
  · next hmore =>
    rw [if_neg fun hle => hmore (BitVec.le_antisymm hle hd)]
    obtain ⟨hle, hlt⟩ := mulhi_reciprocal target hpos n
    generalize mulhi target n (~~~0#64 / d) = q at hle hlt ⊢
    have hn := n.isLt
    have hmul : (q * d).toNat = q.toNat * d.toNat := by
      rw [BitVec.toNat_mul, Nat.mod_eq_of_lt (by omega)]
    have hrest : (n - q * d).toNat = n.toNat - q.toNat * d.toNat := by
      rw [BitVec.toNat_sub_of_le (BitVec.le_def.mpr (hmul ▸ hle)), hmul]
    apply BitVec.eq_of_toNat_eq
    rw [BitVec.toNat_udiv]
    rw [Nat.add_mul] at hlt
    split
    · next hshort =>
      have hshort' := hrest ▸ BitVec.le_def.mp hshort
      have hquot : n.toNat / d.toNat = q.toNat + 1 := by
        rw [Nat.div_eq_iff hpos, Nat.add_mul]
        omega
      have hfits := (n / d).isLt
      rw [BitVec.toNat_udiv, hquot] at hfits
      rw [hquot, BitVec.toNat_add]
      exact Nat.mod_eq_of_lt hfits
    · next henough =>
      have henough' := hrest ▸ mt BitVec.le_def.mpr henough
      rw [eq_comm, Nat.div_eq_iff hpos]
      omega

/-- The quotient is exact for every divisor and every number, on every target,
and the portable product is the high word. -/
theorem fast_division : (∀ (target : Target) (d n : BitVec 64), 1 ≤ d →
      (ofDivisor d).quot target n = n / d) ∧
    ∀ a b : BitVec 64, (mulhiPortable a b).toNat = a.toNat * b.toNat / 2 ^ 64 :=
  ⟨fun target _ n hd => quot_eq target hd n, toNat_mulhiPortable⟩

/-- The largest number by the number of chunks and one. -/
theorem fast_division_frontier :
    (ofDivisor 65).quot .portable (BitVec.allOnes 64) = BitVec.allOnes 64 / 65 :=
  fast_division.1 .portable 65 _ (by decide)

/-- No word wraps: what is read is the geometry's own division. -/
theorem snapshot_words (target : Target) (st : Stripe) (gen : BitVec 64) :
    (snapshot target st gen).1.toNat = st.passOf gen.toNat ∧
      (snapshot target st gen).2.toNat = st.frontierOf gen.toNat := by
  have hle : st.chunks ≤ 64 := st.chunks_le
  have hn : (BitVec.ofNat 64 st.chunks).toNat = st.chunks := Nat.mod_eq_of_lt (by omega)
  have hd : (BitVec.ofNat 64 st.chunks + 1).toNat = st.chunks + 1 := by
    rw [BitVec.toNat_add, hn]
    exact Nat.mod_eq_of_lt (show st.chunks + 1 < _ by omega)
  have hpos : 1 ≤ BitVec.ofNat 64 st.chunks + 1 := by
    rw [BitVec.le_def, hd]
    exact Nat.succ_pos _
  have hgen := gen.isLt
  have hdiv := Nat.div_add_mod' gen.toNat (st.chunks + 1)
  simp only [snapshot, quot_eq target hpos, Stripe.passOf, Stripe.frontierOf, BitVec.lt_def,
    apply_ite BitVec.toNat, BitVec.toNat_sub, BitVec.toNat_mul, BitVec.toNat_udiv, hd, hn, true_and]
  split <;> omega

end CycloneCache.Ref.FastDivU64

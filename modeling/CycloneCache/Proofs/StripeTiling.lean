import CycloneCache.Lib.Tiling
import CycloneCache.Ref.StripeTiling

namespace CycloneCache.Ref.StripeTiling

open Lib
open Volume (kVolumeHeaderSize kDirectoryEntriesPerSegment kAutoStripeGranularity
  kAutoStripeTarget kMinStripeSize kStripeAlign)

theorem toNat_sizeT {n : Nat} (h : n < 2 ^ 64) : (sizeT n).toNat = n := by
  rw [sizeT, BitVec.toNat_ofNat, Nat.mod_eq_of_lt h]

theorem toNat_maxSize (a b : SizeT) : (maxSize a b).toNat = max a.toNat b.toNat := by
  simp only [maxSize, BitVec.lt_def]
  split <;> omega

theorem toNat_clampSize {v lo hi : SizeT} (h : lo.toNat ≤ hi.toNat) :
    (clampSize v lo hi).toNat = min (max v.toNat lo.toNat) hi.toNat := by
  simp only [clampSize, BitVec.lt_def]
  split
  · omega
  · split <;> omega

theorem toNat_pageFloor (x : SizeT) : (pageFloor x).toNat = x.toNat / kStripeAlign * kStripeAlign :=
  toNat_alignDown 12 x

theorem toNat_sub_of_le {a b : SizeT} (h : b.toNat ≤ a.toNat) : (a - b).toNat = a.toNat - b.toNat :=
  BitVec.toNat_sub_of_le (BitVec.le_def.mpr h)

theorem toNat_add_of_lt {a b : SizeT} (h : a.toNat + b.toNat < 2 ^ 64) :
    (a + b).toNat = a.toNat + b.toNat := by
  rw [BitVec.toNat_add, Nat.mod_eq_of_lt h]

theorem toNat_mul_of_lt {a b : SizeT} (h : a.toNat * b.toNat < 2 ^ 64) :
    (a * b).toNat = a.toNat * b.toNat := by
  rw [BitVec.toNat_mul, Nat.mod_eq_of_lt h]

theorem toNat_eq_zero {a : SizeT} : a.toNat = 0 ↔ a = 0 :=
  ⟨fun h => BitVec.eq_of_toNat_eq (by simpa using h), fun h => by rw [h]; rfl⟩

def Geometry.numbers (g : Geometry) : Volume.StripeGeometry where
  numStripes := g.numStripes.toNat
  baseStripeSize := g.baseStripeSize.toNat
  stripeRemainder := g.stripeRemainder.toNat

theorem floor_mul_le (usable num unit : Nat) : usable / num / unit * unit * num ≤ usable := by
  have hfloor : usable / num / unit * unit ≤ usable / num := Nat.div_mul_le_self _ _
  exact le_trans (Nat.mul_le_mul_right num hfloor) (Nat.div_mul_le_self usable num)

section Geometry

variable {volumeSize explicitStripeSize : SizeT}

theorem toNat_usable (hsize : kVolumeHeaderSize < volumeSize.toNat) :
    (volumeSize - sizeT kVolumeHeaderSize).toNat = volumeSize.toNat - kVolumeHeaderSize := by
  have hheader : (sizeT kVolumeHeaderSize).toNat = kVolumeHeaderSize := toNat_sizeT (by decide)
  rw [toNat_sub_of_le (by omega), hheader]

theorem geometry_numbers (hsize : kVolumeHeaderSize < volumeSize.toNat)
    (hwrap : volumeSize.toNat - kVolumeHeaderSize + kAutoStripeGranularity / 2 < 2 ^ 64) :
    (computeStripeGeometry volumeSize explicitStripeSize).numbers =
      Volume.computeStripeGeometry volumeSize.toNat explicitStripeSize.toNat := by
  have husable := toNat_usable hsize
  simp only [computeStripeGeometry, Volume.computeStripeGeometry, ← husable]
  rw [← husable] at hwrap
  generalize volumeSize - sizeT kVolumeHeaderSize = usable at hwrap
  by_cases hauto : explicitStripeSize = 0
  · rw [if_pos hauto, if_pos (toNat_eq_zero.mpr hauto)]
    have hhalf : (sizeT (kAutoStripeGranularity / 2)).toNat = kAutoStripeGranularity / 2 :=
      toNat_sizeT (by decide)
    have hcount : (clampSize ((usable + sizeT (kAutoStripeGranularity / 2)) /
        sizeT kAutoStripeGranularity) 1 (sizeT kAutoStripeTarget)).toNat =
        min (max ((usable.toNat + kAutoStripeGranularity / 2) / kAutoStripeGranularity) 1)
          kAutoStripeTarget := by
      rw [toNat_clampSize (by decide), BitVec.toNat_udiv, toNat_add_of_lt (by rw [hhalf]; omega),
        hhalf, toNat_sizeT (by decide), toNat_sizeT (by decide)]
      rfl
    generalize clampSize _ _ _ = num at hcount
    rw [← hcount]
    have hbase : (pageFloor (usable / num)).toNat =
        usable.toNat / num.toNat / kStripeAlign * kStripeAlign := by
      rw [toNat_pageFloor, BitVec.toNat_udiv]
    have hfits := floor_mul_le usable.toNat num.toNat kStripeAlign
    rw [← hbase] at hfits ⊢
    generalize pageFloor (usable / num) = base at hfits
    by_cases hzero : base = 0
    · rw [if_pos hzero, if_pos (toNat_eq_zero.mpr hzero)]
      rfl
    · rw [if_neg hzero, if_neg (mt toNat_eq_zero.mp hzero)]
      have hmul : (base * num).toNat = base.toNat * num.toNat := toNat_mul_of_lt (by omega)
      have hrest : (usable - base * num).toNat = usable.toNat - base.toNat * num.toNat := by
        rw [toNat_sub_of_le (by omega), hmul]
      simp only [Geometry.numbers, hrest]
  · rw [if_neg hauto, if_neg (mt toNat_eq_zero.mp hauto)]
    have hbase : (pageFloor (maxSize explicitStripeSize (sizeT kMinStripeSize))).toNat =
        max explicitStripeSize.toNat kMinStripeSize / kStripeAlign * kStripeAlign := by
      rw [toNat_pageFloor, toNat_maxSize, toNat_sizeT (by decide)]
    rw [← hbase]
    generalize pageFloor _ = base
    rw [← BitVec.toNat_udiv]
    by_cases hzero : usable / base = 0
    · rw [if_pos hzero, if_pos (toNat_eq_zero.mpr hzero)]
      rfl
    · rw [if_neg hzero, if_neg (mt toNat_eq_zero.mp hzero)]
      rfl

end Geometry

structure Cuts (size explicitSize : Nat) (g : Volume.StripeGeometry) : Prop where
  some_stripe : 0 < g.numStripes
  fits : g.numStripes * g.baseStripeSize + g.stripeRemainder ≤ size - kVolumeHeaderSize
  /-- A stripe that is not the first starts behind whole pages. -/
  aligned : g.numStripes = 1 ∨ g.baseStripeSize % 8 = 0
  auto : explicitSize = 0 →
    g.numStripes * g.baseStripeSize + g.stripeRemainder = size - kVolumeHeaderSize ∧
      g.numStripes ≤ kAutoStripeTarget
  explicit : explicitSize ≠ 0 → g.stripeRemainder = 0 ∧
    size - kVolumeHeaderSize - g.numStripes * g.baseStripeSize < g.baseStripeSize

theorem floor_mod_eight (n : Nat) : n / kStripeAlign * kStripeAlign % 8 = 0 := by
  simp only [kStripeAlign]
  omega

theorem cuts_whole {size explicitSize : Nat} (hsize : kVolumeHeaderSize < size) :
    Cuts size explicitSize ⟨1, size - kVolumeHeaderSize, 0⟩ := by
  constructor
  · exact Nat.one_pos
  · show 1 * (size - kVolumeHeaderSize) + 0 ≤ size - kVolumeHeaderSize
    omega
  · exact .inl rfl
  · intro _
    refine ⟨?_, show 1 ≤ kAutoStripeTarget by decide⟩
    show 1 * (size - kVolumeHeaderSize) + 0 = size - kVolumeHeaderSize
    omega
  · intro _
    refine ⟨rfl, ?_⟩
    show size - kVolumeHeaderSize - 1 * (size - kVolumeHeaderSize) < size - kVolumeHeaderSize
    omega

theorem geometry_cuts {size explicitSize : Nat} (hsize : kVolumeHeaderSize < size) :
    Cuts size explicitSize (Volume.computeStripeGeometry size explicitSize) := by
  simp only [Volume.computeStripeGeometry]
  split
  · next hauto =>
    split
    · exact cuts_whole hsize
    · have hcount : 0 < min (max ((size - kVolumeHeaderSize + kAutoStripeGranularity / 2) /
          kAutoStripeGranularity) 1) kAutoStripeTarget ∧
          min (max ((size - kVolumeHeaderSize + kAutoStripeGranularity / 2) /
            kAutoStripeGranularity) 1) kAutoStripeTarget ≤ kAutoStripeTarget := by
        simp only [kAutoStripeTarget]
        omega
      generalize min _ kAutoStripeTarget = num at hcount
      have hfits := floor_mul_le (size - kVolumeHeaderSize) num kStripeAlign
      have haligned := floor_mod_eight ((size - kVolumeHeaderSize) / num)
      generalize (size - kVolumeHeaderSize) / num / kStripeAlign * kStripeAlign = base at *
      have hswap : num * base = base * num := Nat.mul_comm num base
      have hsum : num * base + (size - kVolumeHeaderSize - base * num) =
          size - kVolumeHeaderSize := by omega
      exact ⟨hcount.1, Nat.le_of_eq hsum, .inr haligned, fun _ => ⟨hsum, hcount.2⟩,
        fun h => absurd hauto h⟩
  · next hexplicit =>
    split
    · exact cuts_whole hsize
    · next hsome =>
      have haligned := floor_mod_eight (max explicitSize kMinStripeSize)
      generalize max explicitSize kMinStripeSize / kStripeAlign * kStripeAlign = base at *
      have hbase : 0 < base := by
        rcases Nat.eq_zero_or_pos base with rfl | hbase
        · exact absurd (Nat.div_zero _) hsome
        · exact hbase
      have hrest := Nat.mod_lt (size - kVolumeHeaderSize) hbase
      have hdiv := Nat.div_add_mod (size - kVolumeHeaderSize) base
      have hswap := Nat.mul_comm base ((size - kVolumeHeaderSize) / base)
      have hinside : (size - kVolumeHeaderSize) / base * base + 0 ≤ size - kVolumeHeaderSize := by
        omega
      have htail : size - kVolumeHeaderSize - (size - kVolumeHeaderSize) / base * base <
          base := by omega
      exact ⟨Nat.pos_of_ne_zero hsome, hinside, .inr haligned,
        fun h => absurd h hexplicit, fun _ => ⟨rfl, htail⟩⟩

def Extent.start (s : Extent) : Nat := s.offset.toNat

def Extent.bytes (s : Extent) : Nat := s.size.toNat

def reach (g : Geometry) (left : Nat) : Nat :=
  left * g.baseStripeSize.toNat + if left = 0 then 0 else g.stripeRemainder.toNat

theorem stripesFrom_length (g : Geometry) (left i : Nat) (offset : SizeT) :
    (stripesFrom g left i offset).length = left := by
  induction left generalizing i offset with
  | zero => rfl
  | succ left ih => rw [stripesFrom, List.length_cons, ih]

section Loop

variable {g : Geometry} {left i : Nat} {offset : SizeT}

theorem stripe_head (hi : i + (left + 1) = g.numStripes.toNat)
    (hend : offset.toNat + reach g (left + 1) < 2 ^ 64) :
    let size := g.baseStripeSize + if i + 1 = g.numStripes.toNat then g.stripeRemainder else 0
    g.baseStripeSize.toNat ≤ size.toNat ∧ size.toNat + reach g left = reach g (left + 1) ∧
      (left ≠ 0 → size.toNat = g.baseStripeSize.toNat) ∧
      (offset + size).toNat = offset.toNat + size.toNat := by
  intro size
  have hreach : reach g (left + 1) =
      left * g.baseStripeSize.toNat + g.baseStripeSize.toNat + g.stripeRemainder.toNat := by
    rw [reach, if_neg (Nat.succ_ne_zero left), Nat.succ_mul]
  have hsize : size.toNat =
      g.baseStripeSize.toNat + if left = 0 then g.stripeRemainder.toNat else 0 := by
    show (g.baseStripeSize + if i + 1 = g.numStripes.toNat then g.stripeRemainder else 0).toNat = _
    rcases Nat.eq_zero_or_pos left with rfl | hpos
    · rw [if_pos hi, if_pos rfl, toNat_add_of_lt (by omega)]
    · rw [if_neg (by omega), if_neg (by omega), Nat.add_zero]
      exact congrArg BitVec.toNat (BitVec.add_zero _)
  have hrest : size.toNat + reach g left = reach g (left + 1) := by
    rw [hreach, hsize, reach]
    split
    · next h =>
      rw [h]
      omega
    · omega
  refine ⟨by omega, hrest, fun h => ?_, toNat_add_of_lt (by omega)⟩
  rw [hsize, if_neg h, Nat.add_zero]

theorem stripesFrom_tiles (hi : i + left = g.numStripes.toNat)
    (hend : offset.toNat + reach g left < 2 ^ 64) :
    Tiles Extent.start Extent.bytes offset.toNat (stripesFrom g left i offset)
      (offset.toNat + reach g left) := by
  induction left generalizing i offset with
  | zero =>
    show offset.toNat = offset.toNat + reach g 0
    rw [reach, Nat.zero_mul, if_pos rfl, Nat.add_zero]
  | succ left ih =>
    obtain ⟨-, hrest, -, hnext⟩ := stripe_head hi hend
    refine ⟨rfl, ?_⟩
    have htail := ih (show i + 1 + left = g.numStripes.toNat by omega)
      (by rw [hnext, Nat.add_assoc, hrest]; exact hend)
    rw [hnext, Nat.add_assoc, hrest] at htail
    exact htail

theorem stripesFrom_mem (hi : i + left = g.numStripes.toNat)
    (hend : offset.toNat + reach g left < 2 ^ 64) :
    ∀ s ∈ stripesFrom g left i offset,
      (∃ j < left, s.start = offset.toNat + j * g.baseStripeSize.toNat) ∧
        g.baseStripeSize.toNat ≤ s.bytes := by
  induction left generalizing i offset with
  | zero => nofun
  | succ left ih =>
    obtain ⟨hsize, hrest, hbase, hnext⟩ := stripe_head hi hend
    intro s hs
    rcases List.mem_cons.mp hs with rfl | hs
    · exact ⟨⟨0, Nat.succ_pos left, by rw [Nat.zero_mul]; rfl⟩, hsize⟩
    · obtain ⟨⟨j, hj, hstart⟩, hbytes⟩ := ih (show i + 1 + left = g.numStripes.toNat by omega)
        (by rw [hnext, Nat.add_assoc, hrest]; exact hend) s hs
      refine ⟨⟨j + 1, by omega, ?_⟩, hbytes⟩
      rw [hstart, hnext, hbase (by omega), Nat.succ_mul]
      omega

end Loop

theorem toNat_stripeDirectorySpan (mmapDirectory : Bool) :
    (stripeDirectorySpan mmapDirectory + sizeT kHeaderSize).toNat =
      Volume.stripeDirectorySpan mmapDirectory + kHeaderSize := by
  cases mmapDirectory <;> decide +kernel

theorem fits_spec {volumeSize explicitStripeSize : SizeT} {mmapDirectory : Bool}
    (h : stripeGeometryFits volumeSize explicitStripeSize mmapDirectory = true) :
    kVolumeHeaderSize < volumeSize.toNat ∧ Volume.stripeDirectorySpan mmapDirectory + kHeaderSize ≤
        (computeStripeGeometry volumeSize explicitStripeSize).baseStripeSize.toNat := by
  unfold stripeGeometryFits at h
  split at h
  · cases h
  · next hsize =>
    have hheader : (sizeT kVolumeHeaderSize).toNat = kVolumeHeaderSize := toNat_sizeT (by decide)
    rw [BitVec.le_def, hheader] at hsize
    have hroom := BitVec.le_def.mp (of_decide_eq_true h)
    rw [toNat_stripeDirectorySpan] at hroom
    exact ⟨by omega, hroom⟩

/-- The stripes of a volume that fits: at least one, in order and apart,
behind the header and inside the file, each on an 8-byte boundary and large
enough for its directory and a document header. Without a configured size
they use up the volume and are sixteen at most; with one, less than a stripe
is left over. -/
theorem stripes_tile_volume {volumeSize explicitStripeSize : SizeT} {mmapDirectory : Bool}
    (hfits : stripeGeometryFits volumeSize explicitStripeSize mmapDirectory = true)
    (hwrap : volumeSize.toNat - kVolumeHeaderSize + 16777216 < 2 ^ 64) :
    let stripes := initStripes volumeSize explicitStripeSize
    0 < stripes.length ∧ stripes.Pairwise (fun a b => a.start + a.bytes ≤ b.start) ∧
      (∀ s ∈ stripes, kVolumeHeaderSize ≤ s.start ∧ s.start + s.bytes ≤ volumeSize.toNat ∧
        s.start % 8 = 0 ∧ Volume.stripeDirectorySpan mmapDirectory + kHeaderSize ≤ s.bytes) ∧
      (explicitStripeSize = 0 →
        (stripes.map Extent.bytes).sum = volumeSize.toNat - kVolumeHeaderSize ∧
          stripes.length ≤ 16) ∧
      (explicitStripeSize ≠ 0 → ∀ s ∈ stripes,
        volumeSize.toNat - kVolumeHeaderSize - (stripes.map Extent.bytes).sum < s.bytes) := by
  intro stripes
  obtain ⟨hsize, hroom⟩ := fits_spec hfits
  have hnumbers := @geometry_numbers volumeSize explicitStripeSize hsize hwrap
  have hcuts := @geometry_cuts volumeSize.toNat explicitStripeSize.toNat hsize
  rw [← hnumbers] at hcuts
  have hstripes : stripes = stripesFrom (computeStripeGeometry volumeSize explicitStripeSize)
        (computeStripeGeometry volumeSize explicitStripeSize).numStripes.toNat 0
        (sizeT kVolumeHeaderSize) := rfl
  generalize computeStripeGeometry volumeSize explicitStripeSize = g at hcuts hroom hstripes
  obtain ⟨hsome, hinside, haligned, hauto, hexplicit⟩ := hcuts
  simp only [Geometry.numbers] at hsome hinside haligned hauto hexplicit
  have hheader : (sizeT kVolumeHeaderSize).toNat = kVolumeHeaderSize := toNat_sizeT (by decide)
  have hreach : reach g g.numStripes.toNat =
      g.numStripes.toNat * g.baseStripeSize.toNat + g.stripeRemainder.toNat := by
    rw [reach, if_neg (by omega)]
  have hword := volumeSize.isLt
  have hend : (sizeT kVolumeHeaderSize).toNat + reach g g.numStripes.toNat < 2 ^ 64 := by omega
  have htiles := stripesFrom_tiles (Nat.zero_add _) hend
  have hmem := stripesFrom_mem (Nat.zero_add _) hend
  have hlength := stripesFrom_length g g.numStripes.toNat 0 (sizeT kVolumeHeaderSize)
  rw [← hstripes] at htiles hmem hlength
  have hsum := htiles.sum
  refine ⟨by omega, htiles.pairwise, fun s hs => ?_, fun h => ?_, fun h s hs => ?_⟩
  · obtain ⟨⟨j, hj, hstart⟩, hbytes⟩ := hmem s hs
    have hwithin := htiles.within s hs
    refine ⟨by omega, by omega, ?_, by omega⟩
    rw [hstart, hheader]
    rcases haligned with hone | hpage
    · obtain rfl : j = 0 := by omega
      rw [Nat.zero_mul]
      rfl
    · have hmul : j * g.baseStripeSize.toNat % 8 = 0 := by
        rw [Nat.mul_mod, hpage, Nat.mul_zero, Nat.zero_mod]
      simp only [kVolumeHeaderSize]
      omega
  · obtain ⟨hall, hcount⟩ := hauto (toNat_eq_zero.mpr h)
    simp only [kAutoStripeTarget] at hcount
    exact ⟨by omega, by omega⟩
  · obtain ⟨-, hbytes⟩ := hmem s hs
    obtain ⟨hzero, htail⟩ := hexplicit (mt toNat_eq_zero.mp h)
    omega

/-- A volume of 64 MiB behind its header. -/
theorem stripes_tile_volume_auto : stripeGeometryFits 67108928 0 true = true ∧
      ((initStripes 67108928 0).map Extent.bytes).sum = 67108864 ∧
      (initStripes 67108928 0).length ≤ 16 := by
  have hfits : stripeGeometryFits 67108928 0 true = true := by decide +kernel
  exact ⟨hfits, (@stripes_tile_volume 67108928 0 true hfits (by decide)).2.2.2.1 rfl⟩

section SmallTier

variable {totalSize : SizeT} {percent : BitVec 32} {mp : MultiProcessConfig}

theorem toNat_minStripes : (minStripes mp).toNat =
    if mp.enabled then max mp.totalProcesses.toNat 1 else 1 := by
  unfold minStripes
  split
  · rw [toNat_maxSize, BitVec.toNat_setWidth_of_le (by decide)]
    rfl
  · rfl

theorem minStripes_lt : (minStripes mp).toNat < 2 ^ 32 := by
  have hword := mp.totalProcesses.isLt
  rw [toNat_minStripes]
  split <;> omega

theorem toNat_smallFloor :
    (smallFloor mp).toNat = (minStripes mp).toNat * kMinStripeSize + kVolumeHeaderSize := by
  have hcount := @minStripes_lt mp
  have hmin : (sizeT kMinStripeSize).toNat = kMinStripeSize := toNat_sizeT (by decide)
  have hheader : (sizeT kVolumeHeaderSize).toNat = kVolumeHeaderSize := toNat_sizeT (by decide)
  have hmul : (minStripes mp * sizeT kMinStripeSize).toNat =
      (minStripes mp).toNat * kMinStripeSize := by
    rw [toNat_mul_of_lt, hmin]
    rw [hmin]
    simp only [kMinStripeSize]
    omega
  rw [smallFloor, toNat_add_of_lt, hmul, hheader]
  rw [hmul, hheader]
  simp only [kMinStripeSize, kVolumeHeaderSize]
  omega

theorem clampPercent_le : (clampPercent percent).toNat ≤ 50 := by
  unfold clampPercent
  split
  · decide
  · split
    · exact Nat.le_refl 50
    · next h =>
      rw [BitVec.lt_def] at h
      exact Nat.le_of_not_lt h

theorem share_le : (totalSize / 100 * (clampPercent percent).setWidth 64).toNat ≤ 2 ^ 63 := by
  have hpct := @clampPercent_le percent
  have hword := totalSize.isLt
  have hwidth : ((clampPercent percent).setWidth 64).toNat = (clampPercent percent).toNat :=
    BitVec.toNat_setWidth_of_le (by decide)
  have hdiv : (totalSize / 100).toNat = totalSize.toNat / 100 := BitVec.toNat_udiv
  have hle : totalSize.toNat / 100 * (clampPercent percent).toNat ≤ totalSize.toNat / 100 * 50 :=
    Nat.mul_le_mul_left _ hpct
  rw [toNat_mul_of_lt, hdiv, hwidth]
  · omega
  · rw [hdiv, hwidth]
    omega

theorem smallTier_sizes {sizes : SmallTierSizes}
    (h : computeSmallTierSizes totalSize percent mp = some sizes) :
    sizes.defaultSize.toNat + sizes.smallSize.toNat = totalSize.toNat ∧
      (minStripes mp).toNat * kMinStripeSize + kVolumeHeaderSize ≤ sizes.smallSize.toNat ∧
      kMinStripeSize + kVolumeHeaderSize ≤ sizes.defaultSize.toNat := by
  unfold computeSmallTierSizes at h
  split at h
  · cases h
  · simp only at h
    split at h <;> cases h
    next hroom =>
    have hsmall := toNat_maxSize (totalSize / 100 * (clampPercent percent).setWidth 64)
      (smallFloor mp)
    have hshare := @share_le totalSize percent
    have hcount := @minStripes_lt mp
    rw [toNat_smallFloor] at hsmall
    generalize maxSize _ _ = small at *
    have hfloor : defaultFloor.toNat = kMinStripeSize + kVolumeHeaderSize := by
      decide +kernel
    have hbound : small.toNat + defaultFloor.toNat < 2 ^ 64 := by
      rw [hsmall, hfloor]
      simp only [kMinStripeSize, kVolumeHeaderSize]
      omega
    rw [BitVec.lt_def, toNat_add_of_lt hbound, hfloor] at hroom
    have hrest : (totalSize - small).toNat = totalSize.toNat - small.toNat :=
      toNat_sub_of_le (by omega)
    refine ⟨?_, ?_, ?_⟩
    · show (totalSize - small).toNat + small.toNat = totalSize.toNat
      omega
    · show (minStripes mp).toNat * kMinStripeSize + kVolumeHeaderSize ≤ small.toNat
      omega
    · show kMinStripeSize + kVolumeHeaderSize ≤ (totalSize - small).toNat
      omega

end SmallTier

theorem minSize_stripes {volumeSize : SizeT} {n : Nat} (hn : 0 < n)
    (h : n * kMinStripeSize + kVolumeHeaderSize ≤ volumeSize.toNat) :
    n ≤ (initStripes volumeSize (sizeT kMinStripeSize)).length := by
  have hsize : kVolumeHeaderSize < volumeSize.toNat := by
    simp only [kMinStripeSize, kVolumeHeaderSize] at h ⊢
    omega
  have husable := toNat_usable hsize
  have hbase : pageFloor (maxSize (sizeT kMinStripeSize) (sizeT kMinStripeSize)) =
      sizeT kMinStripeSize := by decide +kernel
  have hcount : ((volumeSize - sizeT kVolumeHeaderSize) / sizeT kMinStripeSize).toNat =
      (volumeSize.toNat - kVolumeHeaderSize) / kMinStripeSize := by
    rw [BitVec.toNat_udiv, husable, toNat_sizeT (by decide)]
  have hle : n ≤ ((volumeSize - sizeT kVolumeHeaderSize) / sizeT kMinStripeSize).toNat := by
    rw [hcount, Nat.le_div_iff_mul_le (by decide)]
    omega
  rw [initStripes, stripesFrom_length]
  simp only [computeStripeGeometry]
  rw [if_neg (by decide), hbase, if_neg]
  · exact hle
  · intro hzero
    rw [hzero] at hle
    exact absurd hle (Nat.not_le_of_lt hn)

/-- When the tier is enabled, the two volumes share the total, each has at
least its floor, and the small one has a stripe for every process. -/
theorem small_tier_carve_out {totalSize : SizeT} {percent : BitVec 32} {mp : MultiProcessConfig}
    {sizes : SmallTierSizes} (h : computeSmallTierSizes totalSize percent mp = some sizes) :
    let stripes := (initStripes sizes.smallSize (sizeT kMinStripeSize)).length
    let processes := if mp.enabled then mp.totalProcesses.toNat else 1
    sizes.defaultSize.toNat + sizes.smallSize.toNat = totalSize.toNat ∧
      max processes 1 * kMinStripeSize + kVolumeHeaderSize ≤ sizes.smallSize.toNat ∧
      kMinStripeSize + kVolumeHeaderSize ≤ sizes.defaultSize.toNat ∧
      processes ≤ stripes ∧
      ∀ index : BitVec 32, index.toNat < mp.totalProcesses.toNat →
        ∃ i < stripes, isStripeOwned { mp with processIndex := index } i = true := by
  intro stripes processes
  obtain ⟨hsum, hsmall, hdefault⟩ := smallTier_sizes h
  have hmin : (minStripes mp).toNat = max processes 1 := by
    rw [toNat_minStripes]
    show _ = max (if mp.enabled then mp.totalProcesses.toNat else 1) 1
    split <;> rfl
  rw [hmin] at hsmall
  have hcount : max processes 1 ≤ stripes := minSize_stripes (by omega) hsmall
  refine ⟨hsum, hsmall, hdefault, by omega, fun index hindex => ?_⟩
  cases henabled : mp.enabled with
  | false => exact ⟨0, by omega, by simp [isStripeOwned]⟩
  | true =>
    have hprocesses : processes = mp.totalProcesses.toNat := if_pos henabled
    exact ⟨index.toNat, by omega, by simp [isStripeOwned, Nat.mod_eq_of_lt hindex]⟩

/-- One GiB, ten percent of it for the small tier, four processes. -/
theorem small_tier_carve_out_four :
    computeSmallTierSizes 1073741824 10 ⟨true, 0, 4⟩ = some ⟨536870848, 536870976⟩ ∧
      4 ≤ (initStripes 536870976 (sizeT kMinStripeSize)).length := by
  have henabled : computeSmallTierSizes 1073741824 10 ⟨true, 0, 4⟩ =
      some ⟨536870848, 536870976⟩ := by decide +kernel
  exact ⟨henabled, (small_tier_carve_out henabled).2.2.2.1⟩

end CycloneCache.Ref.StripeTiling

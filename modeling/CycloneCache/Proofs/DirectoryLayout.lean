import CycloneCache.Ref.DirectoryLayout

namespace CycloneCache.Ref.DirectoryLayout

open Lib
open Directories (kEntriesPerBucket)

def entriesStart (n : Nat) : Nat := (kHeaderSize + n * kVersionSize + 7) / 8 * 8

def retentionStart (n : Nat) : Nat :=
  (entriesStart n + n * kEntriesPerBucket * kEntrySize + 7) / 8 * 8

def sizeSteps (n : Nat) : List Nat :=
  [n * kVersionSize, kHeaderSize + n * kVersionSize, kHeaderSize + n * kVersionSize + 7,
    entriesStart n, n * kEntriesPerBucket, n * kEntriesPerBucket * kEntrySize,
    entriesStart n + n * kEntriesPerBucket * kEntrySize,
    entriesStart n + n * kEntriesPerBucket * kEntrySize + 7, retentionStart n,
    retentionStart n + kRetentionSize]

theorem starts_in_order (n : Nat) :
    kHeaderSize + n * kVersionSize ≤ entriesStart n ∧ entriesStart n % 8 = 0 ∧
      entriesStart n + n * kEntriesPerBucket * kEntrySize ≤ retentionStart n ∧
      retentionStart n % 8 = 0 := by
  simp only [retentionStart, entriesStart, kHeaderSize, kVersionSize, kEntriesPerBucket, kEntrySize]
  omega

theorem retentionStart_le (n : Nat) : retentionStart n + kRetentionSize ≤ 44 * n + 342 := by
  simp only [retentionStart, entriesStart, kHeaderSize, kVersionSize, kEntriesPerBucket,
    kEntrySize, kRetentionSize]
  omega

theorem sizeSteps_le (n : Nat) : ∀ v ∈ sizeSteps n, v ≤ 44 * n + 342 := by
  have hend := retentionStart_le n
  have horder := starts_in_order n
  simp only [sizeSteps, List.forall_mem_cons, List.not_mem_nil, false_implies, implies_true,
    and_true]
  simp only [kHeaderSize, kVersionSize, kEntriesPerBucket, kEntrySize, kRetentionSize] at *
  omega

section Words

variable {w : Nat} {numBuckets : BitVec w}

theorem toNat_sizeMax : (sizeMax w).toNat = 2 ^ w - 1 := BitVec.toNat_allOnes

section

variable (hw : 32 ≤ w)
include hw

theorem guard_room (h : requiredSize numBuckets ≠ sizeMax w) :
    44 * numBuckets.toNat + 342 < 2 ^ w := by
  have hwide : 2 ^ 32 ≤ 2 ^ w := Nat.pow_le_pow_right (by decide) hw
  have hguard : ¬ numBuckets >
      sizeMax w / BitVec.ofNat w (kEntriesPerBucket * kEntrySize + kVersionSize + 1) := by
    intro hgt
    exact h (if_pos hgt)
  have hdiv : numBuckets.toNat ≤ (2 ^ w - 1) / 45 := by
    have hle := Nat.le_of_not_lt (mt BitVec.lt_def.mpr hguard)
    rw [BitVec.toNat_udiv, toNat_sizeMax, BitVec.toNat_ofNat,
      Nat.mod_eq_of_lt (show kEntriesPerBucket * kEntrySize + kVersionSize + 1 < 2 ^ w by
        simp only [kEntriesPerBucket, kEntrySize, kVersionSize]; omega)] at hle
    exact hle
  omega

theorem toNat_small {n : Nat} (hn : n < 2 ^ 32) : (BitVec.ofNat w n).toNat = n := by
  rw [BitVec.toNat_ofNat, Nat.mod_eq_of_lt]
  exact lt_of_lt_of_le hn (Nat.pow_le_pow_right (by decide) hw)

section

variable (hroom : 44 * numBuckets.toNat + 342 < 2 ^ w)
include hroom

theorem toNat_entriesOffset : (entriesOffset numBuckets).toNat = entriesStart numBuckets.toNat := by
  have hsum : (BitVec.ofNat w kHeaderSize + numBuckets * BitVec.ofNat w kVersionSize).toNat =
      kHeaderSize + numBuckets.toNat * kVersionSize := by
    rw [BitVec.toNat_add, BitVec.toNat_mul, toNat_small hw (by decide), toNat_small hw (by decide)]
    simp only [kHeaderSize, kVersionSize]
    rw [Nat.mod_eq_of_lt (show numBuckets.toNat * 4 < 2 ^ w by omega), Nat.mod_eq_of_lt (by omega)]
  rw [entriesOffset, toNat_alignUp, hsum]
  · rfl
  · rw [hsum]
    simp only [kHeaderSize, kVersionSize]
    omega

theorem toNat_entriesBytes :
    (numBuckets * BitVec.ofNat w kEntriesPerBucket * BitVec.ofNat w kEntrySize).toNat =
      numBuckets.toNat * kEntriesPerBucket * kEntrySize := by
  rw [BitVec.toNat_mul, BitVec.toNat_mul, toNat_small hw (by decide), toNat_small hw (by decide)]
  simp only [kEntriesPerBucket, kEntrySize]
  rw [Nat.mod_eq_of_lt (show numBuckets.toNat * 4 < 2 ^ w by omega), Nat.mod_eq_of_lt (by omega)]

theorem toNat_retentionOffset :
    (retentionOffset numBuckets).toNat = retentionStart numBuckets.toNat := by
  have hfits : entriesStart numBuckets.toNat +
      numBuckets.toNat * kEntriesPerBucket * kEntrySize + 7 < 2 ^ w := by
    apply lt_of_le_of_lt (sizeSteps_le numBuckets.toNat _ _) hroom
    simp [sizeSteps]
  have hsum : (entriesOffset numBuckets +
      numBuckets * BitVec.ofNat w kEntriesPerBucket * BitVec.ofNat w kEntrySize).toNat =
      entriesStart numBuckets.toNat + numBuckets.toNat * kEntriesPerBucket * kEntrySize := by
    rw [BitVec.toNat_add, toNat_entriesOffset hw hroom, toNat_entriesBytes hw hroom,
      Nat.mod_eq_of_lt (by omega)]
  rw [retentionOffset, toNat_alignUp, hsum]
  · rfl
  · rw [hsum]
    exact hfits

end

theorem toNat_requiredSize (h : requiredSize numBuckets ≠ sizeMax w) :
    (requiredSize numBuckets).toNat = retentionStart numBuckets.toNat + kRetentionSize := by
  have hroom := guard_room hw h
  have hend := retentionStart_le numBuckets.toNat
  unfold requiredSize at h ⊢
  split at h
  · exact absurd rfl h
  · next hguard =>
    rw [if_neg hguard, BitVec.toNat_add, toNat_retentionOffset hw hroom,
      toNat_small hw (by decide), Nat.mod_eq_of_lt (by omega)]

end

end Words

structure WellPlaced {w : Nat} (base : Nat) (region : Region w) (d : MmapDirectory w) : Prop where
  buckets : 0 < d.numBuckets.toNat
  /-- No step of the size computations wraps. -/
  unwrapped : ∀ v ∈ sizeSteps d.numBuckets.toNat, v < 2 ^ w
  entries_eq : d.entries.toNat = entriesStart d.numBuckets.toNat
  retention_eq : d.retention.toNat = retentionStart d.numBuckets.toNat
  required_eq : (requiredSize d.numBuckets).toNat =
    retentionStart d.numBuckets.toNat + kRetentionSize
  /-- Header, versions, entries and retention region, in this order. -/
  header : kHeaderSize ≤ d.versions.toNat
  versions : d.versions.toNat + d.numBuckets.toNat * kVersionSize ≤ d.entries.toNat
  entries : d.entries.toNat + d.numBuckets.toNat * kEntriesPerBucket * kEntrySize ≤
    d.retention.toNat
  retention : d.retention.toNat + kRetentionSize ≤ region.size.toNat
  /-- A header and a retention region have 64-bit fields, a version has 32
  bits and an entry 16-bit words. -/
  header_aligned : base % 8 = 0
  versions_aligned : (base + d.versions.toNat) % 4 = 0
  entries_aligned : (base + d.entries.toNat) % 2 = 0
  retention_aligned : (base + d.retention.toNat) % 8 = 0

variable {w : Nat} {region : Region w} {numBuckets : BitVec w}

theorem ofBuckets_wellPlaced {base : Nat} (hw : 32 ≤ w) (hbase : base % 8 = 0)
    (hpos : numBuckets ≠ 0) (hmax : requiredSize numBuckets ≠ sizeMax w)
    (hsize : ¬ region.size < requiredSize numBuckets) :
    WellPlaced base region (.ofBuckets numBuckets) := by
  have hroom := guard_room hw hmax
  have hentries := toNat_entriesOffset hw hroom
  have hretention := toNat_retentionOffset hw hroom
  have hrequired := toNat_requiredSize hw hmax
  have hversions : (BitVec.ofNat w kHeaderSize).toNat = kHeaderSize := toNat_small hw (by decide)
  obtain ⟨hversionsEnd, haligned, hentriesEnd, haligned'⟩ := starts_in_order numBuckets.toNat
  constructor
  · show 0 < numBuckets.toNat
    exact Nat.pos_of_ne_zero fun h => hpos (BitVec.eq_of_toNat_eq (by simpa using h))
  · show ∀ v ∈ sizeSteps numBuckets.toNat, v < 2 ^ w
    intro v hv
    exact lt_of_le_of_lt (sizeSteps_le numBuckets.toNat v hv) hroom
  · exact hentries
  · exact hretention
  · exact hrequired
  · show kHeaderSize ≤ (BitVec.ofNat w kHeaderSize).toNat
    omega
  · show (BitVec.ofNat w kHeaderSize).toNat + numBuckets.toNat * kVersionSize ≤
      (entriesOffset numBuckets).toNat
    omega
  · show (entriesOffset numBuckets).toNat + numBuckets.toNat * kEntriesPerBucket * kEntrySize ≤
      (retentionOffset numBuckets).toNat
    omega
  · show (retentionOffset numBuckets).toNat + kRetentionSize ≤ region.size.toNat
    have hle := Nat.le_of_not_lt (mt BitVec.lt_def.mpr hsize)
    omega
  · exact hbase
  · show (base + (BitVec.ofNat w kHeaderSize).toNat) % 4 = 0
    simp only [kHeaderSize] at hversions ⊢
    omega
  · show (base + (entriesOffset numBuckets).toNat) % 2 = 0
    omega
  · show (base + (retentionOffset numBuckets).toNat) % 8 = 0
    omega

theorem openDirectory_some {d : MmapDirectory w} (h : openDirectory region = some d) :
    d = .ofBuckets (BitVec.ofNat w (leAt region.bytes 8 4)) ∧ d.numBuckets ≠ 0 ∧
      requiredSize d.numBuckets ≠ sizeMax w ∧ ¬ region.size < requiredSize d.numBuckets := by
  unfold openDirectory at h
  split at h
  · cases h
  · split at h
    · cases h
    · split at h
      · cases h
      · simp only at h
        split at h
        · cases h
        · next hpos =>
          split at h
          · cases h
          · next hmax =>
            split at h <;> cases h
            next hsize =>
            exact ⟨rfl, hpos, hmax, hsize⟩

theorem WellPlaced.bucket {base : Nat} {d : MmapDirectory w} (h : WellPlaced base region d)
    (bucketHash : BitVec 32) :
    d.versions.toNat ≤ versionAddress d (bucketIndex d bucketHash) ∧
      versionAddress d (bucketIndex d bucketHash) + kVersionSize ≤
        d.versions.toNat + d.numBuckets.toNat * kVersionSize ∧
      ∀ i < kEntriesPerBucket, d.entries.toNat ≤ entryAddress d (bucketIndex d bucketHash) i ∧
          entryAddress d (bucketIndex d bucketHash) i + kEntrySize ≤
            d.entries.toNat + d.numBuckets.toNat * kEntriesPerBucket * kEntrySize := by
  have hindex : bucketIndex d bucketHash < d.numBuckets.toNat := Nat.mod_lt _ h.buckets
  simp only [versionAddress, entryAddress, kVersionSize, kEntriesPerBucket, kEntrySize]
  generalize bucketIndex d bucketHash = b at hindex
  exact ⟨by omega, by omega, fun i hi => by omega⟩

theorem zeroVersions_below {m : Memory} {start x : Nat} (h : x < start) (n : Nat) :
    zeroVersions m start n x = m x := by
  induction n with
  | zero => rfl
  | succ n ih => rw [zeroVersions, writeAt_of_lt (by omega), ih]

theorem length_freshHeader (n : Nat) : (putFields (freshHeader n)).length = 60 := by
  rw [length_putFields]
  rfl

theorem initBytes_header {m : Memory} {d : MmapDirectory w}
    (hversions : kHeaderSize ≤ d.versions.toNat) (hentries : kHeaderSize ≤ d.entries.toNat)
    (hretention : kHeaderSize ≤ d.retention.toNat) :
    Holds (initBytes m d) 4 (putFields (freshHeader d.numBuckets.toNat)) := by
  apply (holds_writeAt (writeAt m 0 (leBytes 4 0)) 4 _).congr
  intro x hlo hhi
  rw [length_freshHeader] at hhi
  simp only [kHeaderSize] at hversions hentries hretention
  simp only [initBytes]
  rw [writeAt_of_ge (by rw [length_leBytes]; omega), writeAt_of_lt (by omega),
    writeAt_of_lt (by omega), zeroVersions_below (by omega)]

theorem initBytes_magic (m : Memory) (d : MmapDirectory w) : leAt (initBytes m d) 0 4 = kMagic :=
  leAt_of_holds (holds_writeAt _ 0 (leBytes 4 kMagic))

theorem initBytes_fields {m : Memory} {d : MmapDirectory w}
    (hversions : kHeaderSize ≤ d.versions.toNat) (hentries : kHeaderSize ≤ d.entries.toNat)
    (hretention : kHeaderSize ≤ d.retention.toNat) (hfield : d.numBuckets.toNat < 2 ^ 32) :
    leAt (initBytes m d) 4 2 = kVersion ∧ leAt (initBytes m d) 8 4 = d.numBuckets.toNat := by
  have hholds := @initBytes_header w m d hversions hentries hretention
  simp only [freshHeader, putFields, holds_append, length_leBytes] at hholds
  refine ⟨leAt_of_holds hholds.1, ?_⟩
  rw [leAt_of_holds hholds.2.2.1]
  exact Nat.mod_eq_of_lt hfield

theorem init_some {region' : Region w} {d : MmapDirectory w}
    (h : init region numBuckets = some (region', d)) :
    d = .ofBuckets numBuckets ∧ region' = { region with bytes := initBytes region.bytes d } ∧
      numBuckets ≠ 0 ∧ numBuckets.toNat < 2 ^ 32 ∧ requiredSize numBuckets ≠ sizeMax w ∧
      ¬ region.size < requiredSize numBuckets := by
  unfold init at h
  split at h
  · cases h
  · next hpos =>
    split at h
    · cases h
    · next hfield =>
      split at h
      · cases h
      · next hmax =>
        split at h <;> cases h
        next hsize =>
        exact ⟨rfl, rfl, hpos, by omega, hmax, hsize⟩

theorem openDirectory_init {region' : Region w} {d : MmapDirectory w} (hw : 32 ≤ w)
    (h : init region numBuckets = some (region', d)) :
    openDirectory region' = some d ∧ d.numBuckets = numBuckets := by
  obtain ⟨hd, rfl, hpos, hfield, hmax, hsize⟩ := init_some h
  have hplaced : WellPlaced 0 region d := by
    rw [hd]
    exact ofBuckets_wellPlaced hw (Nat.zero_mod 8) hpos hmax hsize
  have hheader := hplaced.header
  have hentries := hplaced.versions
  have hretention := hplaced.entries
  have hend := hplaced.retention
  have hnum : d.numBuckets = numBuckets := by rw [hd]; rfl
  obtain ⟨hversion, hcount⟩ := @initBytes_fields w region.bytes d hheader (by omega) (by omega)
    (by rw [hnum]; exact hfield)
  have hback : BitVec.ofNat w d.numBuckets.toNat = numBuckets := by
    rw [hnum, BitVec.ofNat_toNat, BitVec.setWidth_eq]
  have hlen : ¬ region.size < BitVec.ofNat w kHeaderSize := by
    rw [BitVec.lt_def, toNat_small hw (by decide)]
    omega
  refine ⟨?_, hnum⟩
  unfold openDirectory
  simp only [initBytes_magic, hversion, hcount, hback]
  rw [if_neg hlen, if_neg (not_not_intro rfl), if_neg (not_not_intro rfl), if_neg hpos,
    if_neg hmax, if_neg hsize, hd]

/-- Whatever the bytes of the region are, a directory that `open` accepts lies
inside it, placed without a wrapped size, and every bucket of it can be
addressed; and `open` accepts what `init` wrote. -/
theorem open_directory_safe {w base : Nat} (hw : 32 ≤ w) (hbase : base % 8 = 0)
    (region : Region w) :
    (∀ d, openDirectory region = some d → WellPlaced base region d ∧
        ∀ bucketHash, d.versions.toNat ≤ versionAddress d (bucketIndex d bucketHash) ∧
          versionAddress d (bucketIndex d bucketHash) + kVersionSize ≤
            d.versions.toNat + d.numBuckets.toNat * kVersionSize ∧
          ∀ i < kEntriesPerBucket, d.entries.toNat ≤ entryAddress d (bucketIndex d bucketHash) i ∧
              entryAddress d (bucketIndex d bucketHash) i + kEntrySize ≤
                d.entries.toNat + d.numBuckets.toNat * kEntriesPerBucket * kEntrySize) ∧
      ∀ numBuckets region' d, init region numBuckets = some (region', d) →
        openDirectory region' = some d ∧ d.numBuckets = numBuckets := by
  refine ⟨fun d h => ?_, fun _ _ _ h => openDirectory_init hw h⟩
  obtain ⟨hd, hpos, hmax, hsize⟩ := openDirectory_some h
  have hplaced : WellPlaced base region d := by
    rw [hd] at hpos hmax hsize ⊢
    exact ofBuckets_wellPlaced hw hbase hpos hmax hsize
  exact ⟨hplaced, hplaced.bucket⟩

def tinyRegion : Region 32 where
  bytes := writeAt (fun _ => 0) 0 (leBytes 4 kMagic ++ putFields (freshHeader 1))
  size := 376

theorem open_directory_safe_tiny : openDirectory tinyRegion = some (.ofBuckets 1) ∧
      WellPlaced 4096 tinyRegion (.ofBuckets 1) := by
  have hopen : openDirectory tinyRegion = some (.ofBuckets 1) := by decide +kernel
  exact ⟨hopen, ((open_directory_safe (by decide) (by decide) tinyRegion).1 _ hopen).1⟩

end CycloneCache.Ref.DirectoryLayout

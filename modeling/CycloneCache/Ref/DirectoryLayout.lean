import CycloneCache.Lib.Words
import CycloneCache.Ref.Directories

/-!
# The shared directory as a region of bytes

A directory that several processes share is a region of the volume file: a
header of 64 bytes, one 32-bit version for each bucket, four entries of ten
bytes for each bucket, and the retention region. The header has the number of
buckets and everything behind it is placed by that number, in the arithmetic
of `size_t`. `init` writes the region, `open` accepts one that it finds.

`size_t` has `w` bits. An address is relative to the start of the region.
-/

namespace CycloneCache.Ref.DirectoryLayout

open Lib
open Directories (kEntriesPerBucket)

/-- `sizeof(Header)` -/
def kHeaderSize : Nat := 64

/-- `sizeof(uint32_t)` -/
def kVersionSize : Nat := 4

/-- `sizeof(DirEntry)`: five 16-bit words. -/
def kEntrySize : Nat := 10

/-- `sizeof(RetentionRegion)`: the generation and 64 chunk slots. -/
def kRetentionSize : Nat := 264

/-- "MDIR" -/
def kMagic : Nat := 0x4D444952

def kVersion : Nat := 2

section Offsets

variable {w : Nat}

/-- `SIZE_MAX` -/
def sizeMax (w : Nat) : BitVec w := BitVec.allOnes w

def entriesOffset (numBuckets : BitVec w) : BitVec w :=
  alignUp 3 (BitVec.ofNat w kHeaderSize + numBuckets * BitVec.ofNat w kVersionSize)

def retentionOffset (numBuckets : BitVec w) : BitVec w :=
  alignUp 3 (entriesOffset numBuckets +
    numBuckets * BitVec.ofNat w kEntriesPerBucket * BitVec.ofNat w kEntrySize)

/-- `required_size`, which answers `SIZE_MAX` for too many buckets. -/
def requiredSize (numBuckets : BitVec w) : BitVec w :=
  if numBuckets >
      sizeMax w / BitVec.ofNat w (kEntriesPerBucket * kEntrySize + kVersionSize + 1) then
    sizeMax w
  else retentionOffset numBuckets + BitVec.ofNat w kRetentionSize

end Offsets

/-- A mapped region. -/
structure Region (w : Nat) where
  bytes : Memory
  size : BitVec w

/-- What `init` and `open` hand to the constructor: where the arrays start. -/
structure MmapDirectory (w : Nat) where
  versions : BitVec w
  entries : BitVec w
  retention : BitVec w
  numBuckets : BitVec w
  deriving DecidableEq

/-- The arrays of a directory with so many buckets. -/
def MmapDirectory.ofBuckets {w : Nat} (numBuckets : BitVec w) : MmapDirectory w where
  versions := BitVec.ofNat w kHeaderSize
  entries := entriesOffset numBuckets
  retention := retentionOffset numBuckets
  numBuckets := numBuckets

/-- The fields of `Header` behind the magic, as `init` writes them: the
version, padding, the number of buckets, the entry count, the phase and its
lock, generation and owner of the write lock, the write position, the write
lock, the wrap intent, the generation of the phase lock, the deadline of a
deferred wrap, count and time of the wraps, the lease. -/
def freshHeader (numBuckets : Nat) : List (Nat × Nat) :=
  [(2, kVersion), (2, 0), (4, numBuckets), (4, 0), (1, 0), (1, 0), (2, 0), (4, 0), (8, 0),
    (1, 0), (1, 0), (2, 0), (4, 0), (8, 0), (8, 0), (8, 0)]

/-- `init` stores the versions one by one. -/
def zeroVersions (m : Memory) (start : Nat) : Nat → Memory
  | 0 => m
  | i + 1 => writeAt (zeroVersions m start i) (start + i * kVersionSize) (leBytes kVersionSize 0)

/-- The bytes `init` leaves. The magic is cleared first and published last. -/
def initBytes {w : Nat} (m : Memory) (d : MmapDirectory w) : Memory :=
  let n := d.numBuckets.toNat
  let m := writeAt m 0 (leBytes 4 0)
  let m := writeAt m 4 (putFields (freshHeader n))
  let m := zeroVersions m d.versions.toNat n
  let m := writeAt m d.entries.toNat
    (List.replicate (d.numBuckets * BitVec.ofNat w kEntriesPerBucket *
      BitVec.ofNat w kEntrySize).toNat 0)
  let m := writeAt m d.retention.toNat (List.replicate kRetentionSize 0)
  writeAt m 0 (leBytes 4 kMagic)

/-- `MmapDirectory::init` -/
def init {w : Nat} (region : Region w) (numBuckets : BitVec w) :
    Option (Region w × MmapDirectory w) :=
  if numBuckets = 0 then none
  else if numBuckets.toNat > 2 ^ 32 - 1 then none
  else if requiredSize numBuckets = sizeMax w then none
  else if region.size < requiredSize numBuckets then none
  else
    let d := MmapDirectory.ofBuckets numBuckets
    some ({ region with bytes := initBytes region.bytes d }, d)

/-- `MmapDirectory::open` -/
def openDirectory {w : Nat} (region : Region w) : Option (MmapDirectory w) :=
  if region.size < BitVec.ofNat w kHeaderSize then none
  else if leAt region.bytes 0 4 ≠ kMagic then none
  else if leAt region.bytes 4 2 ≠ kVersion then none
  else
    let numBuckets := BitVec.ofNat w (leAt region.bytes 8 4)
    if numBuckets = 0 then none
    else if requiredSize numBuckets = sizeMax w then none
    else if region.size < requiredSize numBuckets then none
    else some (.ofBuckets numBuckets)

/-- `bucket_hash % num_buckets`, as every probe and insert takes it. -/
def bucketIndex {w : Nat} (d : MmapDirectory w) (bucketHash : BitVec 32) : Nat :=
  bucketHash.toNat % d.numBuckets.toNat

/-- Where the version of a bucket lies. -/
def versionAddress {w : Nat} (d : MmapDirectory w) (bucket : Nat) : Nat :=
  d.versions.toNat + bucket * kVersionSize

/-- Where entry `i` of a bucket lies. -/
def entryAddress {w : Nat} (d : MmapDirectory w) (bucket i : Nat) : Nat :=
  d.entries.toNat + (bucket * kEntriesPerBucket + i) * kEntrySize

end CycloneCache.Ref.DirectoryLayout

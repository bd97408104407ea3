import CycloneCache.Ref.DirectoryLayout
import CycloneCache.Ref.Volume

/-!
# Cutting a volume into stripes, in machine words

`Volume` has the layout of a file on numbers. Here the same functions are on
the 64-bit words the code computes with, together with the loop that lays the
stripes out and the carve-out of a small volume from the space of a cache.
-/

namespace CycloneCache.Ref.StripeTiling

open Lib
open Volume (kVolumeHeaderSize kDirectoryEntriesPerSegment kEntriesPerBucket kAutoStripeGranularity
  kAutoStripeTarget kMinStripeSize)

abbrev SizeT := BitVec 64

def sizeT (n : Nat) : SizeT := BitVec.ofNat 64 n

/-- `std::max` -/
def maxSize (a b : SizeT) : SizeT := if a < b then b else a

/-- `std::clamp` -/
def clampSize (v lo hi : SizeT) : SizeT := if v < lo then lo else if hi < v then hi else v

structure Geometry where
  numStripes : SizeT
  baseStripeSize : SizeT
  stripeRemainder : SizeT
  deriving DecidableEq

/-- `x & ~(kStripeAlign - 1)` -/
def pageFloor (x : SizeT) : SizeT := alignDown 12 x

def computeStripeGeometry (volumeSize explicitStripeSize : SizeT) : Geometry :=
  let usableSize := volumeSize - sizeT kVolumeHeaderSize
  if explicitStripeSize = 0 then
    let num := (usableSize + sizeT (kAutoStripeGranularity / 2)) / sizeT kAutoStripeGranularity
    let num := clampSize num 1 (sizeT kAutoStripeTarget)
    let base := pageFloor (usableSize / num)
    if base = 0 then ⟨1, usableSize, 0⟩ else ⟨num, base, usableSize - base * num⟩
  else
    let base := pageFloor (maxSize explicitStripeSize (sizeT kMinStripeSize))
    let num := usableSize / base
    if num = 0 then ⟨1, usableSize, 0⟩ else ⟨num, base, 0⟩

def stripeDirectorySpan (mmapDirectory : Bool) : SizeT :=
  if mmapDirectory then
    let dirSize := DirectoryLayout.requiredSize (sizeT kDirectoryEntriesPerSegment)
    (dirSize + 4096 - 1) / 4096 * 4096
  else
    alignUp 3 (sizeT kDirectoryEntriesPerSegment * sizeT kEntriesPerBucket * 10)

def stripeGeometryFits (volumeSize explicitStripeSize : SizeT) (mmapDirectory : Bool) : Bool :=
  if volumeSize ≤ sizeT kVolumeHeaderSize then false
  else
    (computeStripeGeometry volumeSize explicitStripeSize).baseStripeSize ≥
      stripeDirectorySpan mmapDirectory + sizeT kHeaderSize

/-- Where a stripe lies. -/
structure Extent where
  offset : SizeT
  size : SizeT
  deriving DecidableEq

/-- The loop of `init_stripes`, with `left` stripes to go from number `i` on. -/
def stripesFrom (g : Geometry) : Nat → Nat → SizeT → List Extent
  | 0, _, _ => []
  | left + 1, i, offset =>
    let size := g.baseStripeSize + if i + 1 = g.numStripes.toNat then g.stripeRemainder else 0
    ⟨offset, size⟩ :: stripesFrom g left (i + 1) (offset + size)

def initStripes (volumeSize explicitStripeSize : SizeT) : List Extent :=
  let g := computeStripeGeometry volumeSize explicitStripeSize
  stripesFrom g g.numStripes.toNat 0 (sizeT kVolumeHeaderSize)

/-! ## The small tier -/

structure MultiProcessConfig where
  enabled : Bool
  processIndex : BitVec 32
  totalProcesses : BitVec 32

structure SmallTierSizes where
  defaultSize : SizeT
  smallSize : SizeT
  deriving DecidableEq

/-- The stripes the small volume must have. -/
def minStripes (mp : MultiProcessConfig) : SizeT :=
  if mp.enabled then maxSize (mp.totalProcesses.setWidth 64) 1 else 1

def smallFloor (mp : MultiProcessConfig) : SizeT :=
  minStripes mp * sizeT kMinStripeSize + sizeT kVolumeHeaderSize

def defaultFloor : SizeT := sizeT kMinStripeSize + sizeT kVolumeHeaderSize

/-- `std::clamp<uint32_t>(percent, 1, 50)` -/
def clampPercent (percent : BitVec 32) : BitVec 32 :=
  if percent < 1 then 1 else if 50 < percent then 50 else percent

def computeSmallTierSizes (totalSize : SizeT) (percent : BitVec 32) (mp : MultiProcessConfig) :
    Option SmallTierSizes :=
  if percent = 0 ∨ totalSize = 0 then none
  else
    let pct := (clampPercent percent).setWidth 64
    let smallSize := maxSize (totalSize / 100 * pct) (smallFloor mp)
    if totalSize < smallSize + defaultFloor then none
    else some ⟨totalSize - smallSize, smallSize⟩

def isStripeOwned (mp : MultiProcessConfig) (stripeIndex : Nat) : Bool :=
  if !mp.enabled then true
  else stripeIndex % mp.totalProcesses.toNat == mp.processIndex.toNat

end CycloneCache.Ref.StripeTiling

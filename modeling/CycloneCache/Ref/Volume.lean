import CycloneCache.Ref.Directory
import CycloneCache.Ref.StripeRun

/-!
# A volume, byte by byte

The file of a volume is cut into stripes, each with its directory and its
data area. This file has the layout, the state of one stripe (the bytes of
its data area, its buckets, the cursor and the generation word) and the calls
that read it. Offsets are relative to the stripe; `mapRegion` adds where the
stripe starts, because what it refuses depends on the end of the file.

One call runs at a time, so a probe sees the bucket as it is and a read is
not raced by a wrap; the retries of the source then answer the same thing
again. A reader looks a document up by the length its directory entry
remembers, which is rounded up.
-/

namespace CycloneCache.Ref

open Lib

inductive CacheError where
  | notFound
  | alternateNotFound
  | corrupted
  | ioError
  | noSpace
  | busy
  | invalidArgument
  | internalError
  | tooManyAlternates
  deriving DecidableEq

namespace Volume

/-! ## The layout of the file -/

/-- `VolumeHeader::kSize` -/
def kVolumeHeaderSize : Nat := 64

def kDirectoryEntriesPerSegment : Nat := 16384

def kEntriesPerBucket : Nat := 4

def kStripeAlign : Nat := 4096

/-- 32 MiB -/
def kAutoStripeGranularity : Nat := 33554432

def kAutoStripeTarget : Nat := 16

/-- 128 MiB -/
def kMinStripeSize : Nat := 134217728

structure VolumeConfig where
  size : Nat
  /-- Zero lets the volume choose. -/
  stripeSize : Nat
  /-- Multi-process mode keeps the directory in the file. -/
  mmapDirectory : Bool
  wrapRetention : Bool

structure StripeGeometry where
  numStripes : Nat
  baseStripeSize : Nat
  stripeRemainder : Nat
  deriving DecidableEq

def computeStripeGeometry (volumeSize explicitStripeSize : Nat) : StripeGeometry :=
  let usableSize := volumeSize - kVolumeHeaderSize
  if explicitStripeSize = 0 then
    let num := (usableSize + kAutoStripeGranularity / 2) / kAutoStripeGranularity
    let num := min (max num 1) kAutoStripeTarget
    let base := usableSize / num / kStripeAlign * kStripeAlign
    if base = 0 then ⟨1, usableSize, 0⟩ else ⟨num, base, usableSize - base * num⟩
  else
    let base := max explicitStripeSize kMinStripeSize / kStripeAlign * kStripeAlign
    let num := usableSize / base
    if num = 0 then ⟨1, usableSize, 0⟩ else ⟨num, base, 0⟩

/-- `stripe_directory_span`: 177 pages for a mapped directory. -/
def stripeDirectorySpan (mmapDirectory : Bool) : Nat :=
  if mmapDirectory then 724992
  else kDirectoryEntriesPerSegment * kEntriesPerBucket * 10

def stripeGeometryFits (cfg : VolumeConfig) : Bool :=
  cfg.size > kVolumeHeaderSize &&
    (computeStripeGeometry cfg.size cfg.stripeSize).baseStripeSize ≥
      stripeDirectorySpan cfg.mmapDirectory + kHeaderSize

/-- One stripe of an open volume, with the settings its calls read. -/
structure Env where
  stripe : Stripe
  fileSize : Nat
  mmapDirectory : Bool
  lease : LeaseConfig
  verifyChecksumOnRead : Bool
  unlinkSupersededAlternates : Bool
  maxObjectSize : Nat
  /-- Is there a RAM tier, and is the file mapped whole? -/
  ramCache : Bool
  persistentBase : Bool
  ramCoherence : Bool
  offset_aligned : stripe.offset % 8 = 0
  in_file : stripe.offset + stripe.size ≤ fileSize
  start_pos : 0 < stripe.dataStart

/-- What the layout can be: one stripe of everything, or stripes of whole
pages that fit. -/
theorem geometry_cases (size explicitSize : Nat) :
    let g := computeStripeGeometry size explicitSize
    g = ⟨1, size - kVolumeHeaderSize, 0⟩ ∨
      ((∃ n, g.baseStripeSize = n / kStripeAlign * kStripeAlign) ∧
        g.numStripes * g.baseStripeSize + g.stripeRemainder ≤ size - kVolumeHeaderSize) := by
  intro g
  show computeStripeGeometry size explicitSize = _ ∨ _
  simp only [g, computeStripeGeometry]
  split
  · generalize size - kVolumeHeaderSize = usable
    generalize min _ kAutoStripeTarget = num
    split
    · exact .inl rfl
    · refine .inr ⟨⟨usable / num, rfl⟩, ?_⟩
      have hbase : usable / num / kStripeAlign * kStripeAlign ≤ usable / num :=
        Nat.div_mul_le_self _ _
      have hfits := Nat.le_trans (Nat.mul_le_mul_left num hbase) (Nat.mul_div_le usable num)
      dsimp only
      rw [Nat.mul_comm num] at hfits ⊢
      omega
  · generalize size - kVolumeHeaderSize = usable
    split
    · exact .inl rfl
    · refine .inr ⟨⟨_, rfl⟩, ?_⟩
      exact Nat.div_mul_le_self usable _

/-- The stripes of a geometry lie in the file one after the other. -/
theorem geometry_in_file {g : StripeGeometry} {size i : Nat} (hi : i < g.numStripes)
    (hsize : kVolumeHeaderSize < size)
    (hg : g = ⟨1, size - kVolumeHeaderSize, 0⟩ ∨
      ((∃ n, g.baseStripeSize = n / kStripeAlign * kStripeAlign) ∧
        g.numStripes * g.baseStripeSize + g.stripeRemainder ≤ size - kVolumeHeaderSize)) :
    kVolumeHeaderSize + i * g.baseStripeSize +
      (g.baseStripeSize + if i + 1 = g.numStripes then g.stripeRemainder else 0) ≤ size := by
  rcases hg with rfl | ⟨-, hfits⟩
  · obtain rfl : i = 0 := Nat.lt_one_iff.mp hi
    simp only [Nat.zero_mul, ite_self]
    omega
  · have hmul : i * g.baseStripeSize + g.baseStripeSize ≤ g.numStripes * g.baseStripeSize := by
      rw [← Nat.succ_mul]
      exact Nat.mul_le_mul_right _ hi
    split <;> omega

/-- Every stripe starts on a word: its predecessors are whole pages. -/
theorem geometry_aligned {g : StripeGeometry} {size i : Nat} (hi : i < g.numStripes)
    (hg : g = ⟨1, size - kVolumeHeaderSize, 0⟩ ∨
      ((∃ n, g.baseStripeSize = n / kStripeAlign * kStripeAlign) ∧
        g.numStripes * g.baseStripeSize + g.stripeRemainder ≤ size - kVolumeHeaderSize)) :
    (kVolumeHeaderSize + i * g.baseStripeSize) % 8 = 0 := by
  rcases hg with rfl | ⟨⟨n, hbase⟩, -⟩
  · obtain rfl : i = 0 := Nat.lt_one_iff.mp hi
    simp [kVolumeHeaderSize]
  · rw [hbase, ← Nat.mul_assoc]
    simp only [kVolumeHeaderSize, kStripeAlign]
    omega

/-- The settings of a volume that do not shape the file. -/
structure Settings where
  lease : LeaseConfig
  verifyChecksumOnRead : Bool
  unlinkSupersededAlternates : Bool
  maxObjectSize : Nat
  ramCache : Bool
  persistentBase : Bool
  ramCoherence : Bool

/-- `init_stripes`: stripe `i` of a volume whose file has exactly
`config.size` bytes. -/
def initStripe (cfg : VolumeConfig) (set : Settings) (i : Nat)
    (hfits : stripeGeometryFits cfg = true)
    (hi : i < (computeStripeGeometry cfg.size cfg.stripeSize).numStripes) : Env :=
  let geom := computeStripeGeometry cfg.size cfg.stripeSize
  have hsize : kVolumeHeaderSize < cfg.size ∧
      stripeDirectorySpan cfg.mmapDirectory + kHeaderSize ≤ geom.baseStripeSize := by
    simpa [stripeGeometryFits] using hfits
  { stripe := configureFrontier (kVolumeHeaderSize + i * geom.baseStripeSize)
      (stripeDirectorySpan cfg.mmapDirectory)
      (geom.baseStripeSize + if i + 1 = geom.numStripes then geom.stripeRemainder else 0)
      cfg.wrapRetention
      (by have h := hsize.2; simp only [kHeaderSize] at h; omega)
      (by cases cfg.mmapDirectory <;> decide)
    fileSize := cfg.size
    mmapDirectory := cfg.mmapDirectory
    lease := set.lease
    verifyChecksumOnRead := set.verifyChecksumOnRead
    unlinkSupersededAlternates := set.unlinkSupersededAlternates
    maxObjectSize := set.maxObjectSize
    ramCache := set.ramCache
    persistentBase := set.persistentBase
    ramCoherence := set.ramCoherence
    offset_aligned := geometry_aligned hi (geometry_cases cfg.size cfg.stripeSize)
    in_file := geometry_in_file hi hsize.1 (geometry_cases cfg.size cfg.stripeSize)
    start_pos := by
      show 0 < stripeDirectorySpan cfg.mmapDirectory
      cases cfg.mmapDirectory <;> decide }

/-! ## The state of a stripe -/

/-- A copy of a document in the RAM tier, with the version of the key's
bucket it was read under. -/
structure RamEntry where
  key : CacheKey
  id : Nat
  bytes : List UInt8
  stamp : Nat
  deriving DecidableEq

structure State where
  bytes : Memory
  buckets : Nat → Bucket
  /-- The seqlock version of a bucket, even between calls. -/
  versions : Nat → Nat
  cursor : Nat
  gen : Nat
  /-- Acquisitions of the write lock; a fill carries 16 bits of it. -/
  lockGen : Nat
  ram : List RamEntry
  /-- Every document that a complete fill has laid down. -/
  laid : List Record
  /-- Plain documents that are laid and not published yet. -/
  pending : List Record
  /-- Every document an entry was published for. -/
  published : List Record

/-- A stripe at open with an empty directory, whatever the file holds. -/
def State.fresh (env : Env) (bytes : Memory) : State where
  bytes := bytes
  buckets := fun _ => List.replicate kEntriesPerBucket DirEntry.empty
  versions := fun _ => 0
  cursor := env.stripe.dataStart
  gen := 0
  lockGen := 0
  ram := []
  laid := []
  pending := []
  published := []

def bucketIdx (key : CacheKey) : Nat := key.bucketHash % kDirectoryEntriesPerSegment

def State.bucket (s : State) (key : CacheKey) : Bucket := s.buckets (bucketIdx key)

/-- `bucket_version`: a 32-bit word. -/
def State.bucketVersion (s : State) (key : CacheKey) : Nat :=
  s.versions (bucketIdx key) % 2 ^ 32

/-- A bracket on the key's bucket. -/
def State.setBucket (s : State) (key : CacheKey) (b : Bucket) : State :=
  { s with
    buckets := Function.update s.buckets (bucketIdx key) b
    versions := Function.update s.versions (bucketIdx key) (s.versions (bucketIdx key) + 2) }

def Env.snapshot (env : Env) (s : State) : StripeSnapshot :=
  env.stripe.snapshot s.gen s.cursor

/-- The admitted entries with the key's tag. -/
def Env.probe (env : Env) (s : State) (key : CacheKey) : List (DirEntry × AdmitClass) :=
  probeEach env.stripe (s.bucket key) key.tag (env.snapshot s)

/-! ## Reading a document -/

/-- `map_region` of a range of the stripe: refused past the end of the file. -/
def Env.mapRegion (env : Env) (rel len : Nat) : Bool :=
  env.stripe.offset + rel + len ≤ env.fileSize

/-- `DocumentReader` on a mapping of `size` bytes: aligned, long enough for
the fixed header, and of this format. -/
def Env.readerValid (env : Env) (m : Memory) (rel size : Nat) : Bool :=
  (env.stripe.offset + rel) % 8 == 0 && kHeaderSize ≤ size &&
    (Document.deserialize m rel).isValidAndCompatible

/-- Map a document, and again at its own length when that is more: the size
of the mapping. -/
def Env.mapDocument (env : Env) (m : Memory) (rel initialSize : Nat) : Option Nat :=
  if !env.mapRegion rel initialSize || !env.readerValid m rel initialSize then none
  else
    let len := (Document.deserialize m rel).len
    if len > initialSize then
      if len > env.stripe.size then none
      else if env.mapRegion rel len && env.readerValid m rel len then some len
      else none
    else some initialSize

/-- `DocumentReader::payload` -/
def payload (m : Memory) (rel size : Nat) (d : Document) : List UInt8 :=
  readAt m (rel + kHeaderSize) (min (d.len - kHeaderSize) (size - kHeaderSize))

/-- `DocumentReader::header` -/
def headerBytes (m : Memory) (rel size : Nat) (d : Document) : List UInt8 :=
  if d.headerLen > size - kHeaderSize then []
  else readAt m (rel + kHeaderSize) d.headerLen

/-- `DocumentReader::content` -/
def contentBytes (m : Memory) (rel size : Nat) (d : Document) : List UInt8 :=
  let start := kHeaderSize + d.headerLen
  if d.len < kHeaderSize ∨ d.headerLen > d.len - kHeaderSize ∨ start > size then []
  else readAt m (rel + start) (min (d.len - start) (size - start))

/-- What a read hands out; `placement` is where on disk it lies, if there. -/
structure ReadHandle where
  placement : Option Nat
  doc : Document
  header : List UInt8
  content : List UInt8
  deriving DecidableEq

def serve (m : Memory) (rel size : Nat) : ReadHandle where
  placement := some rel
  doc := Document.deserialize m rel
  header := headerBytes m rel size (Document.deserialize m rel)
  content := contentBytes m rel size (Document.deserialize m rel)

def entryBinds (e : DirEntry) (d : Document) : Bool := d.fillSerial == e.fillSerial

/-- What became of one candidate of a read. -/
inductive Candidate where
  | skipped
  | damaged
  | served (h : ReadHandle)

/-- One candidate of `read_sync`. -/
def Env.readCandidate (env : Env) (m : Memory) (snap : StripeSnapshot) (key : CacheKey)
    (e : DirEntry) (cls : AdmitClass) : Candidate :=
  match env.mapDocument m e.offset e.approxSize with
  | none => .skipped
  | some size =>
    let d := Document.deserialize m e.offset
    if d.firstKey ≠ key.toNat ∨ !d.hasVolumeShape ∨ !entryBinds e d then .skipped
    else if (env.stripe.admitDocument snap cls e.offset d.writeSerial).isNone then
      .skipped
    else if env.verifyChecksumOnRead && !d.verifyChecksum (payload m e.offset size d) then
      .damaged
    else .served (serve m e.offset size)

/-- The first document served; a damaged one on the way is remembered. -/
def firstServed : Bool → List Candidate → Except CacheError ReadHandle
  | sawDamage, [] => .error (if sawDamage then .corrupted else .notFound)
  | sawDamage, .skipped :: cs => firstServed sawDamage cs
  | _, .damaged :: cs => firstServed true cs
  | _, .served h :: _ => .ok h

/-- `read_sync`, past the RAM tier. -/
def Env.readDisk (env : Env) (s : State) (key : CacheKey) : Except CacheError ReadHandle :=
  firstServed false <| (env.probe s key).map fun c =>
    env.readCandidate s.bytes (env.snapshot s) key c.1 c.2

/-! ## The RAM tier -/

def ramGet (ram : List RamEntry) (key : CacheKey) (id : Nat) : Option RamEntry :=
  ram.find? fun e => e.key == key && e.id == id

def ramRemove (ram : List RamEntry) (key : CacheKey) (id : Nat) : List RamEntry :=
  ram.filter fun e => !(e.key == key && e.id == id)

def ramRemoveAll (ram : List RamEntry) (key : CacheKey) : List RamEntry :=
  ram.filter fun e => e.key != key

/-- A copy read back: its own buffer, at any address. -/
def serveRam (bytes : List UInt8) : Option ReadHandle :=
  let m : Memory := fun x => bytes.getD x 0
  let d := Document.deserialize m 0
  if kHeaderSize ≤ bytes.length && d.isValidAndCompatible && d.hasVolumeShape then
    some ⟨none, d, headerBytes m 0 bytes.length d, contentBytes m 0 bytes.length d⟩
  else none

/-- The lookup of a copy: one from before the last change of the bucket is
dropped where the RAM tier follows the bucket's version. -/
def Env.ramLookup (env : Env) (s : State) (key : CacheKey) (id : Nat) :
    State × Option ReadHandle :=
  match ramGet s.ram key id with
  | none => (s, none)
  | some e =>
    if env.ramCoherence && env.mmapDirectory && e.stamp != s.bucketVersion key then
      ({ s with ram := ramRemove s.ram key id }, none)
    else (s, serveRam e.bytes)

def Env.readSync (env : Env) (s : State) (key : CacheKey) :
    State × Except CacheError ReadHandle :=
  if env.ramCache then
    match env.ramLookup s key 0 with
    | (s', some h) => (s', .ok h)
    | (s', none) => (s', env.readDisk s' key)
  else (s, env.readDisk s key)

/-! ## Removing a key -/

/-- A candidate of `remove_sync` whose document carries the key, and whether
the entry binds it as every read demands. -/
def Env.removeCandidate (env : Env) (m : Memory) (snap : StripeSnapshot) (key : CacheKey)
    (e : DirEntry) (cls : AdmitClass) : Option (Nat × Bool) :=
  match env.mapDocument m e.offset e.approxSize with
  | none => none
  | some _ =>
    let d := Document.deserialize m e.offset
    if d.firstKey ≠ key.toNat then none
    else some (e.offset,
      env.stripe.stampAdmits snap cls d.writeSerial && entryBinds e d)

def Env.removeCandidates (env : Env) (s : State) (key : CacheKey) : List (Nat × Bool) :=
  (env.probe s key).filterMap fun c =>
    env.removeCandidate s.bytes (env.snapshot s) key c.1 c.2

/-- `remove_sync`: every entry of the key goes; the copies in RAM go only if
one of them was live. -/
def Env.removeSync (env : Env) (s : State) (key : CacheKey) :
    State × Except CacheError Unit :=
  let found := env.removeCandidates s key
  let s' := if found.isEmpty then s
    else s.setBucket key (removeAllAt (s.bucket key) key.tag (found.map Prod.fst))
  if found.any Prod.snd then ({ s' with ram := ramRemoveAll s'.ram key }, .ok ())
  else (s', .error .notFound)

end Volume

end CycloneCache.Ref

import Mathlib.Tactic

/-!
# The geometry of a stripe

A stripe is a log that wraps: documents are written from the start of its
data area to its end and then from the start again. A *pass* is one trip
through the data area. With wrap retention the previous pass stays readable
ahead of a frontier that moves through the data area in chunks; without it
a wrap drops the whole previous pass at once, which is the same thing with a
single chunk.

The exposure generation `G` packs both counters: the pass is `G / (N + 1)`
and the frontier index is `G mod (N + 1)`, for `N` chunks.

All positions are relative to the stripe, as they are in a directory entry;
the code keeps the write cursor absolute and subtracts `offset` wherever it
compares. Counters are natural numbers: `G` is a 64-bit word that no run
brings near its end.
-/

namespace CycloneCache.Ref

/-- `MmapDirectory::kMaxChunks`. -/
def kMaxChunks : Nat := 64

/-- `Document::kHeaderSize`. -/
def kHeaderSize : Nat := 132

/-- `kMinFrontierChunk`: 1 MiB. -/
def kMinFrontierChunk : Nat := 1048576

/-- Round up to a multiple of 8. -/
def roundUp8 (n : Nat) : Nat := (n + 7) / 8 * 8

/-- `retention_geometry`: the number of chunks and their size for a data
area. -/
def retentionGeometry (dataArea : Nat) : Nat × Nat :=
  if dataArea = 0 then (1, 0)
  else
    let q := max (roundUp8 ((dataArea + kMaxChunks - 1) / kMaxChunks))
      kMinFrontierChunk
    let n := (dataArea + q - 1) / q
    (min (max n 1) kMaxChunks, q)

/-- The part of `Stripe` that is fixed at open. -/
structure Stripe where
  /-- Where the stripe starts in the file. -/
  offset : Nat
  /-- `data_start_rel()`: the data area follows the directory. -/
  dataStart : Nat
  size : Nat
  chunks : Nat
  chunkSize : Nat
  retain : Bool
  start_lt : dataStart < size
  start_aligned : dataStart % 8 = 0
  chunks_pos : 0 < chunks
  chunks_le : chunks ≤ kMaxChunks
  covered : size ≤ dataStart + chunks * chunkSize
  flush_one : retain = false → chunks = 1

theorem le_roundUp8 (n : Nat) : n ≤ roundUp8 n := by
  simp only [roundUp8]
  omega

theorem roundUp8_mod (n : Nat) : roundUp8 n % 8 = 0 := by
  simp only [roundUp8]
  omega

theorem le_ceil_mul {a q : Nat} (hq : 0 < q) : a ≤ (a + q - 1) / q * q := by
  have h : a + q - 1 < (a + q - 1) / q * q + q := Nat.lt_div_mul_add hq
  omega

/-- The chunks cover the data area, the clamp to 64 included. -/
theorem retentionGeometry_covers (dataArea : Nat) :
    dataArea ≤ (retentionGeometry dataArea).1 * (retentionGeometry dataArea).2 := by
  unfold retentionGeometry
  split
  · omega
  · simp only [kMaxChunks, kMinFrontierChunk]
    generalize hq : max (roundUp8 ((dataArea + 64 - 1) / 64)) 1048576 = q
    have hround : (dataArea + 64 - 1) / 64 ≤ q := by
      rw [← hq]
      exact Nat.le_trans (le_roundUp8 _) (Nat.le_max_left _ _)
    have hpos : 0 < q := by
      have := Nat.le_max_right (roundUp8 ((dataArea + 64 - 1) / 64)) 1048576
      omega
    -- either all chunks are counted, or the clamp leaves 64 of them
    rcases Nat.le_total (max ((dataArea + q - 1) / q) 1) 64 with hle | hge
    · rw [Nat.min_eq_left hle]
      calc dataArea ≤ (dataArea + q - 1) / q * q := le_ceil_mul hpos
        _ ≤ max ((dataArea + q - 1) / q) 1 * q :=
            Nat.mul_le_mul_right q (Nat.le_max_left _ _)
    · rw [Nat.min_eq_right hge]
      calc dataArea ≤ 64 * ((dataArea + 64 - 1) / 64) := by omega
        _ ≤ 64 * q := Nat.mul_le_mul_left 64 hround

theorem retentionGeometry_chunks (dataArea : Nat) :
    0 < (retentionGeometry dataArea).1 ∧
      (retentionGeometry dataArea).1 ≤ kMaxChunks := by
  unfold retentionGeometry
  split
  · simp [kMaxChunks]
  · simp only [kMaxChunks]
    omega

/-- `configure_frontier`: retention cuts the data area into chunks, flush
mode takes it whole. -/
def configureFrontier (offset dataStart size : Nat) (wrapRetention : Bool)
    (hfits : dataStart < size) (haligned : dataStart % 8 = 0) : Stripe where
  offset := offset
  dataStart := dataStart
  size := size
  chunks := if wrapRetention then (retentionGeometry (size - dataStart)).1 else 1
  chunkSize :=
    if wrapRetention then (retentionGeometry (size - dataStart)).2
    else size - dataStart
  retain := wrapRetention
  start_lt := hfits
  start_aligned := haligned
  chunks_pos := by
    split
    · exact (retentionGeometry_chunks _).1
    · exact Nat.one_pos
  chunks_le := by
    split
    · exact (retentionGeometry_chunks _).2
    · simp [kMaxChunks]
  covered := by
    split
    · have := retentionGeometry_covers (size - dataStart)
      omega
    · omega
  flush_one := by
    intro h
    rw [h]
    rfl

namespace Stripe

variable (st : Stripe)

/-- A node starts inside the data area with room for a header. -/
def inDataArea (o : Nat) : Bool :=
  st.dataStart ≤ o && o < st.size && o + kHeaderSize ≤ st.size

/-- The chunk a document starts in. -/
def chunkOf (o : Nat) : Nat :=
  if st.chunks ≤ 1 ∨ o ≤ st.dataStart ∨ st.chunkSize = 0 then 0
  else
    let c := (o - st.dataStart) / st.chunkSize
    if c ≥ st.chunks then st.chunks - 1 else c

/-- The end of the clean runway for a frontier index. -/
def frontierRelOf (f : Nat) : Nat :=
  if f ≥ st.chunks then st.size
  else
    let rel := st.dataStart + f * st.chunkSize
    if rel < st.size then rel else st.size

/-- `chunk_index_ceil`: the first frontier index whose runway reaches `o`. -/
def chunkIndexCeil (o : Nat) : Nat :=
  if o ≤ st.dataStart ∨ st.chunkSize = 0 then 0
  else min ((o - st.dataStart + st.chunkSize - 1) / st.chunkSize) st.chunks

def passOf (gen : Nat) : Nat := gen / (st.chunks + 1)

/-- The frontier index of a generation word, as readers and writers clamp
it. -/
def frontierOf (gen : Nat) : Nat := min (gen % (st.chunks + 1)) st.chunks

/-- The word that stands for a pass and a frontier index. -/
def genOf (pass f : Nat) : Nat := pass * (st.chunks + 1) + f

/-- A document of `pass` at `o` is exposed once the generation is past
this. -/
def exposureThreshold (pass o : Nat) : Nat :=
  (pass + 1) * (st.chunks + 1) + st.chunkOf o

end Stripe

/-- `StripeSnapshot`, taken before the directory is probed. -/
structure StripeSnapshot where
  gen : Nat
  pass : Nat
  frontier : Nat
  phase : Bool
  cursorRel : Nat
  frontierRel : Nat
  deriving DecidableEq

inductive AdmitClass where
  | kReject
  | kCurrent
  | kRetained
  deriving DecidableEq

/-- The low bit of a pass, which its directory entries carry. -/
def phaseOf (pass : Nat) : Bool := pass % 2 == 1

namespace Stripe

variable (st : Stripe)

/-- `snapshot`, from the two words it loads: the generation first, then the
cursor, clamped to the stripe. -/
def snapshot (gen cursor : Nat) : StripeSnapshot where
  gen := gen
  pass := st.passOf gen
  frontier := min (gen - st.passOf gen * (st.chunks + 1)) st.chunks
  phase := phaseOf (st.passOf gen)
  cursorRel := min cursor st.size
  frontierRel :=
    st.frontierRelOf (min (gen - st.passOf gen * (st.chunks + 1)) st.chunks)

/-- May a directory entry be mapped? Entries of this pass lie behind the
cursor; entries of the previous one lie at or past the frontier. -/
def admitPosition (o : Nat) (entryPhase : Bool) (snap : StripeSnapshot) :
    AdmitClass :=
  if !st.inDataArea o then .kReject
  else if entryPhase = snap.phase then
    if o < snap.cursorRel then .kCurrent else .kReject
  else if st.retain ∧ snap.pass > 0 ∧ o ≥ snap.frontierRel then .kRetained
  else .kReject

/-- The pass a document of this class must carry. -/
def expectedPass (cls : AdmitClass) (snap : StripeSnapshot) : Nat :=
  if cls = .kRetained then snap.pass - 1 else snap.pass

/-- May a walk follow a link from `source` to `target`? Live links point
down, within the class of their source. -/
def admitHop (target source : Nat) (cls : AdmitClass) (snap : StripeSnapshot) :
    AdmitClass :=
  if target = 0 ∨ !st.inDataArea target ∨ target ≥ source then .kReject
  else if cls = .kCurrent then
    if target < snap.cursorRel then .kCurrent else .kReject
  else if cls = .kRetained ∧ st.retain ∧ target ≥ snap.frontierRel then
    .kRetained
  else .kReject

/-- The pass stamp a document carries is 32 bits wide; flush mode does not
look at it. -/
def stampAdmits (snap : StripeSnapshot) (cls : AdmitClass)
    (writeSerial : Nat) : Bool :=
  !st.retain || writeSerial == expectedPass cls snap % 2 ^ 32

/-- `admit_document`: the stamp, then the exposure threshold against the
snapshot. -/
def admitDocument (snap : StripeSnapshot) (cls : AdmitClass) (o : Nat)
    (writeSerial : Nat) : Option Nat :=
  if cls = .kReject ∨ !st.stampAdmits snap cls writeSerial then none
  else
    let threshold := st.exposureThreshold (expectedPass cls snap) o
    if snap.gen > threshold then none else some threshold

end Stripe

/-- A stripe to evaluate the model on: 1 KiB of data, in two chunks with
retention. -/
def smallStripe (retain : Bool) : Stripe where
  offset := 0
  dataStart := 8
  size := 1032
  chunks := if retain then 2 else 1
  chunkSize := if retain then 512 else 1024
  retain := retain
  start_lt := by decide
  start_aligned := rfl
  chunks_pos := by cases retain <;> decide
  chunks_le := by cases retain <;> decide
  covered := by cases retain <;> decide
  flush_one := by intro h; rw [h]; rfl

end CycloneCache.Ref

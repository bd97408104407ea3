import CycloneCache.Ref.Document

/-!
# The directory

A bucket of the directory has four packed entries. An entry names a document
by 40 bits of its offset, carries 12 bits of the key's hash as a tag, the
phase of the pass it was published in, the serial of the fill it was
published for, and the length rounded up to a block size. Nothing in it is
the key itself, so the code that follows an entry compares the key stored in
the document.

`origin` is not part of an entry: it remembers the document the entry was
published for, so that later statements can say when the entry still leads to
that document. No definition reads it.
-/

namespace CycloneCache.Ref

open Lib

/-- A document as its fill wrote it. -/
structure Record where
  key : CacheKey
  start : Nat
  pass : Nat
  doc : Document
  header : List UInt8
  content : List UInt8
  deriving DecidableEq

structure DirEntry where
  offset : Nat
  big : Nat
  size : Nat
  tag : Nat
  phase : Bool
  head : Bool
  fillSerial : Nat
  origin : Option Record
  deriving DecidableEq

namespace DirEntry

def kBlockSize : Nat := 512

def empty : DirEntry := ⟨0, 0, 0, 0, false, false, 0, none⟩

def isEmpty (e : DirEntry) : Bool := e.offset == 0

/-- `set_offset`: 40 bits of it. -/
def setOffset (e : DirEntry) (offset : Nat) : DirEntry :=
  { e with offset := offset % 2 ^ 40 }

def approxSize (e : DirEntry) : Nat := (e.size + 1) * kBlockSize * 2 ^ e.big

/-- The smallest block size that fits, or the largest there is. -/
def bigFor (bytes : Nat) : Nat :=
  if bytes ≤ 64 * kBlockSize then 0
  else if bytes ≤ 64 * kBlockSize * 2 then 1
  else if bytes ≤ 64 * kBlockSize * 4 then 2
  else 3

/-- The number of blocks, rounded up and capped at 64. -/
def blocksFor (bytes : Nat) : Nat :=
  let blockSize := kBlockSize * 2 ^ bigFor bytes
  min (max ((bytes + blockSize - 1) / blockSize) 1) 64

def setApproxSize (e : DirEntry) (bytes : Nat) : DirEntry :=
  { e with big := bigFor bytes, size := blocksFor bytes - 1 }

end DirEntry

/-- The three of its five words that an entry's offset is packed into. The
upper half of `w1` belongs to the size. -/
structure DirWords where
  w0 : BitVec 16
  w1 : BitVec 16
  w4 : BitVec 16
  deriving DecidableEq

namespace DirWords

/-- `DirEntry::offset` -/
def offset (w : DirWords) : BitVec 64 :=
  w.w0.setWidth 64 ||| ((w.w1 &&& 0xFF#16).setWidth 64 <<< 16) ||| (w.w4.setWidth 64 <<< 24)

/-- `DirEntry::set_offset` -/
def setOffset (w : DirWords) (offset : BitVec 64) : DirWords where
  w0 := (offset &&& 0xFFFF#64).setWidth 16
  w1 := (w.w1 &&& 0xFF00#16) ||| ((offset >>> 16) &&& 0xFF#64).setWidth 16
  w4 := ((offset >>> 24) &&& 0xFFFF#64).setWidth 16

end DirWords

abbrev Bucket := List DirEntry

/-- What a publish stores into its entry. -/
structure Publication where
  tag : Nat
  offset : Nat
  size : Nat
  fillSerial : Nat
  phase : Bool
  record : Record

namespace Publication

/-- The verified entry is updated in place, -/
def update (p : Publication) (e : DirEntry) : DirEntry :=
  { (e.setOffset p.offset).setApproxSize p.size with
    fillSerial := p.fillSerial, phase := p.phase, origin := some p.record }

/-- any other slot gets a new entry. -/
def entry (p : Publication) : DirEntry :=
  { p.update DirEntry.empty with tag := p.tag, head := true }

end Publication

structure InsertChoice where
  slot : Nat
  verified : Bool
  deriving DecidableEq

/-- The first entry with the lowest offset among those that satisfy `p`. -/
def oldestIdx (p : DirEntry → Bool) : Bucket → Nat → Option (Nat × Nat) → Option Nat
  | [], _, best => best.map Prod.snd
  | e :: es, i, best =>
    let better := match best with
      | none => true
      | some (o, _) => e.offset < o
    oldestIdx p es (i + 1) (if p e && better then some (e.offset, i) else best)

/-- `choose_insert_slot`: the verified entry, else a dead entry at the new
offset, an empty slot, an inadmissible entry, a colliding one, and at last the
oldest, a retained one first. -/
def chooseInsertSlot (bucket : Bucket) (tag : Nat) (verified : Option Nat)
    (classify : DirEntry → AdmitClass) (newOffset : Nat) : Option InsertChoice :=
  let sameSpot := fun e : DirEntry =>
    !e.isEmpty && newOffset != 0 && e.tag == tag && e.offset == newOffset
  let live := fun e : DirEntry =>
    !e.isEmpty && !sameSpot e && classify e != .kReject
  let other (i : Nat) : InsertChoice := ⟨i, false⟩
  match bucket.findIdx? fun e =>
      !e.isEmpty && e.tag == tag && verified == some e.offset with
  | some i => some ⟨i, true⟩
  | none =>
    (bucket.findIdx? sameSpot).map other
    <|> (bucket.findIdx? (·.isEmpty)).map other
    <|> (bucket.findIdx? fun e =>
        !e.isEmpty && !sameSpot e && classify e == .kReject).map other
    <|> (bucket.findIdx? fun e => live e && e.tag == tag).map other
    <|> (oldestIdx (fun e => live e && classify e == .kRetained) bucket 0 none).map other
    <|> (oldestIdx (fun e => live e && classify e == .kCurrent) bucket 0 none).map other

/-- Why an insert took the place of a live entry. -/
inductive Eviction where
  | collision
  | bucketFull
  deriving DecidableEq

/-- What `choose_insert_slot` reports: `collision_evicted`, `bucket_full_evicted`
or neither. -/
def evictionReport (bucket : Bucket) (tag : Nat) (verified : Option Nat)
    (classify : DirEntry → AdmitClass) (newOffset : Nat) : Option Eviction :=
  let sameSpot := fun e : DirEntry =>
    !e.isEmpty && newOffset != 0 && e.tag == tag && e.offset == newOffset
  let live := fun e : DirEntry =>
    !e.isEmpty && !sameSpot e && classify e != .kReject
  if bucket.any fun e => !e.isEmpty && e.tag == tag && verified == some e.offset then none
  else if bucket.any sameSpot || bucket.any (·.isEmpty) ||
      bucket.any (fun e => !e.isEmpty && !sameSpot e && classify e == .kReject) then none
  else if bucket.any fun e => live e && e.tag == tag then some .collision
  else if bucket.any live then some .bucketFull
  else none

/-- `publish_view_is_current`: the verified entry is there, and every other
admitted entry of the tag was seen by the probe. -/
def viewIsCurrent (bucket : Bucket) (tag : Nat) (verified : Option Nat)
    (classify : DirEntry → AdmitClass) (seen : List Nat) (newOffset : Nat) : Bool :=
  (verified.isNone ||
    bucket.any fun e => !e.isEmpty && e.tag == tag && verified == some e.offset) &&
  bucket.all fun e =>
    e.isEmpty || e.tag != tag || verified == some e.offset ||
      (newOffset != 0 && e.offset == newOffset) || classify e == .kReject ||
      seen.contains e.offset

/-- The cleanup in the bracket of an insert. -/
def clearOthers (bucket : Bucket) (slot tag newOffset : Nat) (clears : List Nat) :
    Bucket :=
  bucket.mapIdx fun i e =>
    if i ≠ slot ∧ !e.isEmpty ∧ e.tag = tag ∧ (e.offset = newOffset ∨ e.offset ∈ clears)
    then .empty else e

inductive InsertResult where
  | published (bucket : Bucket)
  | stale
  | failed

/-- `Directory::insert` with an admission and a view. -/
def insert (bucket : Bucket) (p : Publication) (verified : Option Nat)
    (classify : DirEntry → AdmitClass) (clears seen : List Nat) : InsertResult :=
  if !viewIsCurrent bucket p.tag verified classify seen p.offset then .stale
  else
    match chooseInsertSlot bucket p.tag verified classify p.offset with
    | none => .failed
    | some c =>
      let stored := bucket.modify c.slot fun e => if c.verified then p.update e else p.entry
      .published (clearOthers stored c.slot p.tag p.offset clears)

/-- `remove_all_at`: the entries of the tag at any of the offsets. -/
def removeAllAt (bucket : Bucket) (tag : Nat) (offsets : List Nat) : Bucket :=
  bucket.map fun e =>
    if !e.isEmpty ∧ e.tag = tag ∧ e.offset ∈ offsets then .empty else e

/-- The entries of a tag that a snapshot admits, with their class. -/
def probeEach (st : Stripe) (bucket : Bucket) (tag : Nat) (snap : StripeSnapshot) :
    List (DirEntry × AdmitClass) :=
  bucket.filterMap fun e =>
    if e.isEmpty ∨ e.tag ≠ tag then none
    else
      match st.admitPosition e.offset e.phase snap with
      | .kReject => none
      | cls => some (e, cls)

end CycloneCache.Ref

import CycloneCache.Ref.Directory

/-!
# The two directories

A stripe keeps its entries in a `Directory` of its own process or in a
`MmapDirectory` that other processes share. Both run `choose_insert_slot` and
`publish_view_is_current` over a bucket of four packed entries, and each has
its own text for what comes after: what is stored into the slot, what is
cleared beside it, and what is counted.

This is the sequential behaviour. In the shared directory every bracket gets
its locks at once, so no call reports `busy`; the versions of the buckets are
a subject of their own.
-/

namespace CycloneCache.Ref

open Function

/-- An entry as it lies in memory: five words of 16 bits. -/
structure PackedEntry where
  w0 : BitVec 16
  w1 : BitVec 16
  w2 : BitVec 16
  w3 : BitVec 16
  w4 : BitVec 16
  deriving DecidableEq

namespace PackedEntry

/-- What `clear` leaves, and what a new entry starts from. -/
def cleared : PackedEntry := ⟨0, 0, 0, 0, 0⟩

def offsetWords (e : PackedEntry) : DirWords := ⟨e.w0, e.w1, e.w4⟩

def offset (e : PackedEntry) : BitVec 64 := e.offsetWords.offset

def setOffset (e : PackedEntry) (offset : BitVec 64) : PackedEntry :=
  let w := e.offsetWords.setOffset offset
  { e with w0 := w.w0, w1 := w.w1, w4 := w.w4 }

def big (e : PackedEntry) : Nat := ((e.w1 >>> 8) &&& 0x03#16).toNat

def setBig (e : PackedEntry) (big : Nat) : PackedEntry :=
  { e with w1 := (e.w1 &&& ~~~0x0300#16) ||| ((BitVec.ofNat 16 big &&& 0x03#16) <<< 8) }

def size (e : PackedEntry) : Nat := ((e.w1 >>> 10) &&& 0x3F#16).toNat

def setSize (e : PackedEntry) (size : Nat) : PackedEntry :=
  { e with w1 := (e.w1 &&& 0x03FF#16) ||| ((BitVec.ofNat 16 size &&& 0x3F#16) <<< 10) }

def setApproxSize (e : PackedEntry) (bytes : Nat) : PackedEntry :=
  (e.setBig (DirEntry.bigFor bytes)).setSize (DirEntry.blocksFor bytes - 1)

/-- The loop of `set_approx_size`: the first block size of which 64 are enough,
or the last. -/
def bigLoop (bytes : BitVec 64) (b : Nat) : Nat :=
  if bytes > (63 + 1) * 512 * (1#64 <<< b) ∧ b < 3 then bigLoop bytes (b + 1) else b
termination_by 3 - b

/-- `set_approx_size`, on the words it computes with. -/
def storeApproxSize (e : PackedEntry) (bytes : BitVec 64) : PackedEntry :=
  let b := bigLoop bytes 0
  let blockSize := 512#64 <<< b
  let blocks := (bytes + blockSize - 1) / blockSize
  let blocks := if blocks = 0 then 1 else blocks
  let blocks := if blocks > 64 then 64 else blocks
  (e.setBig b).setSize ((blocks - 1).setWidth 8).toNat

def approxSize (e : PackedEntry) : BitVec 64 :=
  ((BitVec.ofNat 64 e.size + 1) * 512) <<< e.big

def tag (e : PackedEntry) : Nat := (e.w2 &&& 0x0FFF#16).toNat

def setTag (e : PackedEntry) (tag : Nat) : PackedEntry :=
  { e with w2 := (e.w2 &&& 0xF000#16) ||| (BitVec.ofNat 16 tag &&& 0x0FFF#16) }

def phase (e : PackedEntry) : Bool := (e.w2 >>> 12) &&& 0x01#16 != 0

def setPhase (e : PackedEntry) (phase : Bool) : PackedEntry :=
  { e with w2 := (e.w2 &&& ~~~0x1000#16) ||| (if phase then 0x1000#16 else 0) }

def head (e : PackedEntry) : Bool := (e.w2 >>> 13) &&& 0x01#16 != 0

def pinned (e : PackedEntry) : Bool := (e.w2 >>> 14) &&& 0x01#16 != 0

def setHead (e : PackedEntry) (head : Bool) : PackedEntry :=
  { e with w2 := (e.w2 &&& ~~~0x2000#16) ||| (if head then 0x2000#16 else 0) }

def fillSerial (e : PackedEntry) : BitVec 16 := e.w3

def setFillSerial (e : PackedEntry) (serial : BitVec 16) : PackedEntry :=
  { e with w3 := serial }

def isEmpty (e : PackedEntry) : Bool := e.offset == 0

end PackedEntry

namespace Directories

abbrev Bucket := List PackedEntry

def kEntriesPerBucket : Nat := 4

/-- Trust the tag, -/
def kMatchAnyTag : BitVec 64 := 0xFFFFFFFFFFFFFFFF#64

/-- or no entry holds the key. -/
def kNoVerifiedEntry : BitVec 64 := 0xFFFFFFFFFFFFFFFE#64

/-- `InsertAdmission::classify`, after its refresh. -/
abbrev Admission := BitVec 64 → Bool → AdmitClass

/-- The arguments of an insert beside the key, with the phase and the admission
it finds. -/
structure Insert where
  offset : BitVec 64
  size : Nat
  verified : BitVec 64
  clears : List (BitVec 64)
  view : Option (List (BitVec 64))
  fillSerial : BitVec 16
  phase : Bool
  classify : Admission

/-- The slots that the scan of `choose_insert_slot` remembers, the oldest ones
with their offset. -/
structure Candidates where
  sameSpot : Option Nat := none
  firstEmpty : Option Nat := none
  firstInadmissible : Option Nat := none
  firstCollider : Option Nat := none
  oldestRetained : Option (Nat × BitVec 64) := none
  oldestCurrent : Option (Nat × BitVec 64) := none

def lower (oldest : Option (Nat × BitVec 64)) (i : Nat) (e : PackedEntry) :
    Option (Nat × BitVec 64) :=
  match oldest with
  | none => some (i, e.offset)
  | some (j, o) => if e.offset < o then some (i, e.offset) else some (j, o)

/-- The verified entry of the key ends the scan. -/
def isVerified (tag : Nat) (c : Insert) (e : PackedEntry) : Bool :=
  !e.isEmpty && e.tag == tag &&
    if c.verified = kMatchAnyTag then c.classify e.offset e.phase != .kReject
    else e.offset == c.verified

/-- Any other entry is remembered for what it is good for. -/
def Candidates.note (tag : Nat) (c : Insert) (found : Candidates) (i : Nat) (e : PackedEntry) : Candidates :=
  if e.isEmpty then { found with firstEmpty := found.firstEmpty <|> some i }
  else if c.offset ≠ 0 ∧ e.tag = tag ∧ e.offset = c.offset then
    { found with sameSpot := found.sameSpot <|> some i }
  else if c.classify e.offset e.phase = .kReject then
    { found with firstInadmissible := found.firstInadmissible <|> some i }
  else if e.tag = tag then
    { found with firstCollider := found.firstCollider <|> some i }
  else if c.classify e.offset e.phase = .kRetained then
    { found with oldestRetained := lower found.oldestRetained i e }
  else { found with oldestCurrent := lower found.oldestCurrent i e }

def scan (tag : Nat) (c : Insert) : Bucket → Nat → Candidates → Nat ⊕ Candidates
  | [], _, found => .inr found
  | e :: es, i, found =>
    if isVerified tag c e then .inl i else scan tag c es (i + 1) (found.note tag c i e)

/-- `replaces`: the slot held an entry. `verified`: it is the entry of the key. -/
structure Choice where
  slot : Option Nat
  replaces : Bool
  verified : Bool
  evicted : Option Eviction
  deriving DecidableEq

def chooseInsertSlot (tag : Nat) (c : Insert) (bucket : Bucket) : Choice :=
  match scan tag c bucket 0 {} with
  | .inl i => ⟨some i, true, true, none⟩
  | .inr found =>
    match found.sameSpot, found.firstEmpty, found.firstInadmissible, found.firstCollider with
    | some i, _, _, _ => ⟨some i, true, false, none⟩
    | none, some i, _, _ => ⟨some i, false, false, none⟩
    | none, none, some i, _ => ⟨some i, true, false, none⟩
    | none, none, none, some i => ⟨some i, true, false, some .collision⟩
    | none, none, none, none =>
      match found.oldestRetained <|> found.oldestCurrent with
      | some (i, _) => ⟨some i, true, false, some .bucketFull⟩
      | none => ⟨none, false, false, none⟩

/-- The loop of `publish_view_is_current`. -/
def viewHolds (tag : Nat) (c : Insert) (seen : List (BitVec 64)) : Bucket → Bool → Bool
  | [], verifiedFound => verifiedFound
  | e :: es, verifiedFound =>
    if e.isEmpty ∨ e.tag ≠ tag then viewHolds tag c seen es verifiedFound
    else if e.offset = c.verified then viewHolds tag c seen es true
    else if c.offset ≠ 0 ∧ e.offset = c.offset then viewHolds tag c seen es verifiedFound
    else if c.classify e.offset e.phase = .kReject then viewHolds tag c seen es verifiedFound
    else if seen.contains e.offset then viewHolds tag c seen es verifiedFound
    else false

def publishViewIsCurrent (tag : Nat) (c : Insert) (seen : List (BitVec 64)) (bucket : Bucket) : Bool :=
  viewHolds tag c seen bucket (c.verified == kMatchAnyTag || c.verified == kNoVerifiedEntry)

/-- The conditional publish finds its view out of date. -/
def publishViewStale (tag : Nat) (c : Insert) (bucket : Bucket) : Bool :=
  c.view.any fun seen => !publishViewIsCurrent tag c seen bucket

/-- The loops that clear entries: the bucket after one, and how many it cleared. -/
def clearWhere (dies : Nat → PackedEntry → Bool) : Nat → Bucket → Bucket × Nat
  | _, [] => ([], 0)
  | i, e :: es =>
    let rest := clearWhere dies (i + 1) es
    if dies i e then (.cleared :: rest.1, rest.2 + 1) else (e :: rest.1, rest.2)

/-- The uniqueness cleanup beside the slot of an insert. -/
def cleanup (tag : Nat) (c : Insert) (slot : Nat) (bucket : Bucket) : Bucket × Nat :=
  clearWhere (fun i e => i != slot && !e.isEmpty && e.tag == tag &&
    (e.offset == c.offset || c.clears.contains e.offset)) 0 bucket

structure InsertAnswer where
  inserted : Bool
  stale : Bool
  evicted : Option Eviction
  deriving DecidableEq

/-- What an insert does in its bracket: the bucket, whether an entry was added
to it, and how many were cleared. -/
structure Bracket where
  bucket : Bucket
  added : Bool
  cleared : Nat
  answer : InsertAnswer
  deriving DecidableEq

/-- The chosen slot then holds what `store` makes of its entry. -/
def publish (store : PackedEntry → PackedEntry) (tag : Nat) (c : Insert) (bucket : Bucket)
    (choice : Choice) : Bracket :=
  match choice.slot with
  | none => ⟨bucket, false, 0, ⟨false, false, choice.evicted⟩⟩
  | some slot =>
    let out := cleanup tag c slot (bucket.modify slot store)
    ⟨out.1, !choice.replaces, out.2, ⟨true, false, choice.evicted⟩⟩

def bracket (store : Choice → PackedEntry → PackedEntry) (tag : Nat) (c : Insert) (bucket : Bucket) :
    Bracket :=
  if publishViewStale tag c bucket then ⟨bucket, false, 0, ⟨false, true, none⟩⟩
  else publish (store (chooseInsertSlot tag c bucket)) tag c bucket (chooseInsertSlot tag c bucket)

/-- `remove`: the first entry of the tag. -/
def removeFirst (tag : Nat) : Bucket → Option Bucket
  | [] => none
  | e :: es =>
    if !e.isEmpty && e.tag == tag then some (.cleared :: es)
    else (removeFirst tag es).map (e :: ·)

/-- `remove_at`: every entry of the tag at the offset. -/
def removeAt (tag : Nat) (target : BitVec 64) (bucket : Bucket) : Bucket × Nat :=
  clearWhere (fun _ e => !e.isEmpty && e.tag == tag && e.offset == target) 0 bucket

/-- The bucket counts that `MmapDirectory::create` accepts. -/
structure Size where
  buckets : Nat
  pos : 0 < buckets
  fits : buckets < 2 ^ 32

def Size.bucketIdx (z : Size) (key : CacheKey) : Fin z.buckets :=
  ⟨key.bucketHash % z.buckets, Nat.mod_lt _ z.pos⟩

abbrev Entries (z : Size) := Fin z.buckets → Bucket

def noEntries (z : Size) : Entries z := fun _ => List.replicate kEntriesPerBucket .cleared

abbrev inUse (e : PackedEntry) : Bool := !e.isEmpty

/-- The number of slots in use. -/
def occupied {z : Size} (entries : Entries z) : Nat := ∑ i, (entries i).countP inUse

inductive Call where
  | insert (key : CacheKey) (c : Insert)
  | remove (key : CacheKey)
  | removeAt (key : CacheKey) (offset : BitVec 64)
  /-- `Stripe::remove_entries_at` -/
  | removeEntriesAt (key : CacheKey) (offsets : List (BitVec 64))

inductive Answer where
  | insert (answer : InsertAnswer)
  | removed (found : Bool)
  | mask (mask : BitVec 32)
  deriving DecidableEq

/-- An entry can name the offset. -/
def Insert.Ok (c : Insert) : Prop := c.offset ≠ 0 ∧ c.offset.toNat < 2 ^ 40

/-- The answer of a removal has one bit for each offset. -/
def Call.Ok : Call → Prop
  | .insert _ c => c.Ok
  | .removeEntriesAt _ offsets => offsets.length ≤ 32
  | _ => True

/-- The call is an insert that puts its entry into an empty slot. -/
def Call.takesEmptySlot {z : Size} (entries : Entries z) : Call → Bool
  | .insert key c =>
    let bucket := entries (z.bucketIdx key)
    let choice := chooseInsertSlot key.tag c bucket
    !publishViewStale key.tag c bucket && choice.slot.isSome && !choice.replaces
  | _ => false

/-- The directory of one process counts in a `size_t`, -/
structure Directory (z : Size) where
  entries : Entries z
  count : BitVec 64

/-- the shared one in 32 bits of its header. -/
structure MmapDirectory (z : Size) where
  entries : Entries z
  count : BitVec 32

namespace Directory

variable {z : Size}

def empty (z : Size) : Directory z := ⟨noEntries z, 0⟩

/-- The verified entry is changed in place, any other slot gets a new entry. -/
def store (tag : Nat) (c : Insert) (choice : Choice) (e : PackedEntry) : PackedEntry :=
  if choice.verified then
    (((e.setOffset c.offset).setApproxSize c.size).setFillSerial c.fillSerial).setPhase c.phase
  else
    (((((PackedEntry.cleared.setOffset c.offset).setApproxSize c.size).setFillSerial
      c.fillSerial).setTag tag).setPhase c.phase).setHead true

def insert (d : Directory z) (key : CacheKey) (c : Insert) : Directory z × InsertAnswer :=
  let idx := z.bucketIdx key
  let b := bracket (store key.tag c) key.tag c (d.entries idx)
  let count := if b.added then d.count + 1#64 else d.count
  (⟨update d.entries idx b.bucket, count - BitVec.ofNat 64 b.cleared⟩, b.answer)

def remove (d : Directory z) (key : CacheKey) : Directory z × Bool :=
  let idx := z.bucketIdx key
  match removeFirst key.tag (d.entries idx) with
  | none => (d, false)
  | some bucket => (⟨update d.entries idx bucket, d.count - 1#64⟩, true)

def removeAt (d : Directory z) (key : CacheKey) (target : BitVec 64) : Directory z × Bool :=
  let idx := z.bucketIdx key
  let out := Directories.removeAt key.tag target (d.entries idx)
  (⟨update d.entries idx out.1, d.count - BitVec.ofNat 64 out.2⟩, out.2 != 0)

/-- The loop of `remove_entries_at`: one removal after the other. -/
def removeEach (key : CacheKey) : Directory z → Nat → List (BitVec 64) → BitVec 32 →
    Directory z × BitVec 32
  | d, _, [], mask => (d, mask)
  | d, i, o :: os, mask =>
    let out := d.removeAt key o
    removeEach key out.1 (i + 1) os (if out.2 then mask ||| 1#32 <<< i else mask)

def apply (d : Directory z) : Call → Directory z × Answer
  | .insert key c => (d.insert key c).map id .insert
  | .remove key => (d.remove key).map id .removed
  | .removeAt key offset => (d.removeAt key offset).map id .removed
  | .removeEntriesAt key offsets => (removeEach key d 0 offsets 0).map id .mask

def run (d : Directory z) : List Call → Directory z × List Answer
  | [] => (d, [])
  | c :: cs =>
    let out := d.apply c
    let rest := run out.1 cs
    (rest.1, out.2 :: rest.2)

end Directory

namespace MmapDirectory

variable {z : Size}

def empty (z : Size) : MmapDirectory z := ⟨noEntries z, 0⟩

/-- An entry is built beside the slot and copied into it. -/
def store (tag : Nat) (c : Insert) (choice : Choice) (e : PackedEntry) : PackedEntry :=
  let newEntry := if choice.verified then e else .cleared
  let newEntry := ((((newEntry.setOffset c.offset).setApproxSize c.size).setFillSerial
    c.fillSerial).setTag tag).setPhase c.phase
  if choice.verified then newEntry else newEntry.setHead true

/-- `decrement_count` stops at zero. -/
def decrementCount (count : BitVec 32) : BitVec 32 :=
  if count = 0 then count else count - 1#32

def insert (d : MmapDirectory z) (key : CacheKey) (c : Insert) :
    MmapDirectory z × InsertAnswer :=
  let idx := z.bucketIdx key
  let b := bracket (store key.tag c) key.tag c (d.entries idx)
  let count := if b.added then d.count + 1#32 else d.count
  (⟨update d.entries idx b.bucket, decrementCount^[b.cleared] count⟩, b.answer)

def remove (d : MmapDirectory z) (key : CacheKey) : MmapDirectory z × Bool :=
  let idx := z.bucketIdx key
  match removeFirst key.tag (d.entries idx) with
  | none => (d, false)
  | some bucket => (⟨update d.entries idx bucket, decrementCount d.count⟩, true)

def removeAt (d : MmapDirectory z) (key : CacheKey) (target : BitVec 64) :
    MmapDirectory z × Bool :=
  let idx := z.bucketIdx key
  let out := Directories.removeAt key.tag target (d.entries idx)
  (⟨update d.entries idx out.1, decrementCount^[out.2] d.count⟩, out.2 != 0)

/-- The loop of `remove_all_at`: one pass over the bucket, which stops at the
first of the offsets that an entry is at. -/
def clearListed (tag : Nat) (offsets : List (BitVec 64)) :
    Bucket → BitVec 32 → Bucket × Nat × BitVec 32
  | [], mask => ([], 0, mask)
  | e :: es, mask =>
    if e.isEmpty ∨ e.tag ≠ tag then
      let rest := clearListed tag offsets es mask
      (e :: rest.1, rest.2)
    else
      match offsets.findIdx? (e.offset == ·) with
      | none =>
        let rest := clearListed tag offsets es mask
        (e :: rest.1, rest.2)
      | some o =>
        let rest := clearListed tag offsets es (mask ||| 1#32 <<< o)
        (.cleared :: rest.1, rest.2.1 + 1, rest.2.2)

def removeAllAt (d : MmapDirectory z) (key : CacheKey) (offsets : List (BitVec 64)) :
    MmapDirectory z × BitVec 32 :=
  if offsets.isEmpty ∨ offsets.length > 32 then (d, 0)
  else
    let idx := z.bucketIdx key
    let out := clearListed key.tag offsets (d.entries idx) 0
    (⟨update d.entries idx out.1, decrementCount^[out.2.1] d.count⟩, out.2.2)

def apply (d : MmapDirectory z) : Call → MmapDirectory z × Answer
  | .insert key c => (d.insert key c).map id .insert
  | .remove key => (d.remove key).map id .removed
  | .removeAt key offset => (d.removeAt key offset).map id .removed
  | .removeEntriesAt key offsets => (d.removeAllAt key offsets).map id .mask

def run (d : MmapDirectory z) : List Call → MmapDirectory z × List Answer
  | [] => (d, [])
  | c :: cs =>
    let out := d.apply c
    let rest := run out.1 cs
    (rest.1, out.2 :: rest.2)

end MmapDirectory

section Runs

variable (z : Size) (calls : List Call)

/-- The directories after the calls, both from empty. -/
def inProcess : Directory z := ((Directory.empty z).run calls).1

def inShared : MmapDirectory z := ((MmapDirectory.empty z).run calls).1

/-- After the calls the two directories hold the same, have answered the same,
and have counted what they hold. -/
structure SameAfter : Prop where
  entries : (inProcess z calls).entries = (inShared z calls).entries
  answers : ((Directory.empty z).run calls).2 = ((MmapDirectory.empty z).run calls).2
  count : (inProcess z calls).count.toNat = occupied (inProcess z calls).entries
  sharedCount : (inShared z calls).count.toNat = occupied (inShared z calls).entries

end Runs

end Directories

end CycloneCache.Ref

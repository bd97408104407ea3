import CycloneCache.Lib.Run
import CycloneCache.Ref.Directories

/-!
# The entry count that processes share

An insert or removal of the shared directory works on its bucket while it holds
the bucket's version odd, releases it, and then brings `entry_count` up to date:
one increment, or one decrement for each entry it cleared, each an atomic
operation of its own. Nothing orders the counting of two calls, whatever the
order of their brackets was.

Without crashes and recoveries a version is odd exactly while one call holds
it, so a bucket is locked by a process here. The phase lock only makes an
insert start over or give up. What is called ghost is not in the program.
-/

namespace CycloneCache.Ref.Directories.SharedCount

open Lib Function

/-! ## The brackets -/

/-- What a bracket does to its bucket, and what is to be counted for it. -/
structure Work where
  bucket : Bucket
  added : Bool
  cleared : Nat
  deriving DecidableEq

/-- The slots that the scan of an insert without an admission remembers. -/
structure Places where
  firstEmpty : Option Nat := none
  firstStale : Option Nat := none
  firstCollider : Option Nat := none
  nearestToClobber : Option (Nat × BitVec 64) := none

/-- The scan of an insert without an admission. It ends at an entry of the key. -/
def scanUnadmitted (tag : Nat) (c : Insert) : Bucket → Nat → Places → Nat ⊕ Places
  | [], _, found => .inr found
  | e :: es, i, found =>
    if e.isEmpty then
      scanUnadmitted tag c es (i + 1) { found with firstEmpty := found.firstEmpty <|> some i }
    else
      let found := { found with nearestToClobber := lower found.nearestToClobber i e }
      if e.tag = tag ∧ e.phase = c.phase then
        if c.verified = kMatchAnyTag ∨ e.offset = c.verified then .inl i
        else scanUnadmitted tag c es (i + 1)
          { found with firstCollider := found.firstCollider <|> some i }
      else if e.phase ≠ c.phase then
        scanUnadmitted tag c es (i + 1) { found with firstStale := found.firstStale <|> some i }
      else scanUnadmitted tag c es (i + 1) found

def chooseUnadmitted (tag : Nat) (c : Insert) (bucket : Bucket) : Choice :=
  match scanUnadmitted tag c bucket 0 {} with
  | .inl i => ⟨some i, true, true, none⟩
  | .inr found =>
    match found.firstEmpty, found.firstStale, found.firstCollider, found.nearestToClobber with
    | some i, _, _, _ => ⟨some i, false, false, none⟩
    | none, some i, _, _ => ⟨some i, true, false, none⟩
    | none, none, some i, _ => ⟨some i, true, false, some .collision⟩
    | none, none, none, some (i, _) => ⟨some i, true, false, some .bucketFull⟩
    | none, none, none, none => ⟨none, false, false, none⟩

/-- The bracket of an insert without an admission: no view, no cleanup. -/
def insertUnadmitted (tag : Nat) (c : Insert) (bucket : Bucket) : Work :=
  let choice := chooseUnadmitted tag c bucket
  match choice.slot with
  | none => ⟨bucket, false, 0⟩
  | some slot => ⟨bucket.modify slot (Directory.store tag c choice), !choice.replaces, 0⟩

inductive Op where
  /-- `admitted`: an admission is given. -/
  | insert (key : CacheKey) (c : Insert) (admitted : Bool)
  | removeAt (key : CacheKey) (target : BitVec 64)
  | removeAllAt (key : CacheKey) (offsets : List (BitVec 64))

namespace Op

def key : Op → CacheKey
  | .insert key _ _ | .removeAt key _ | .removeAllAt key _ => key

/-- The call returns before it takes its bucket. -/
def void : Op → Bool
  | .removeAllAt _ offsets => offsets.isEmpty || offsets.length > 32
  | _ => false

def isInsert : Op → Bool
  | .insert _ _ _ => true
  | _ => false

/-- What the bracket makes of the bucket it finds. -/
def work : Op → Bucket → Work
  | .insert key c true, bucket =>
    let b := bracket (MmapDirectory.store key.tag c) key.tag c bucket
    ⟨b.bucket, b.added, b.cleared⟩
  | .insert key c false, bucket => insertUnadmitted key.tag c bucket
  | .removeAt key target, bucket =>
    let out := Directories.removeAt key.tag target bucket
    ⟨out.1, false, out.2⟩
  | .removeAllAt key offsets, bucket =>
    let out := MmapDirectory.clearListed key.tag offsets bucket 0
    ⟨out.1, false, out.2.1⟩

/-- An inserted entry can name its offset. -/
def Ok : Op → Prop
  | .insert _ c _ => c.Ok
  | _ => True

end Op

/-! ## The calls -/

/-- Where a process is in its call. -/
inductive Pc where
  | idle
  /-- Waiting for the bucket. -/
  | waiting (op : Op)
  | holding (op : Op)
  /-- The bucket is read, its new content not yet written. -/
  | writing (op : Op) (work : Work)
  | leaving (op : Op) (work : Work)
  /-- The bucket is released. -/
  | counting (added : Bool) (cleared : Nat)
  /-- This many decrements to go. -/
  | clearing (cleared : Nat)
  /-- One decrement has loaded `current`; this many to go after it. -/
  | exchanging (cleared : Nat) (current : BitVec 32)

structure State (z : Size) (P : Type) where
  entries : Entries z
  /-- Who holds the bucket's version odd. -/
  holder : Fin z.buckets → Option P
  entryCount : BitVec 32
  pc : P → Pc
  /-- Ghost: the decrements that found the count at zero. -/
  lost : Nat

inductive Act where
  | call (op : Op)
  /-- A capped wait gives up, the call reports `busy`. -/
  | giveUp
  /-- An insert finds the phase lock taken and leaves its bucket for now. -/
  | yield
  /-- The next step of the call. A weak exchange may fail for no reason. -/
  | go (spurious : Bool)

section Steps

variable {z : Size} {P : Type} [DecidableEq P]

def State.goto (s : State z P) (p : P) (pc : Pc) : State z P :=
  { s with pc := update s.pc p pc }

def State.lock (s : State z P) (bucket : Fin z.buckets) (holder : Option P) : State z P :=
  { s with holder := update s.holder bucket holder }

/-- A round of `decrement_count` that loaded `current`. -/
def tryDecrement (s : State z P) (p : P) (cleared : Nat) (current : BitVec 32) : State z P :=
  if current = 0 then { s.goto p (.clearing cleared) with lost := s.lost + 1 }
  else s.goto p (.exchanging cleared current)

def go (s : State z P) (p : P) (spurious : Bool) : Option (State z P) :=
  match s.pc p with
  | .idle => none
  | .waiting op =>
    if s.holder (z.bucketIdx op.key) = none then
      some ((s.lock (z.bucketIdx op.key) (some p)).goto p (.holding op))
    else none
  | .holding op => some (s.goto p (.writing op (op.work (s.entries (z.bucketIdx op.key)))))
  | .writing op work =>
    some { s.goto p (.leaving op work) with
      entries := update s.entries (z.bucketIdx op.key) work.bucket }
  | .leaving op work =>
    some ((s.lock (z.bucketIdx op.key) none).goto p (.counting work.added work.cleared))
  | .counting added cleared =>
    -- `increment_count`
    some { s.goto p (.clearing cleared) with
      entryCount := if added then s.entryCount + 1 else s.entryCount }
  | .clearing 0 => some (s.goto p .idle)
  | .clearing (cleared + 1) => some (tryDecrement s p cleared s.entryCount)
  | .exchanging cleared current =>
    some (if s.entryCount = current ∧ !spurious then
      { s.goto p (.clearing cleared) with entryCount := current - 1 }
    else tryDecrement s p cleared s.entryCount)

def step (s : State z P) : P × Act → Option (State z P)
  | (p, .call op) =>
    match s.pc p with
    | .idle => some (if op.void then s else s.goto p (.waiting op))
    | _ => none
  | (p, .giveUp) =>
    match s.pc p with
    | .waiting _ => some (s.goto p .idle)
    | _ => none
  | (p, .yield) =>
    match s.pc p with
    | .holding op =>
      if op.isInsert then some ((s.lock (z.bucketIdx op.key) none).goto p (.waiting op))
      else none
    | _ => none
  | (p, .go spurious) => go s p spurious

end Steps

def Act.Ok : Act → Prop
  | .call op => op.Ok
  | _ => True

/-- No call is under way and the count is right. -/
structure State.Initial {z : Size} {P : Type} (s : State z P) : Prop where
  pc : ∀ p, s.pc p = .idle
  entryCount : s.entryCount = BitVec.ofNat 32 (occupied s.entries)
  lost : s.lost = 0

end CycloneCache.Ref.Directories.SharedCount

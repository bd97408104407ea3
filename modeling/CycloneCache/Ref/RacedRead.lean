import CycloneCache.Ref.Alternates

/-!
# A read beside rewrites of its key

`read_sync` takes no lock. It samples the stripe, probes the key's bucket and
admits what it finds against the sample; an entry that was published in between
lies ahead of the sampled cursor and is turned away. A read that comes up empty
samples again, and if one of the entries it turned away is admitted now, it
makes another attempt that does not count against `max_read_retries`, eight
times at most.

The rewrites are plain writes that fill their document, move the cursor past
it, and then replace the key's entry where it stands, in one bracket of the
bucket. The RAM tier is off, nothing wraps or advances, so that the generation
word stays what it is and every borrow is still valid when it is checked, and
no probe spends its budget. The version of the bucket makes two steps for each
rewrite, so it is a natural number here; the counters of the read are the 32-bit
ones of the code.
-/

namespace CycloneCache.Ref.Volume.RacedRead

open Lib

/-- What stays as it is during the call. -/
structure Setting where
  env : Env
  maxReadRetries : BitVec 32
  key : CacheKey
  gen : Nat
  /-- The place of the key's entry in its bucket. -/
  slot : Nat

def kMaxPublishRaceRetries : BitVec 32 := 8

/-- `ProbeRejects::kMax` -/
def kMaxRejects : Nat := kEntriesPerBucket

/-- `ProbeRejects::note` -/
def note (rejects : List (Nat × Bool)) (offset : Nat) (phase : Bool) : List (Nat × Bool) :=
  if (offset, phase) ∈ rejects then rejects
  else if rejects.length < kMaxRejects then rejects ++ [(offset, phase)]
  else rejects

/-- The variables of the retry loop. -/
structure Loop where
  attempt : BitVec 32
  maxAttempts : BitVec 32
  publishRaceRetries : BitVec 32
  sawChecksumFailure : Bool
  deriving DecidableEq

def Loop.extendForPublishRace (l : Loop) : Loop :=
  if l.publishRaceRetries < kMaxPublishRaceRetries then
    { l with
      publishRaceRetries := l.publishRaceRetries + 1
      maxAttempts := l.maxAttempts + 1 }
  else l

/-- `++attempt` -/
def Loop.next (l : Loop) : Loop := { l with attempt := l.attempt + 1 }

/-- The variables of one attempt. -/
structure Attempt where
  loop : Loop
  snap : StripeSnapshot
  rejects : List (Nat × Bool)
  checksumFailed : Bool
  deriving DecidableEq

/-- Where the read is. -/
inductive Reader where
  | idle
  | loop (l : Loop)
  /-- The probe waits for an even version. -/
  | probing (a : Attempt)
  /-- Entry `i` is next. -/
  | scanning (a : Attempt) (before : Nat) (i : Nat)
  /-- Its copy has the tag, the version is to be checked. -/
  | matched (a : Attempt) (before : Nat) (i : Nat) (e : DirEntry)
  /-- The callback has it. -/
  | visiting (a : Attempt) (before : Nat) (i : Nat) (e : DirEntry)
  /-- The check behind the scan. -/
  | scanned (a : Attempt) (before : Nat)
  /-- The probe is complete and nothing was found. -/
  | missed (a : Attempt)
  | done (result : Except CacheError ReadHandle)

/-- Where a rewrite is. -/
inductive Writer where
  | idle
  /-- The document is filled and the cursor past it. -/
  | filled (r : Record)
  | holding (r : Record)
  | written (r : Record)

structure State (W : Type) where
  bytes : Memory
  cursor : Nat
  bucket : Bucket
  version : Nat
  writer : W → Writer
  reader : Reader
  /-- Ghost: how many rewrites have moved the cursor. -/
  rewrites : Nat

inductive Label (W : Type) where
  /-- A rewrite fills the slot it was given and commits it. -/
  | commit (w : W) (header content : List UInt8) (slot : Slot)
  | acquire (w : W)
  /-- The bracket: the key's entry, and entries of the tag that it clears. -/
  | publish (w : W) (clears : List Nat)
  | release (w : W)
  | readSync
  /-- The next step of the read. A copy that is made while the bucket changes
  may be anything. -/
  | read (torn : DirEntry)

def Setting.snapshot (c : Setting) (cursor : Nat) : StripeSnapshot :=
  c.env.stripe.snapshot c.gen cursor

/-- The end of what the frontier has handed out. -/
def Setting.runway (c : Setting) : Nat :=
  if c.env.stripe.retain then c.env.stripe.frontierRelOf (c.env.stripe.frontierOf c.gen)
  else c.env.stripe.size

/-- What `allocate_write_slot` gives out when it has room: a slot ahead of the
cursor, on the runway. -/
structure Setting.Allocated (c : Setting) (cursor : Nat) (len : Nat) (slot : Slot) : Prop where
  ahead : cursor ≤ slot.writeOffset
  start_le : c.env.stripe.dataStart ≤ slot.writeOffset
  aligned : slot.writeOffset % 8 = 0
  room : slot.writeOffset + len ≤ slot.newWritePos
  newWritePos : slot.newWritePos ≤ c.runway
  fillEnd : slot.fillEnd ≤ c.runway
  pass : slot.pass = c.env.stripe.passOf c.gen
  fillSerial : slot.fillSerial < 2 ^ 16

instance (c : Setting) (cursor len : Nat) (slot : Slot) :
    Decidable (c.Allocated cursor len slot) :=
  decidable_of_iff
    (cursor ≤ slot.writeOffset ∧ c.env.stripe.dataStart ≤ slot.writeOffset ∧
      slot.writeOffset % 8 = 0 ∧ slot.writeOffset + len ≤ slot.newWritePos ∧
      slot.newWritePos ≤ c.runway ∧ slot.fillEnd ≤ c.runway ∧
      slot.pass = c.env.stripe.passOf c.gen ∧ slot.fillSerial < 2 ^ 16)
    ⟨fun ⟨h₁, h₂, h₃, h₄, h₅, h₆, h₇, h₈⟩ => ⟨h₁, h₂, h₃, h₄, h₅, h₆, h₇, h₈⟩,
      fun ⟨h₁, h₂, h₃, h₄, h₅, h₆, h₇, h₈⟩ => ⟨h₁, h₂, h₃, h₄, h₅, h₆, h₇, h₈⟩⟩

/-- What the insert of a rewrite stores. -/
def Setting.publication (c : Setting) (r : Record) : Publication where
  tag := c.key.tag
  offset := r.start
  size := r.doc.len
  fillSerial := r.doc.fillSerial
  phase := phaseOf (c.env.stripe.passOf c.gen)
  record := r

section Steps

variable {W : Type} [DecidableEq W]

def State.goto (s : State W) (w : W) (next : Writer) : State W :=
  { s with writer := Function.update s.writer w next }

/-- `commit_write_impl` up to the cursor. -/
def commit (c : Setting) (s : State W) (w : W) (header content : List UInt8) (slot : Slot) :
    Option (State W) :=
  let b := plainBuilder c.key header content
  match s.writer w, b.build with
  | .idle, some d =>
    if c.Allocated s.cursor d.len slot then
      let r := recordOf b d slot
      some { s.goto w (.filled r) with
        bytes := writeAt s.bytes slot.writeOffset (fillImage slot (Record.image r))
        cursor := slot.newWritePos
        rewrites := s.rewrites + 1 }
    else none
  | _, _ => none

def probeRacedPublish (c : Setting) (cursor : Nat) (rejects : List (Nat × Bool)) : Bool :=
  rejects.any fun x => c.env.stripe.admitPosition x.1 x.2 (c.snapshot cursor) != .kReject

/-- The callback of `probe_each` and the one of `read_sync` in it. -/
def visit (c : Setting) (m : Memory) (a : Attempt) (before i : Nat) (e : DirEntry) : Reader :=
  match c.env.stripe.admitPosition e.offset e.phase a.snap with
  | .kReject => .scanning { a with rejects := note a.rejects e.offset e.phase } before (i + 1)
  | cls =>
    match c.env.readCandidate m a.snap c.key e cls with
    | .served h => .done (.ok h)
    | .skipped => .scanning a before (i + 1)
    | .damaged => .scanning { a with checksumFailed := true } before (i + 1)

/-- What `read_sync` does with an attempt that found nothing. -/
def miss (c : Setting) (cursor : Nat) (a : Attempt) : Reader :=
  if probeRacedPublish c cursor a.rejects then .loop a.loop.extendForPublishRace.next
  else if !a.checksumFailed then .done (.error .notFound)
  else .loop { a.loop with sawChecksumFailure := true }.next

/-- `read_sync`, step by step. -/
def read (c : Setting) (s : State W) (torn : DirEntry) : Option Reader :=
  match s.reader with
  | .idle | .done _ => none
  | .loop l =>
    some (if l.attempt < l.maxAttempts then .probing ⟨l, c.snapshot s.cursor, [], false⟩
      else .done (.error (if l.sawChecksumFailure then .corrupted else .notFound)))
  | .probing a => some (if s.version % 2 = 1 then .probing a else .scanning a s.version 0)
  | .scanning a before i =>
    if i < kEntriesPerBucket then
      let e := if s.version = before then s.bucket.getD i .empty else torn
      some (if e.isEmpty ∨ e.tag ≠ c.key.tag then .scanning a before (i + 1)
        else .matched a before i e)
    else some (.scanned a before)
  | .matched a before i e =>
    some (if s.version ≠ before then .scanned a before else .visiting a before i e)
  | .visiting a before i e => some (visit c s.bytes a before i e)
  | .scanned a before => some (if s.version = before then .missed a else .probing a)
  | .missed a => some (miss c s.cursor a)

def step (c : Setting) (s : State W) : Label W → Option (State W)
  | .commit w header content slot => commit c s w header content slot
  | .acquire w =>
    match s.writer w with
    | .filled r =>
      if s.version % 2 = 0 then some { s.goto w (.holding r) with version := s.version + 1 }
      else none
    | _ => none
  | .publish w clears =>
    match s.writer w with
    | .holding r =>
      some { s.goto w (.written r) with
        bucket := clearOthers (s.bucket.modify c.slot (c.publication r).update) c.slot
          c.key.tag r.start clears }
    | _ => none
  | .release w =>
    match s.writer w with
    | .written _ => some { s.goto w .idle with version := s.version + 1 }
    | _ => none
  | .readSync =>
    match s.reader with
    | .idle => some { s with reader := .loop ⟨0, c.maxReadRetries + 1, 0, false⟩ }
    | _ => none
  | .read torn => (read c s torn).map fun next => { s with reader := next }

end Steps

/-- A mapping of the rewritten document succeeds, and its entry can name its
offset. -/
def Label.Ok {W : Type} (c : Setting) : Label W → Prop
  | .commit _ header content slot =>
    slot.writeOffset < 2 ^ 40 ∧ ∀ d, (plainBuilder c.key header content).build = some d →
      c.env.mapRegion slot.writeOffset (DirEntry.empty.setApproxSize d.len).approxSize = true
  | _ => True

end CycloneCache.Ref.Volume.RacedRead

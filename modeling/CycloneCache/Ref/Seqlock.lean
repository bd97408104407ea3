import CycloneCache.Lib.Run
import CycloneCache.Ref.Directories

/-!
# The version of a bucket, one access at a time

A bucket of the directory has a 32-bit version. A writer makes it odd before it
touches the entries and even after, a reader scans between two loads of one even
value. In the shared directory the odd value is also the lock among the writers
of all processes: `acquire_writer` claims it with a CAS, `release_writer` gives
back its own value only, and a holder that kept it for too long is recovered
from, by a waiting writer or by a reader. In the directory of one process the
stripe mutex keeps the writers apart and the version only tells the readers.

Each step makes at most one access to what the threads share: the version, one
word of one entry, the phase. Time is not modelled: a waiter may give up, wait
on or presume its holder stuck wherever the code asks a clock, and a reader may
find its sighting of a stuck bucket old enough at once. A load that spins on an
odd version has no effect, so the model has only the last one.

What stands below the line in `State` and is called ghost elsewhere is not in
the program and no step reads it.
-/

namespace CycloneCache.Ref

namespace PackedEntry

def words (e : PackedEntry) : List (BitVec 16) := [e.w0, e.w1, e.w2, e.w3, e.w4]

def ofWords : List (BitVec 16) → PackedEntry
  | [w0, w1, w2, w3, w4] => ⟨w0, w1, w2, w3, w4⟩
  | _ => .cleared

def setWord (e : PackedEntry) (j : Nat) (w : BitVec 16) : PackedEntry := ofWords (e.words.set j w)

end PackedEntry

namespace Seqlock

open Lib Directories

/-- The directory the bucket belongs to. -/
inductive Kind where
  | directory
  | mmap
  deriving DecidableEq

def isOdd (v : BitVec 32) : Bool := v &&& 1#32 != 0

/-- A call of `probe_each_impl`. -/
structure Probe where
  tag : Nat
  filterPhase : Bool
  lastVersion : BitVec 32
  recoveryTried : Bool
  /-- What the callback was called with so far. -/
  handed : List PackedEntry
  /-- Ghost: how many steps and how many claims there were before the call. -/
  start : Nat
  startClaims : Nat
  deriving DecidableEq

inductive ReadPc where
  /-- An attempt starts with the phase. -/
  | phase
  | version (curPhase : Bool)
  /-- The copy of entry `i` has these words so far. -/
  | copy (curPhase : Bool) (before : BitVec 32) (i : Nat) (words : List (BitVec 16))
  /-- The copy matches. -/
  | check (curPhase : Bool) (before : BitVec 32) (i : Nat) (entry : PackedEntry)
  /-- The check behind the loop. -/
  | last (before : BitVec 32)
  /-- The loop condition. -/
  | retry

inductive Pc where
  | idle
  | dead
  /-- `acquire_writer` loaded an even version. -/
  | fastCas (v : BitVec 32)
  /-- The loop of `acquire_writer_slow`. -/
  | slow
  | waiting (v : BitVec 32)
  | forceCas (v : BitVec 32)
  | claimCas (v : BitVec 32)
  /-- Between acquire and release. Ghost: the number of the claim's version step. -/
  | holding (token : BitVec 32) (claim : Nat)
  | probing (q : Probe) (pc : ReadPc)
  | probed (q : Probe) (result : Bool)

/-- A successful claim of the version. -/
structure Acquisition (P : Type) where
  holder : P
  claimed : BitVec 32
  step : Nat
  deriving DecidableEq

structure State (P : Type) where
  version : BitVec 32
  bucket : Directories.Bucket
  phase : Bool
  /-- The stripe mutex, which the writers of a `Directory` hold. -/
  mutex : Option P
  pc : P → Pc
  -- ghost from here on
  /-- How often the version was stepped. -/
  steps : Nat
  acquisitions : List (Acquisition P)
  /-- The version steps that a recovery found. -/
  recovered : List Nat
  clock : Nat

/-- What a thread does next. -/
inductive Act where
  | acquire
  /-- The slow path loads the version. -/
  | load
  | wait
  | giveUp
  | expire
  /-- The CAS that is next. A weak one may fail for no reason. -/
  | cas (spurious : Bool)
  | beginBucketWrite
  | write (i j : Nat) (w : BitVec 16)
  | endBucketWrite
  | release
  | probe (tag : Nat) (filterPhase : Bool)
  /-- The next load of a probe. -/
  | read
  /-- The load before the callback, which then asks for more entries or not. -/
  | recheck (more : Bool)
  | retry
  /-- The reader recovers the bucket if its sighting is old enough. -/
  | recover (old : Bool)
  | finish
  | togglePhase
  | die
  deriving DecidableEq

/-- The acquisition has the version, as far as less than `2 ^ 31` steps can
tell. -/
def State.owns {P : Type} (s : State P) (a : Acquisition P) : Bool :=
  a.claimed == s.version && s.steps - a.step < 2 ^ 31

section Steps

variable {P : Type} [DecidableEq P]

def State.goto (s : State P) (p : P) (pc : Pc) : State P :=
  { s with pc := Function.update s.pc p pc }

/-- A bucket that no writer is in. -/
structure Start where
  version : BitVec 32
  even : isOdd version = false
  bucket : Directories.Bucket
  slots : bucket.length = kEntriesPerBucket

def State.fresh (P : Type) (start : Start) : State P where
  version := start.version
  bucket := start.bucket
  phase := false
  mutex := none
  pc := fun _ => .idle
  steps := start.version.toNat
  acquisitions := []
  recovered := []
  clock := 0

/-- The claim: even to odd. -/
def State.claim (s : State P) (p : P) : State P :=
  { s.goto p (.holding s.version (s.steps + 1)) with
    version := s.version + 1#32
    steps := s.steps + 1
    acquisitions := ⟨p, s.version + 1#32, s.steps + 1⟩ :: s.acquisitions }

/-- Odd to even, by the holder or past it. -/
def State.leave (s : State P) (p : P) (pc : Pc) : State P :=
  { s.goto p pc with version := s.version + 1#32, steps := s.steps + 1 }

def State.force (s : State P) (p : P) (pc : Pc) : State P :=
  { s.leave p pc with recovered := s.steps :: s.recovered }

/-- The CAS a writer has in front of it. -/
def writerCas (s : State P) (p : P) (spurious : Bool) : Option (State P) :=
  match s.pc p with
  | .fastCas v => some (if s.version = v then s.claim p else s.goto p .slow)
  | .claimCas v => some (if s.version = v ∧ !spurious then s.claim p else s.goto p .slow)
  | .forceCas v => some (if s.version = v then s.force p .slow else s.goto p .slow)
  | _ => none

/-- `release_writer`: only from the own odd value. -/
def releaseWriter (s : State P) (p : P) (token : BitVec 32) : State P :=
  if s.version = token + 1#32 then s.leave p .idle else s.goto p .idle

/-- Behind entry `i` comes the next one, or the last check. -/
def nextEntry (curPhase : Bool) (before : BitVec 32) (i : Nat) : ReadPc :=
  if i + 1 < kEntriesPerBucket then .copy curPhase before (i + 1) [] else .last before

/-- The entry is one that the probe is after. -/
def Probe.wants (q : Probe) (curPhase : Bool) (e : PackedEntry) : Bool :=
  !e.isEmpty && !(q.filterPhase && e.phase != curPhase) && e.tag == q.tag

/-- Where the scan is with these words of entry `i`. -/
def scanned (q : Probe) (curPhase : Bool) (before : BitVec 32) (i : Nat)
    (words : List (BitVec 16)) : ReadPc :=
  if words.length < 5 then .copy curPhase before i words
  else if q.wants curPhase (.ofWords words) then .check curPhase before i (.ofWords words)
  else nextEntry curPhase before i

def State.word (s : State P) (i j : Nat) : BitVec 16 := (s.bucket.getD i .cleared).words.getD j 0

/-- The loads of a probe. -/
def probeRead (s : State P) (p : P) (q : Probe) : ReadPc → Option (State P)
  | .phase => some (s.goto p (.probing q (.version s.phase)))
  | .version curPhase =>
    let pc := if isOdd s.version then .retry else .copy curPhase s.version 0 []
    some (s.goto p (.probing { q with lastVersion := s.version } pc))
  | .copy curPhase before i words =>
    some (s.goto p (.probing q
      (scanned q curPhase before i (words ++ [s.word i words.length]))))
  | .last before =>
    some (s.goto p (if before = s.version then .probed q true else .probing q .retry))
  | .check .. | .retry => none

/-- The version is checked before the callback; a changed one ends the scan. -/
def probeRecheck (s : State P) (p : P) (q : Probe) (curPhase : Bool) (before : BitVec 32)
    (i : Nat) (entry : PackedEntry) (more : Bool) : State P :=
  if before ≠ s.version then s.goto p (.probing q (.last before))
  else
    let q := { q with handed := q.handed ++ [entry] }
    if more then s.goto p (.probing q (nextEntry curPhase before i))
    else s.goto p (.probed q true)

/-- `reader_recover_stuck_bucket`, asked once at most and for an odd version. -/
def probeRecover (s : State P) (p : P) (q : Probe) (old : Bool) : Option (State P) :=
  if q.recoveryTried ∨ !isOdd q.lastVersion then none
  else
    let q' := { q with recoveryTried := true }
    if !old then some (s.goto p (.probed q' false))
    else if s.version = q.lastVersion then some (s.force p (.probing q' .phase))
    else some (s.goto p (.probing q' .phase))

def move (k : Kind) (s : State P) (p : P) : Act → Option (State P)
  | .acquire =>
    match k, s.pc p with
    | .mmap, .idle => some (s.goto p (if isOdd s.version then .slow else .fastCas s.version))
    | _, _ => none
  | .load =>
    match s.pc p with
    | .slow =>
      some (s.goto p (if isOdd s.version then .waiting s.version else .claimCas s.version))
    | _ => none
  | .wait =>
    match s.pc p with
    | .waiting _ => some (s.goto p .slow)
    | _ => none
  | .giveUp =>
    match s.pc p with
    | .waiting _ => some (s.goto p .idle)
    | .probing q .retry => some (s.goto p (.probed q false))
    | _ => none
  | .expire =>
    match s.pc p with
    | .waiting v => some (s.goto p (.forceCas v))
    | _ => none
  | .cas spurious =>
    match k with
    | .mmap => writerCas s p spurious
    | .directory => none
  | .beginBucketWrite =>
    match k, s.pc p, s.mutex with
    | .directory, .idle, none => some { s.claim p with mutex := some p }
    | _, _, _ => none
  | .write i j w =>
    match s.pc p with
    | .holding .. => some { s with bucket := s.bucket.modify i (·.setWord j w) }
    | _ => none
  | .endBucketWrite =>
    match k, s.pc p with
    | .directory, .holding .. => some { s.leave p .idle with mutex := none }
    | _, _ => none
  | .release =>
    match k, s.pc p with
    | .mmap, .holding token _ => some (releaseWriter s p token)
    | _, _ => none
  | .probe tag filterPhase =>
    match s.pc p with
    | .idle => some (s.goto p (.probing
        ⟨tag, filterPhase, 0, false, [], s.clock, s.acquisitions.length⟩ .phase))
    | _ => none
  | .read =>
    match s.pc p with
    | .probing q pc => probeRead s p q pc
    | _ => none
  | .recheck more =>
    match s.pc p with
    | .probing q (.check curPhase before i entry) =>
      some (probeRecheck s p q curPhase before i entry more)
    | _ => none
  | .retry =>
    match s.pc p with
    | .probing q .retry => some (s.goto p (.probing q .phase))
    | _ => none
  | .recover old =>
    match k, s.pc p with
    | .mmap, .probing q .retry => probeRecover s p q old
    | _, _ => none
  | .finish =>
    match s.pc p with
    | .probed .. => some (s.goto p .idle)
    | _ => none
  | .togglePhase => some { s with phase := !s.phase }
  | .die =>
    match k with
    | .mmap => some (s.goto p .dead)
    | .directory => none

/-- One step of a thread. -/
def step (k : Kind) (s : State P) (l : P × Act) : Option (State P) :=
  (move k s l.1 l.2).map fun s' => { s' with clock := s.clock + 1 }

/-- Fewer than `2 ^ 31` brackets during the probe of `p`. -/
def FewBrackets (p : P) (s : State P) (_ : P × Act) : Prop :=
  ∀ q pc, s.pc p = .probing q pc → s.acquisitions.length < q.startClaims + 2 ^ 31

/-- The call of `p` that is under way or has returned, and what it returned. -/
def State.callOf (s : State P) (p : P) : Option (Probe × Option Bool) :=
  match s.pc p with
  | .probing q _ => some (q, none)
  | .probed q result => some (q, some result)
  | _ => none

end Steps

end Seqlock

end CycloneCache.Ref

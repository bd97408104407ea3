import CycloneCache.Lib.Run

/-!
# The cross-process write lock, one atomic access at a time

The write lock of a stripe is three words of the shared directory header: a
lock byte, a 16-bit acquisition generation and the owner's PID. This file
embeds the code that touches them — `try_take_token_lock`,
`recover_token_lock`, `revalidate_write_lock`, `release_write_lock` and the
contended loop of `acquire_write_lock` — as a step function whose every step
makes at most one access to those words, so that a schedule of steps is an
interleaving of the real calls.

Time is not modelled. Whether a waiter gives up, waits on or presumes its
holder dead is decided by clocks and liveness probes, so the model lets it
decide either way at every point where the code decides at all. A process
that dies is one that is never scheduled again.

Each process runs one call at a time: the stripe mutex serializes a
process's own threads. The fields below the line in `LockState` are not in
the program; they name acquisitions and count bumps so that a property can
be stated about them, and no step reads them.
-/

namespace CycloneCache.Ref

open Lib

/-- The generation is a `uint16_t`. -/
def genModulus : Nat := 65536

def kLockRecoveringA : Nat := 254

def kLockRecoveringB : Nat := 255

/-- `WriterLiveness::kSlots`: every ring position but the plain token's. -/
def kSlots : Nat := 251

def kTokenRing : Nat := 252

/-- The token of a holder without a liveness slot: 1 to 253. -/
def lockToken (generation : Nat) : Nat := 1 + generation % 253

/-- Where the plain token of a generation sits on the ring of values 2 to
253; token 1 lies outside the ring and reads as its last position. -/
def plainRingIndex (generation : Nat) : Nat :=
  (lockToken generation + kTokenRing - 2) % kTokenRing

/-- The token of a holder with a liveness slot. -/
def slotLockToken (generation slot : Nat) : Nat :=
  2 + (plainRingIndex generation + 1 + slot) % kTokenRing

/-- The slot a lock value encodes for a generation, if any. -/
def slotOfToken (value generation : Nat) : Option Nat :=
  if value < 2 ∨ value > 253 then none
  else
    let slot := (value - 2 + 2 * kTokenRing - plainRingIndex generation - 1)
      % kTokenRing
    if slot < kSlots then some slot else none

/-- `token_of`: the slot selects which of the two encodings is stored. -/
def tokenOf (slot : Option Nat) (generation : Nat) : Nat :=
  match slot with
  | none => lockToken generation
  | some sl => slotLockToken generation sl

/-- `WriterLiveness::Verdict`. -/
inductive Verdict where
  | alive
  | dead
  | unknown
  deriving DecidableEq

/-- `WriterLiveness` as a waiter asks it: its own slot, and the byte-range
lock query on any other. -/
structure WriterLiveness where
  slotOf : Option Nat
  probe : Nat → Verdict

/-- `write_lock_holder_proven_dead`. A nonzero PID is taken to mean that the
value is the generation's final token. -/
def writeLockHolderProvenDead (liveness : Option WriterLiveness)
    (value generation pid : Nat) : Bool :=
  match liveness with
  | none => false
  | some liveness =>
    if pid = 0 then false
    else
      match slotOfToken value generation with
      | none => false
      | some slot =>
        if liveness.slotOf = some slot then false
        else liveness.probe slot == .dead

/-- The value a recovery claims the byte with. It alternates, so that two
waiters recovering one stuck claim cannot both win. -/
def recoveryClaim (observed : Nat) : Nat :=
  if observed = kLockRecoveringA then kLockRecoveringB else kLockRecoveringA

/-- `WriteLockToken`, the part the release and the checks read. -/
structure WriteLockToken where
  generation : Nat
  value : Nat
  deriving DecidableEq

/-- Where a process is in its current call. The acquisition number `acq` is
ghost, as is the `victim` or `seen` acquisition a waiter has in front of it. -/
inductive LockPc where
  /-- No call in progress, or about to try again. -/
  | idle
  /-- `try_take_token_lock` loaded the generation. -/
  | sampled (expect : Nat)
  /-- The byte CAS won. -/
  | won (acq held : Nat)
  /-- The generation was re-read after the winning CAS. -/
  | reread (acq held afterCas : Nat)
  /-- The claim did not land one past the re-read. -/
  | claimLost
  /-- The generation is claimed; the byte may still be provisional. -/
  | claimed (acq held generation claim : Nat)
  /-- `try_take_token_lock` succeeded; the owner is not stored yet. -/
  | taken (acq : Nat) (tok : WriteLockToken) (claim : Nat)
  /-- `try_take_token_lock` failed on this value. -/
  | lost (observed : Nat) (seen : Option Nat)
  | seenGen (observed holderGen : Nat) (seen : Option Nat)
  | seenOwner (observed holderGen holder : Nat) (seen : Option Nat)
  /-- `recover_token_lock` found the generation unchanged. -/
  | recChecked (stuck : Nat) (seen : Option Nat)
  /-- `recover_token_lock` claimed the byte. -/
  | recClaimed (victim : Option Nat)
  | recBumped
  | recCleared
  /-- The lock was acquired; `verdict` is the last `revalidate` answer. -/
  | holding (acq : Nat) (tok : WriteLockToken) (verdict : Option Bool)
  /-- Inside `revalidate_write_lock`, alone or as the head of a release. -/
  | revGen (acq : Nat) (tok : WriteLockToken) (releasing ok : Bool)
  | revHeld (acq : Nat) (tok : WriteLockToken) (releasing ok : Bool)
  /-- `release_write_lock` past its revalidate. -/
  | relOwner (acq : Nat) (tok : WriteLockToken)
  | relByte (acq : Nat) (tok : WriteLockToken)
  deriving DecidableEq

/-- A token that an acquisition returned. -/
structure Grant where
  proc : Nat
  tok : WriteLockToken
  acq : Nat
  /-- How many bumps the generation had seen once this one was claimed. -/
  claim : Nat
  deriving DecidableEq

structure LockState where
  byte : Nat
  gen : Nat
  owner : Nat
  pc : Nat → LockPc
  -- ghost from here on
  /-- The acquisition whose token is in the byte. -/
  holder : Option Nat
  /-- Byte CASes won so far: the next acquisition's number. -/
  wins : Nat
  /-- Generation bumps so far, by claims and by recoveries. -/
  bumps : Nat
  grants : List Grant
  /-- Generation claims: by which acquisition and at which bump. -/
  claims : List (Nat × Nat)
  /-- Recoveries: whom the lock was taken from and at which bump. -/
  recovered : List (Nat × Nat)

/-- What a process may do next. `step` is the next access of the call it is
in; the others start a call or take one of the waiter's decisions. -/
inductive LockAct where
  | acquire
  | step
  | recover
  | giveUp
  | revalidate
  | release
  | abandon
  deriving DecidableEq

/-- `self_pid()`: never 0, and one per process. -/
def selfPid (p : Nat) : Nat := p + 1

def LockState.goto (s : LockState) (p : Nat) (pc : LockPc) : LockState :=
  { s with pc := Function.update s.pc p pc }

/-- A freshly initialized header: the lock is free and nobody is calling. -/
def LockState.fresh (gen : Nat) : LockState where
  byte := 0
  gen := gen
  owner := 0
  pc := fun _ => .idle
  holder := none
  wins := 0
  bumps := 0
  grants := []
  claims := []
  recovered := []

/-- `revalidate_write_lock`, read at one instant. -/
def revalidateWriteLock (s : LockState) (p : Nat) (tok : WriteLockToken) :
    Bool :=
  s.gen == tok.generation && s.byte == tok.value && s.owner == selfPid p

/-- The sampling load that opens one `try_take_token_lock`. -/
def tryTakeSample (s : LockState) (p : Nat) : LockState :=
  s.goto p (.sampled ((s.gen + 1) % genModulus))

/-- The byte CAS from free to the provisional token. -/
def tryTakeCas (slot : Option Nat) (s : LockState) (p expect : Nat) :
    LockState :=
  if s.byte = 0 then
    { s.goto p (.won s.wins (tokenOf slot expect)) with
      byte := tokenOf slot expect
      holder := some s.wins
      wins := s.wins + 1 }
  else s.goto p (.lost s.byte s.holder)

/-- The generation claim, which must land one past the re-read. -/
def tryTakeClaim (s : LockState) (p acq held afterCas : Nat) : LockState :=
  let claimedGen := (s.gen + 1) % genModulus
  let s' := { s with
    gen := claimedGen
    bumps := s.bumps + 1
    claims := (acq, s.bumps + 1) :: s.claims }
  if claimedGen = (afterCas + 1) % genModulus then
    s'.goto p (.claimed acq held claimedGen (s.bumps + 1))
  else s'.goto p .claimLost

/-- The fix-up from the provisional token to the claimed generation's, which
only runs when the two differ. -/
def tryTakeFix (slot : Option Nat) (s : LockState)
    (p acq held generation claim : Nat) : LockState :=
  if tokenOf slot generation = held then
    s.goto p (.taken acq ⟨generation, held⟩ claim)
  else if s.byte = held then
    { s.goto p (.taken acq ⟨generation, tokenOf slot generation⟩ claim) with
      byte := tokenOf slot generation
      holder := some acq }
  else s.goto p (.lost s.byte s.holder)

/-- The owner store that ends a successful acquisition. -/
def storeOwner (s : LockState) (p acq : Nat) (tok : WriteLockToken)
    (claim : Nat) : LockState :=
  { s.goto p (.holding acq tok none) with
    owner := selfPid p
    grants := ⟨p, tok, acq, claim⟩ :: s.grants }

/-- `recover_token_lock`, the byte CAS from the observed value. -/
def recoverCas (s : LockState) (p stuck : Nat) : LockState :=
  if s.byte = stuck then
    { s.goto p (.recClaimed s.holder) with
      byte := recoveryClaim stuck
      holder := none }
  else s.goto p .idle

/-- `recover_token_lock`, the bump that retires the holder's generation. -/
def recoverBump (s : LockState) (p : Nat) (victim : Option Nat) : LockState :=
  { s.goto p .recBumped with
    gen := (s.gen + 1) % genModulus
    bumps := s.bumps + 1
    recovered := (victim.toList.map fun a => (a, s.bumps + 1)) ++ s.recovered }

/-- `release_write_lock`, the byte CAS from the holder's own token. -/
def releaseByte (s : LockState) (p : Nat) (tok : WriteLockToken) :
    LockState :=
  if s.byte = tok.value then { s.goto p .idle with byte := 0, holder := none }
  else s.goto p .idle

/-- The end of a `revalidate`: a release goes on, any other caller gets the
answer. -/
def revalidateDone (s : LockState) (p acq : Nat) (tok : WriteLockToken)
    (releasing ok : Bool) : LockState :=
  let verdict := ok && s.owner == selfPid p
  if releasing then
    if verdict then s.goto p (.relOwner acq tok) else s.goto p .idle
  else s.goto p (.holding acq tok (some verdict))

/-- The next access of the call process `p` is in. -/
def lockAccess (slots : Nat → Option Nat) (s : LockState) (p : Nat) :
    Option LockState :=
  match s.pc p with
  | .sampled expect => some (tryTakeCas (slots p) s p expect)
  | .won acq held => some (s.goto p (.reread acq held s.gen))
  | .reread acq held afterCas => some (tryTakeClaim s p acq held afterCas)
  | .claimLost => some (s.goto p (.lost s.byte s.holder))
  | .claimed acq held generation claim =>
    some (tryTakeFix (slots p) s p acq held generation claim)
  | .taken acq tok claim => some (storeOwner s p acq tok claim)
  | .lost observed seen =>
    -- seen free: the loop starts over without looking at the holder
    if observed = 0 then some (s.goto p .idle)
    else some (s.goto p (.seenGen observed s.gen seen))
  | .seenGen observed holderGen seen =>
    some (s.goto p (.seenOwner observed holderGen s.owner seen))
  | .recChecked stuck _ => some (recoverCas s p stuck)
  | .recClaimed victim => some (recoverBump s p victim)
  | .recBumped => some { s.goto p .recCleared with owner := 0 }
  | .recCleared => some { s.goto p .idle with byte := 0, holder := none }
  | .revGen acq tok releasing ok =>
    some (s.goto p (.revHeld acq tok releasing (ok && s.byte == tok.value)))
  | .revHeld acq tok releasing ok =>
    some (revalidateDone s p acq tok releasing ok)
  | .relOwner acq tok =>
    some { s.goto p (.relByte acq tok) with
      owner := if s.owner = selfPid p then 0 else s.owner }
  | .relByte _ tok => some (releaseByte s p tok)
  | .idle | .seenOwner .. | .holding .. => none

/-- One step of process `p`. `acquire` opens a `try_take_token_lock`, from
rest or from the contended loop; `giveUp` leaves that loop (the capped wait,
or `try_acquire_write_lock`'s single attempt); `abandon` drops a token
without a release, as a usurped holder does. -/
def lockStep (slots : Nat → Option Nat) (s : LockState)
    (l : Nat × LockAct) : Option LockState :=
  let p := l.1
  match l.2, s.pc p with
  | .acquire, .idle | .acquire, .lost .. | .acquire, .seenOwner .. =>
    some (tryTakeSample s p)
  | .recover, .seenOwner observed holderGen _ seen =>
    if s.gen = holderGen then some (s.goto p (.recChecked observed seen))
    else some (s.goto p .idle)
  | .giveUp, .lost .. | .giveUp, .seenOwner .. => some (s.goto p .idle)
  | .revalidate, .holding acq tok _ =>
    some (s.goto p (.revGen acq tok false (s.gen == tok.generation)))
  | .release, .holding acq tok _ =>
    some (s.goto p (.revGen acq tok true (s.gen == tok.generation)))
  | .abandon, .holding .. => some (s.goto p .idle)
  | .step, _ => lockAccess slots s p
  | _, _ => none

end CycloneCache.Ref

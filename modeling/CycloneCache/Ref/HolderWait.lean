import Mathlib.Tactic

/-!
# Waiting for a lock holder

`LockHolderWait` paces a writer that found a lock held. The waiter calls
`wait` with the holder it saw after each failed attempt and `restart` when it
saw the lock free; the answer says to try again, that this holder has had the
lock for the whole budget, or to give up. The clock is read in some of the
calls only, at most twice, so a call carries the time it starts at and the
time after it slept. Times are in nanoseconds.
-/

namespace CycloneCache.Ref.HolderWait

def kSpinFor : Nat := 20000

def kWakeSpinFor : Nat := 5000

def kConfirmFor : Nat := 2000000

def kPollsPerClockRead : Nat := 64

/-- `SleepBackoff<10, 1000>`: its first step and the one it stops doubling at. -/
def kFirstSleep : Nat := 10000

def kMaxSleep : Nat := 1000000

inductive Step where
  | spun
  | slept
  | expired
  | giveUp
  deriving DecidableEq

structure LockHolderWait where
  budget : Nat
  /-- Zero for a wait that cannot be abandoned. -/
  cap : Nat
  /-- The time spent on holders that went. -/
  changed : Nat
  started : Bool
  confirming : Bool
  holder : BitVec 64
  polls : BitVec 32
  sleeps : BitVec 32
  firstSeen : Nat
  deadline : Nat
  spinUntil : Nat
  /-- The step of the backoff. -/
  backoff : Nat
  deriving DecidableEq

namespace LockHolderWait

def fresh (budget cap : Nat) : LockHolderWait where
  budget := budget
  cap := cap
  changed := 0
  started := false
  confirming := false
  holder := 0
  polls := 0
  sleeps := 0
  firstSeen := 0
  deadline := 0
  spinUntil := 0
  backoff := kFirstSleep

def newHolder (w : LockHolderWait) (holder : BitVec 64) (now : Nat) : LockHolderWait × Step :=
  let w := if w.started then { w with changed := w.changed + (now - w.firstSeen) } else w
  if w.cap ≠ 0 ∧ w.changed ≥ w.cap then ({ w with started := false }, .giveUp)
  else
    ({ w with
        started := true
        confirming := false
        holder := holder
        polls := 0
        firstSeen := now
        deadline := now + w.budget
        spinUntil := now + kSpinFor
        backoff := kFirstSleep }, .spun)

/-- `timed_wait`, which sleeps from `now` to `after` if it sleeps. -/
def timedWait (w : LockHolderWait) (now after : Nat) : LockHolderWait × Step :=
  if now < w.spinUntil then (w, .spun)
  else if now ≥ w.deadline then
    if !w.confirming then
      ({ w with confirming := true, spinUntil := now + kConfirmFor }, .spun)
    else (w, .expired)
  else
    ({ w with
        backoff := if w.backoff < kMaxSleep then w.backoff * 2 else w.backoff
        sleeps := w.sleeps + 1
        spinUntil := after + kWakeSpinFor }, .slept)

def wait (w : LockHolderWait) (holder : BitVec 64) (now after : Nat) : LockHolderWait × Step :=
  if w.started && holder == w.holder then
    let w := { w with polls := w.polls + 1 }
    if w.polls.toNat % kPollsPerClockRead ≠ 0 then (w, .spun) else w.timedWait now after
  else w.newHolder holder now

def restart (w : LockHolderWait) (now : Nat) : LockHolderWait :=
  if w.started then { w with changed := w.changed + (now - w.firstSeen), started := false }
  else { w with started := false }

end LockHolderWait

/-- A call on the waiter. -/
inductive Call where
  | wait (holder : BitVec 64) (now after : Nat)
  | restart (now : Nat)
  deriving DecidableEq

namespace Call

/-- The holder the caller saw; none when it saw the lock free. -/
def seen : Call → Option (BitVec 64)
  | .wait holder _ _ => some holder
  | .restart _ => none

/-- The clock at the start of the call and at its end. -/
def readings : Call → List Nat
  | .wait _ now after => [now, after]
  | .restart now => [now]

def time : Call → Nat
  | .wait _ now _ | .restart now => now

end Call

def LockHolderWait.apply (w : LockHolderWait) : Call → LockHolderWait
  | .wait holder now after => (w.wait holder now after).1
  | .restart now => w.restart now

/-- The waiter after these calls. -/
def waiterAfter (budget cap : Nat) (calls : List Call) : LockHolderWait :=
  calls.foldl LockHolderWait.apply (.fresh budget cap)

/-- The clock never goes back. -/
def Ascending (calls : List Call) : Prop := (calls.flatMap Call.readings).Pairwise (· ≤ ·)

/-! ## What the history says -/

/-- The holder that is there now and since when, and the time that holders
took which are gone. -/
structure Ledger where
  present : Option (BitVec 64 × Nat)
  gone : Nat

/-- A holder is gone when another one is seen or the lock is seen free, and is
charged from when it was first seen to then. -/
def Ledger.note (l : Ledger) (call : Call) : Ledger :=
  match l.present with
  | none => ⟨call.seen.map fun holder => (holder, call.time), l.gone⟩
  | some (holder, since) =>
    if call.seen = some holder then l
    else ⟨call.seen.map fun holder => (holder, call.time), l.gone + (call.time - since)⟩

/-- The time charged to holders that have gone. -/
def charged (calls : List Call) : Nat := (calls.foldl Ledger.note ⟨none, 0⟩).gone

end CycloneCache.Ref.HolderWait

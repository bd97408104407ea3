import CycloneCache.Lib.Headcount
import CycloneCache.Lib.Run

/-!
# Handle calls and the end of the stripes

A handle holds a raw pointer to a stripe, and it may be used while another
thread closes the volume. A call through a handle counts itself in and then
looks at `_teardown` and at the stripe generation; `close` stores `_teardown`,
moves the generation on, and then waits until each of the 64 shards reads zero
before it frees the stripes. A count carries the fork epoch it was made in, as
a child inherits the counts of threads it does not have.

`open` stores `_teardown` back before there is a stripe again, so between the
two it is the generation alone that keeps old handles out. It counts closes and
is modelled as a number.
-/

namespace CycloneCache.Ref.HandleCalls

open Lib

def kHandleCallShards : Nat := 64

/-! ### A shard -/

/-- `seen & ~kHandleCallCountMask` -/
def epochOf (word : Nat) : Nat := word / 2 ^ 32 * 2 ^ 32

/-- `seen & kHandleCallCountMask` -/
def countOf (word : Nat) : Nat := word % 2 ^ 32

/-- The word a call installs: one more, or the first of its epoch. The lower half
of a shifted epoch is zero. -/
def countedIn (epoch seen : Nat) : Nat :=
  if epochOf seen = epoch * 2 ^ 32 then (seen + 1) % 2 ^ 64 else epoch * 2 ^ 32 + 1

/-- `fetch_sub(1)` -/
def countedOut (word : Nat) : Nat := (word + (2 ^ 64 - 1)) % 2 ^ 64

/-- `busy`, in `wait_for_handle_calls`. -/
def busy (epoch word : Nat) : Bool := epochOf word == epoch * 2 ^ 32 && countOf word != 0

/-! ### The volume -/

/-- Where a thread is in a call with handle `h`. -/
inductive Pc where
  | outside
  /-- The constructor: `fork_epoch()` is to be read, -/
  | construct (h : Nat)
  /-- the shard to be loaded, -/
  | load (h epoch : Nat)
  /-- and exchanged. -/
  | exchange (h epoch seen : Nat)
  /-- `admitted`: `_teardown` is to be loaded, -/
  | checkTeardown (h : Nat)
  /-- then the generation. -/
  | checkGeneration (h : Nat)
  /-- The call was admitted, and uses the stripe. -/
  | admitted (h : Nat)
  /-- The call is over or was refused; the destructor is next. -/
  | leave
  deriving DecidableEq

namespace Pc

/-- Between constructor and destructor, both included. -/
def InFlight (pc : Pc) : Prop := pc ≠ .outside

def Admitted (pc : Pc) : Prop := ∃ h, pc = .admitted h

end Pc

/-- Where the thread is that closes or opens the volume. -/
inductive Control where
  | idle
  /-- `close`: `_teardown` is to be stored, -/
  | teardown
  /-- the generation to be moved on. -/
  | retire
  /-- `wait_for_handle_calls`: `fork_epoch()` is to be read, -/
  | wait
  /-- and shard `k` looked at. -/
  | await (epoch k : Nat)
  /-- The wait has returned: the stripes are to be freed, -/
  | free
  /-- the file closed. -/
  | closeFile
  /-- `open`: `_teardown` is to be stored back, -/
  | rearm
  /-- the file opened, -/
  | openFile
  /-- the init lock taken, -/
  | initLock
  /-- and the stripes built in `open_locked`. -/
  | build
  deriving DecidableEq

/-- A volume and the threads of its process. -/
structure Vol (T : Type) where
  calls : T → Pc := fun _ => .outside
  shards : Fin kHandleCallShards → Nat := fun _ => 0
  teardown : Bool := false
  stripeGeneration : Nat := 1
  /-- `_fd >= 0` -/
  fileOpen : Bool := false
  /-- `open` has published stripes that are not yet freed. -/
  stripes : Bool := false
  /-- For each handle ever made, the generation it carries. -/
  handles : List Nat := []
  forkEpoch : Nat := 0
  control : Control := .idle
  /-- The thread of `control` stayed behind in the parent. -/
  orphaned : Bool := false

namespace Vol

variable {T : Type}

/-- From the return of `wait_for_handle_calls` until `open` publishes stripes. -/
def Freed (s : Vol T) : Prop := s.stripes = false ∨ s.control = .free

end Vol

inductive Act (T : Type) where
  /-- A new handle. -/
  | create
  /-- A thread makes a call with a handle. -/
  | call (t : T) (h : Nat)
  /-- The next atomic step of the call. -/
  | step (t : T)
  /-- `compare_exchange_weak` fails for no reason. -/
  | spurious (t : T)
  /-- The call has done what it was made for. -/
  | finish (t : T)
  | close
  | open
  /-- `close` moves the generation on. -/
  | retire
  /-- Any other step of `close` or `open`. -/
  | control
  /-- The step of `open` fails. -/
  | fail
  /-- Go on in the child that a thread forks. -/
  | child (t : T)

section

variable {T : Type} [DecidableEq T] (shardOf : T → Fin kHandleCallShards)

def Vol.put (s : Vol T) (t : T) (pc : Pc) : Vol T :=
  { s with calls := Function.update s.calls t pc }

def Vol.setShard (s : Vol T) (k : Fin kHandleCallShards) (word : Nat) : Vol T :=
  { s with shards := Function.update s.shards k word }

def callStep (s : Vol T) (t : T) : Option (Vol T) :=
  match s.calls t with
  | .outside => none
  | .construct h => some (s.put t (.load h s.forkEpoch))
  | .load h epoch => some (s.put t (.exchange h epoch (s.shards (shardOf t))))
  | .exchange h epoch seen =>
    if s.shards (shardOf t) = seen then
      some ((s.setShard (shardOf t) (countedIn epoch seen)).put t (.checkTeardown h))
    else some (s.put t (.exchange h epoch (s.shards (shardOf t))))
  | .checkTeardown h => some (s.put t (if s.teardown then .leave else .checkGeneration h))
  | .checkGeneration h =>
    some (s.put t (if s.handles[h]? = some s.stripeGeneration then .admitted h else .leave))
  | .admitted _ => none
  | .leave =>
    some ((s.setShard (shardOf t) (countedOut (s.shards (shardOf t)))).put t .outside)

/-- The next step of `close` or `open`, but for the one of the generation. -/
def controlStep (s : Vol T) : Option (Vol T) :=
  match s.control with
  | .idle => none
  | .teardown => some { s with teardown := true, control := .retire }
  | .retire => none
  | .wait => some { s with control := .await s.forkEpoch 0 }
  | .await epoch k =>
    if hk : k < kHandleCallShards then
      if busy epoch (s.shards ⟨k, hk⟩) then some s
      else some { s with control := .await epoch (k + 1) }
    else some { s with control := .free }
  | .free => some { s with stripes := false, control := .closeFile }
  | .closeFile => some { s with fileOpen := false, control := .idle }
  | .rearm => some { s with teardown := false, control := .openFile }
  | .openFile => some { s with fileOpen := true, control := .initLock }
  | .initLock => some { s with control := .build }
  | .build => some { s with stripes := true, control := .idle }

/-- `open` gives up: without a file at once, and else through `close`. -/
def controlFail (s : Vol T) : Option (Vol T) :=
  match s.control with
  | .openFile => some { s with control := .idle }
  | .initLock | .build => some { s with control := .teardown }
  | _ => none

/-- A child has a copy of the memory and only the forking thread. -/
def forked (s : Vol T) : Vol T :=
  { s with
    calls := fun _ => .outside
    forkEpoch := (s.forkEpoch + 1) % 2 ^ 32
    orphaned := s.orphaned || s.control != .idle }

def volStep (s : Vol T) : Act T → Option (Vol T)
  | .create =>
    -- the gate of the cache keeps new handles out while the volume is closed or
    -- opened, and without stripes there is none to make
    if s.control = .idle ∧ s.stripes = true then
      some { s with handles := s.handles ++ [s.stripeGeneration] }
    else none
  | .call t h =>
    if s.calls t = .outside ∧ h < s.handles.length then some (s.put t (.construct h)) else none
  | .step t => callStep shardOf s t
  | .spurious t =>
    match s.calls t with
    | .exchange h epoch _ => some (s.put t (.exchange h epoch (s.shards (shardOf t))))
    | _ => none
  | .finish t =>
    match s.calls t with
    | .admitted _ => some (s.put t .leave)
    | _ => none
  | .close =>
    if s.control = .idle ∨ s.orphaned = true then
      some { s with control := .teardown, orphaned := false }
    else none
  | .open =>
    if (s.control = .idle ∨ s.orphaned = true) ∧ s.fileOpen = false then
      some { s with control := .rearm, orphaned := false }
    else none
  | .retire =>
    if s.control = .retire ∧ s.orphaned = false then
      some { s with stripeGeneration := s.stripeGeneration + 1, control := .wait }
    else none
  | .control => if s.orphaned = false then controlStep s else none
  | .fail => if s.orphaned = false then controlFail s else none
  | .child t => if s.calls t = .outside then some (forked s) else none

/-- The epoch of a child is a new one. -/
def FreshEpoch (s : Vol T) : Act T → Prop
  | .child _ => s.forkEpoch + 1 < 2 ^ 32
  | _ => True

/-- Fewer than `2 ^ 32` calls are in flight on each shard, and the epochs are not
used up. -/
def Sparse (s : Vol T) (l : Act T) : Prop :=
  (∀ k, headcount (fun t pc => shardOf t = k ∧ pc.InFlight) s.calls < 2 ^ 32) ∧ FreshEpoch s l

end

end CycloneCache.Ref.HandleCalls

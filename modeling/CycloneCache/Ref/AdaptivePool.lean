import CycloneCache.Lib.Run
import CycloneCache.Lib.Crew

/-!
# The adaptive thread pool

Workers leave when there are more of them than the target says; callers of
`check_scaling` and `scale_to` change the target and spawn. Every load, store
and compare-exchange of the live count and of the target is a step of its own.
The workers mutex guards the spawning part of a call; `holder` is the call
that is inside. Pausing, tasks and the reaping of finished threads touch
neither number.
-/

namespace CycloneCache.Ref.AdaptivePool

open Lib

structure Config where
  minThreads : Nat
  /-- `effective_max_threads()`. -/
  maxThreads : Nat
  scaleUpThreshold : Nat
  scaleDownThreshold : Nat
  deriving DecidableEq

inductive Worker where
  /-- Counted by `spawn_worker`; the thread is not there yet. -/
  | starting
  /-- Anywhere in `worker_loop` but between the two loads and the exchange. -/
  | head
  /-- The live count is loaded, the target is not. -/
  | loaded (live : Nat)
  /-- The target was below; the compare-exchange comes next. -/
  | exiting (live : Nat)
  | gone
  deriving DecidableEq

/-- The worker is spawned and has not decided to exit. -/
def Worker.lives : Worker → Nat
  | .gone => 0
  | _ => 1

/-- Where a caller is: before the second test of `check_scaling`, the load of
the target, its store, the lock, or inside the lock. -/
inductive Caller where
  | idle
  | notUp
  | loading (up : Bool)
  | storing (up : Bool) (target : Nat)
  | locking (again : Bool) (target : Nat)
  | inside
  deriving DecidableEq

inductive Stage where
  /-- Before the load of the live count. -/
  | gate
  /-- The count was below the target. -/
  | spawn
  /-- The worker is counted, its thread is being created. -/
  | start (worker : Nat)
  deriving DecidableEq

/-- The call inside the lock; `again` is `scale_to`, whose gate is a loop. -/
structure Holder where
  again : Bool
  target : Nat
  stage : Stage
  deriving DecidableEq

structure State where
  live : Nat
  target : Nat
  workers : List Worker
  callers : Nat → Caller
  holder : Option Holder

inductive Label where
  | checkScaling (i depth : Nat)
  | scaleTo (i target : Nat)
  /-- The next statement of a call. -/
  | call (i depth : Nat)
  /-- The thread of a counted worker cannot be created. -/
  | fails (i : Nat)
  /-- The next statement of a worker. -/
  | worker (w : Nat)
  deriving DecidableEq

def shouldScaleUp (c : Config) (depth threads : Nat) : Bool :=
  if threads = 0 then 0 < depth else threads * c.scaleUpThreshold % 2 ^ 64 < depth

def shouldScaleDown (c : Config) (depth threads : Nat) : Bool :=
  if threads ≤ c.minThreads then false else depth < threads * c.scaleDownThreshold % 2 ^ 64

/-- `std::clamp` to the two bounds. -/
def clamp (c : Config) (target : Nat) : Nat :=
  if target < c.minThreads then c.minThreads
  else if c.maxThreads < target then c.maxThreads else target

def State.setCaller (s : State) (i : Nat) (p : Caller) : State :=
  { s with callers := Function.update s.callers i p }

def State.setWorker (s : State) (w : Nat) (p : Worker) : State :=
  { s with workers := s.workers.set w p }

def workerStep (s : State) (w : Nat) : Option State :=
  match s.workers[w]? with
  | some .head => some (s.setWorker w (.loaded s.live))
  | some (.loaded n) => some (s.setWorker w (if s.target < n then .exiting n else .head))
  | some (.exiting n) =>
    if s.live = n then some { s.setWorker w .gone with live := n - 1 }
    else some (s.setWorker w .head)
  | _ => none

/-- The load of the target in `check_scaling`, and the new target. -/
def newTarget (c : Config) (s : State) (up : Bool) : Caller :=
  if up then
    if s.target < c.maxThreads then .storing true (min (s.target + 1) c.maxThreads) else .idle
  else if c.minThreads < s.target then .storing false (max (s.target - 1) c.minThreads) else .idle

/-- The part under the workers mutex. -/
def insideStep (s : State) (i : Nat) : Option State :=
  match s.holder with
  | none => none
  | some h =>
    match h.stage with
    | .gate =>
      if s.live < h.target then some { s with holder := some { h with stage := .spawn } }
      else some { s.setCaller i .idle with holder := none }
    | .spawn =>
      some { s with
        live := s.live + 1, workers := s.workers ++ [.starting]
        holder := some { h with stage := .start s.workers.length } }
    | .start w =>
      if s.workers[w]? = some .starting then
        if h.again then
          some { s.setWorker w .head with holder := some { h with stage := .gate } }
        else some { (s.setWorker w .head).setCaller i .idle with holder := none }
      else none

def callStep (c : Config) (s : State) (i depth : Nat) : Option State :=
  match s.callers i with
  | .idle => none
  | .notUp => some (s.setCaller i (if shouldScaleDown c depth s.live then .loading false else .idle))
  | .loading up => some (s.setCaller i (newTarget c s up))
  | .storing up t =>
    some { s.setCaller i (if up then .locking false t else .idle) with target := t }
  | .locking again t =>
    match s.holder with
    | none => some { s.setCaller i .inside with holder := some ⟨again, t, .gate⟩ }
    | some _ => none
  | .inside => insideStep s i

/-- `std::thread` throws: the count is taken back and the call is left. -/
def failStep (s : State) (i : Nat) : Option State :=
  match s.callers i, s.holder with
  | .inside, some ⟨_, _, .start w⟩ =>
    if s.workers[w]? = some .starting then
      some { (s.setWorker w .gone).setCaller i .idle with live := s.live - 1, holder := none }
    else none
  | _, _ => none

def step (c : Config) (s : State) : Label → Option State
  | .checkScaling i depth =>
    if s.callers i = .idle then
      some (s.setCaller i (if shouldScaleUp c depth s.live then .loading true else .notUp))
    else none
  | .scaleTo i t =>
    if s.callers i = .idle then
      some { s.setCaller i (.locking true (clamp c t)) with target := clamp c t }
    else none
  | .call i depth => callStep c s i depth
  | .fails i => failStep s i
  | .worker w => workerStep s w

/-- `start` has returned; its workers may have begun. -/
structure Started (c : Config) (s : State) : Prop where
  live : s.live = c.minThreads
  target : s.target = c.minThreads
  workers : s.workers.length = c.minThreads
  begun : ∀ w ∈ s.workers, w = .head ∨ ∃ n ≤ c.minThreads, w = .loaded n
  callers : ∀ i, s.callers i = .idle
  holder : s.holder = none

end CycloneCache.Ref.AdaptivePool

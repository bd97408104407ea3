import CycloneCache.Lib.Run

/-!
# The fork gate

A background thread of the library does its work in passes, and no pass may be
under way while the process forks. A pass announces itself and then looks for
a pending fork; the handler that runs before `fork` announces itself and then
looks for a pass. A pass that finds a fork backs out and waits, or gives up if
its owner is stopping; a fork that finds a pass waits.

The counters have 32 bits. A thread adds at most one to each of them, so they
are modelled as numbers.
-/

namespace CycloneCache.Ref.ForkGate

/-- Where a thread is: in code of its own or before the next atomic step of the
gate's. -/
inductive Pc where
  | outside
  /-- The constructor of a pass: `g_passes_active` is to be raised, -/
  | announce
  /-- `g_forks_pending` to be looked at, -/
  | look
  /-- `g_passes_active` to be taken back. -/
  | backOut
  /-- Its inner loop: `g_forks_pending` is to be looked at, -/
  | wait
  /-- then the flag of the owner. -/
  | stopCheck
  /-- The destructor of a thread's outermost pass. -/
  | leave
  /-- `on_fork_prepare`: `g_forks_pending` is to be raised, -/
  | pend
  /-- `g_passes_active` looked at until it is zero, -/
  | quiesce
  /-- and the liveness mutex taken. -/
  | lock
  /-- `on_fork_prepare` has returned. -/
  | prepared
  /-- `on_fork_parent` has released the mutex. -/
  | unpend
  deriving DecidableEq

/-- `depth` is `t_pass_depth`, `entered` the `_entered` of the thread's passes,
the innermost first. -/
structure Thread where
  pc : Pc := .outside
  depth : Nat := 0
  entered : List Bool := []
  deriving DecidableEq

namespace Thread

/-- In a pass that was entered, and not yet counted out of it. -/
def Inside (th : Thread) : Prop := th.depth ≠ 0 ∨ th.pc = .leave

/-- `on_fork_prepare` has returned and `on_fork_parent` not yet lowered the
pending count. -/
def Forking (th : Thread) : Prop := th.pc = .prepared ∨ th.pc = .unpend

/-- No pass and no fork of the thread is under way. -/
def Over (th : Thread) : Prop := th.pc = .outside ∧ th.depth = 0

end Thread

structure Gate (T : Type) where
  threads : T → Thread := fun _ => {}
  forksPending : Nat := 0
  passesActive : Nat := 0
  livenessMutex : Option T := none
  forkEpoch : Nat := 0

inductive Act (T : Type) where
  /-- A pass is constructed, -/
  | pass (t : T)
  /-- the innermost one destroyed. -/
  | unpass (t : T)
  /-- A thread calls `fork`. -/
  | fork (t : T)
  /-- The next atomic step of the gate's code. -/
  | step (t : T)
  /-- The same, and the owner of the pass is stopping. -/
  | stop (t : T)
  /-- Go on in the child that the thread has forked. -/
  | child (t : T)

section

variable {T : Type} [DecidableEq T]

def Gate.put (s : Gate T) (t : T) (th : Thread) : Gate T :=
  { s with threads := Function.update s.threads t th }

/-- `ForkGatedPass::ForkGatedPass`, up to its first atomic step. -/
def pass (s : Gate T) (t : T) (th : Thread) : Option (Gate T) :=
  if th.pc ≠ .outside then none
  else if th.depth ≠ 0 then
    some (s.put t { th with depth := th.depth + 1, entered := true :: th.entered })
  else some (s.put t { th with pc := .announce })

/-- `ForkGatedPass::~ForkGatedPass`, up to its atomic step. -/
def unpass (s : Gate T) (t : T) (th : Thread) : Option (Gate T) :=
  if th.pc ≠ .outside then none
  else match th.entered with
    | [] => none
    | false :: rest => some (s.put t { th with entered := rest })
    | true :: rest =>
      if th.depth - 1 = 0 then some (s.put t ⟨.leave, 0, rest⟩)
      else some (s.put t { th with depth := th.depth - 1, entered := rest })

/-- `on_fork_prepare`, up to its first atomic step: a fork from inside a pass
goes past the gate. -/
def fork (s : Gate T) (t : T) (th : Thread) : Option (Gate T) :=
  if th.pc ≠ .outside then none
  else if th.depth = 0 then some (s.put t { th with pc := .pend })
  else some (s.put t { th with pc := .lock })

def atomicStep (s : Gate T) (t : T) (th : Thread) : Option (Gate T) :=
  match th.pc with
  | .outside => none
  | .announce => some { s.put t { th with pc := .look } with passesActive := s.passesActive + 1 }
  | .look =>
    if s.forksPending = 0 then
      some (s.put t { pc := .outside, depth := 1, entered := true :: th.entered })
    else some (s.put t { th with pc := .backOut })
  | .backOut => some { s.put t { th with pc := .wait } with passesActive := s.passesActive - 1 }
  | .wait =>
    if s.forksPending ≠ 0 then some (s.put t { th with pc := .stopCheck })
    else some (s.put t { th with pc := .announce })
  | .stopCheck => some (s.put t { th with pc := .wait })
  | .leave => some { s.put t { th with pc := .outside } with passesActive := s.passesActive - 1 }
  | .pend => some { s.put t { th with pc := .quiesce } with forksPending := s.forksPending + 1 }
  | .quiesce =>
    if s.passesActive ≠ 0 then some s
    else some (s.put t { th with pc := .lock })
  | .lock =>
    if s.livenessMutex.isSome then none
    else some { s.put t { th with pc := .prepared } with livenessMutex := some t }
  | .prepared =>
    -- `on_fork_parent`
    some { s.put t { th with pc := if th.depth = 0 then .unpend else .outside } with
      livenessMutex := none }
  | .unpend => some { s.put t { th with pc := .outside } with forksPending := s.forksPending - 1 }

/-- The owner is stopping: the pass is not entered. -/
def stop (s : Gate T) (t : T) (th : Thread) : Option (Gate T) :=
  if th.pc = .stopCheck then
    some (s.put t { th with pc := .outside, entered := false :: th.entered })
  else none

/-- `on_fork_child`, in a copy of the memory in which the forking thread is the
only one. -/
def onForkChild (s : Gate T) (t : T) (th : Thread) : Gate T where
  threads := Function.update (fun _ => {}) t { th with pc := .outside }
  forkEpoch := s.forkEpoch + 1
  livenessMutex := none
  passesActive := if th.depth ≠ 0 then 1 else 0
  forksPending := 0

def gateStep (s : Gate T) : Act T → Option (Gate T)
  | .pass t => pass s t (s.threads t)
  | .unpass t => unpass s t (s.threads t)
  | .fork t => fork s t (s.threads t)
  | .step t => atomicStep s t (s.threads t)
  | .stop t => stop s t (s.threads t)
  | .child t =>
    if (s.threads t).pc = .prepared then some (onForkChild s t (s.threads t)) else none

/-- A fork is made from outside any pass. -/
def FromOutside (s : Gate T) : Act T → Prop
  | .fork t => (s.threads t).depth = 0
  | _ => True

instance (s : Gate T) : (l : Act T) → Decidable (FromOutside s l)
  | .fork t => inferInstanceAs (Decidable ((s.threads t).depth = 0))
  | .pass _ | .unpass _ | .step _ | .stop _ | .child _ => isTrue trivial

end

end CycloneCache.Ref.ForkGate

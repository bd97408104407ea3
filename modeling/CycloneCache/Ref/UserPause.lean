import CycloneCache.Lib.Run

/-!
# Pausing the optimization engine

Two threads set the flag that pauses the workers. A user calls `pause` and
`resume`; the monitor thread pauses the pool while the load is high and
resumes it when the load has been low for long enough. Every store, load and
exchange of the flags they share is a step of its own. The load readings and
the clock are part of the label of a monitor step, which reads them where the
source does. `check_scaling`, at the end of an iteration, does not touch the
flags.
-/

namespace CycloneCache.Ref.UserPause

structure Config where
  enableLoadShedding : Bool
  loadSheddingCooldown : Int

/-- Where the user's thread is: between calls, before `_thread_pool->pause()`,
or before the second and the third statement of `resume`. -/
inductive User where
  | idle
  | pausing
  | clearing
  | resuming
  deriving DecidableEq

/-- Where the monitor thread is: at the top of an iteration, or before the
statement that each name says. -/
inductive Monitor where
  | top
  | exchange
  | poolPause
  | load
  | reload
  | clear
  | poolResume
  deriving DecidableEq

structure State where
  paused : Bool
  loadShedding : Bool
  poolPaused : Bool
  inCooldown : Bool
  loadDropTime : Int
  user : User
  monitor : Monitor
  deriving DecidableEq

def initial : State where
  paused := false
  loadShedding := false
  poolPaused := false
  inCooldown := false
  loadDropTime := 0
  user := .idle
  monitor := .top

inductive Label where
  /-- `pause` begins: `_paused` is set. -/
  | pause
  /-- `resume` begins: `_paused` is cleared. -/
  | resume
  /-- The next statement of the user's call. -/
  | user
  /-- The next statement of `monitoring_loop`. -/
  | monitor (aboveHigh belowLow : Bool) (now : Int)
  deriving DecidableEq

def userStep (s : State) : Option State :=
  match s.user with
  | .idle => none
  | .pausing => some { s with poolPaused := true, user := .idle }
  | .clearing => some { s with loadShedding := false, user := .resuming }
  | .resuming => some { s with poolPaused := false, user := .idle }

def monitorStep (c : Config) (s : State) (aboveHigh belowLow : Bool) (now : Int) : State :=
  match s.monitor with
  | .top =>
    if c.enableLoadShedding && aboveHigh then { s with inCooldown := false, monitor := .exchange }
    else { s with monitor := .load }
  | .exchange =>
    { s with loadShedding := true, monitor := if s.loadShedding then .top else .poolPause }
  | .poolPause => { s with poolPaused := true, monitor := .top }
  | .load =>
    if s.loadShedding && belowLow then
      if !s.inCooldown then { s with inCooldown := true, loadDropTime := now, monitor := .top }
      else if c.loadSheddingCooldown ≤ now - s.loadDropTime then
        { s with inCooldown := false, monitor := .clear }
      else { s with monitor := .top }
    else { s with monitor := .reload }
  | .reload =>
    { s with inCooldown := if s.loadShedding then false else s.inCooldown, monitor := .top }
  | .clear => { s with loadShedding := false, monitor := .poolResume }
  | .poolResume => { s with poolPaused := false, monitor := .top }

def step (c : Config) (s : State) : Label → Option State
  | .pause => if s.user = .idle then some { s with paused := true, user := .pausing } else none
  | .resume => if s.user = .idle then some { s with paused := false, user := .clearing } else none
  | .user => userStep s
  | .monitor aboveHigh belowLow now => some (monitorStep c s aboveHigh belowLow now)

/-- A `pause` has returned and no `resume` has begun since. -/
def State.UserPaused (s : State) : Prop := s.user = .idle ∧ s.paused = true

/-- No call and no iteration is under way. -/
def State.Settled (s : State) : Prop := s.user = .idle ∧ s.monitor = .top

/-- The pool is paused while a user pause is in force, and is not paused once
everything has settled with no reason to be. -/
def State.PauseHolds (s : State) : Prop :=
  (s.UserPaused → s.poolPaused = true) ∧
    (s.Settled → s.paused = false → s.loadShedding = false → s.poolPaused = false)

end CycloneCache.Ref.UserPause

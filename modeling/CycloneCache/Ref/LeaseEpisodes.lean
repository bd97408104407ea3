import CycloneCache.Ref.StripeRun

/-!
# Deferral episodes of several writers

`StripeRun` follows one writer through `lease_gate`. Several processes that
write one stripe take turns under the write lock, so each of their gates and
grants is one step here, but the two clocks of a deferral are kept in
different places: the start of the episode, `wrap_deferred_since_ns`, is the
process's own, and the deadline a reader polls is one word of the shared
header. This file embeds the code that touches either of them:
`lease_gate`, `end_deferral_episode` and `publish_wrap_deferred_deadline`.

What the gate reads of the readers, the lease expiry and the borrow count, is
an argument of the step. The clock is in nanoseconds and far from 2^64.
-/

namespace CycloneCache.Ref

open Lib

structure EpisodeState where
  now : Nat
  /-- `shared_wrap_deferred_deadline_ms` -/
  deadlineMs : Nat
  /-- `wrap_deferred_since_ns`, by process. -/
  since : Nat → Nat

/-- How `lease_gate` ends: it returns true on its own, false, or true past
the ceiling. -/
inductive GateAnswer where
  | passed
  | deferred
  | forced
  deriving DecidableEq

/-- What `publish_wrap_deferred_deadline` stores: whole milliseconds cut to
32 bits, with 0 kept for "none". -/
def publishedDeadline (deadlineNs : Nat) : Nat :=
  if deadlineNs = 0 then 0
  else
    let ms := deadlineNs / 1000000 % 4294967296
    if ms = 0 then 1 else ms

/-- `ns_until_forced_wrap` with leases on, from the published word and the
clock. `admitted` is what the teardown gate says; no deadline is `UINT64_MAX`. -/
def nsUntilForcedWrap (cfg : LeaseConfig) (admitted : Bool) (deadlineMs now : Nat) : Nat :=
  if !admitted then 2 ^ 64 - 1
  else if deadlineMs = 0 then 2 ^ 64 - 1
  else
    let nowMs := now / 1000000 % 4294967296
    let remainingMs := (deadlineMs + (4294967296 - nowMs)) % 4294967296
    if remainingMs > cfg.ceiling / 1000000 then 0 else remainingMs * 1000000

def EpisodeState.publishWrapDeferredDeadline (s : EpisodeState) (deadlineNs : Nat) :
    EpisodeState :=
  { s with deadlineMs := publishedDeadline deadlineNs }

def EpisodeState.setSince (s : EpisodeState) (p ns : Nat) : EpisodeState :=
  { s with since := Function.update s.since p ns }

/-- `end_deferral_episode`: without an episode the deadline is not touched. -/
def EpisodeState.endDeferralEpisode (s : EpisodeState) (p : Nat) : EpisodeState :=
  if s.since p = 0 then s else (s.setSince p 0).publishWrapDeferredDeadline 0

/-- Is there a reader to protect? -/
def gateProtects (cfg : LeaseConfig) (now expiry borrows : Nat) : Bool :=
  leaseActive cfg expiry now && borrows ≠ 0

/-- `lease_gate` of process `p`. `episode` is false for the early advance,
which only looks. -/
def EpisodeState.leaseGate (cfg : LeaseConfig) (s : EpisodeState) (p : Nat) (episode : Bool)
    (expiry borrows : Nat) : EpisodeState × GateAnswer :=
  if !gateProtects cfg s.now expiry borrows then (s.endDeferralEpisode p, .passed)
  else if !episode then (s, .deferred)
  else if s.since p ≠ 0 ∧ s.now - s.since p > cfg.ceiling then
    ((s.setSince p 0).publishWrapDeferredDeadline 0, .forced)
  else if s.since p = 0 then
    ((s.setSince p s.now).publishWrapDeferredDeadline (s.now + cfg.ceiling), .deferred)
  else (s, .deferred)

inductive EpisodeAct where
  | tick (d : Nat)
  | gate (p : Nat) (episode : Bool) (expiry borrows : Nat)
  /-- `allocate_write_slot` grants a slot. -/
  | granted (p : Nat)
  deriving DecidableEq

/-- Every process has a configuration of its own. -/
def episodeStep (cfg : Nat → LeaseConfig) (s : EpisodeState) :
    EpisodeAct → Option EpisodeState
  | .tick d => some { s with now := s.now + d }
  | .gate p episode expiry borrows => some (s.leaseGate (cfg p) p episode expiry borrows).1
  | .granted p => some (s.endDeferralEpisode p)

/-- Nobody is deferring. -/
def EpisodeState.fresh (now : Nat) : EpisodeState where
  now := now
  deadlineMs := 0
  since := fun _ => 0

end CycloneCache.Ref

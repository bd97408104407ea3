import CycloneCache.Ref.Alternates

/-!
# Several processes on one stripe

The mutex of a stripe is its process's own, so between two steps of one call
any step of another process may come. A process here is a call in progress.
The write lock makes an allocation and its fill one step, and a bracket on a
bucket is one step. Everything else a writer does before its bracket is a load
of its own: the wrap fence, the snapshot, the probe and each header the
election reads. The probe counts only if the bucket's version is still the
same when its last header has been read.

An alternate write resolves its chain in one step, from the snapshot to the
plan, and keeps the stripe as it saw it; the copies it carries forward are
made from those bytes. Its retries are new calls, as they are for a removal.
No step here reads the RAM tier, which each process has for itself.
-/

namespace CycloneCache.Ref.Volume

open Function

/-- What a publish compares the bucket with, and clears from it. -/
structure View where
  verified : Option Nat
  clears : List Nat
  seen : List Nat
  deriving DecidableEq

def Election.view (el : Election) : View := ⟨el.verified.map Prod.fst, el.clears, el.seen⟩

def AltPlan.view (plan : AltPlan) : View :=
  ⟨plan.head.map HeadCandidate.rel, plan.clears, plan.seen⟩

/-- An alternate whose slot is filled, with the splices that follow its
publish and the pass they were planned in. -/
structure AltCommit where
  view : View
  record : Record
  repoints : List (PendingRepoint × Nat)
  pass : Nat

/-- Where a process is in its call. -/
inductive ProcPc where
  | idle
  /-- A plain document is laid; the wrap fence; its snapshot; the candidates
  whose headers are still to be read, with the version of the bucket. -/
  | laid (r : Record)
  | fenced (r : Record)
  | snapped (r : Record) (snap : StripeSnapshot)
  | electing (r : Record) (snap : StripeSnapshot) (version : Nat)
      (todo : List (DirEntry × AdmitClass)) (el : Election)
  | elected (r : Record) (el : Election)
  /-- An alternate, with the stripe its plan saw. -/
  | planned (w : AlternateWrite) (plan : AltPlan) (d : Document) (old : State)
      (allowRestart : Bool)
  | laidAlternate (c : AltCommit)
  | fencedAlternate (c : AltCommit)
  | splicing (key : CacheKey) (pass : Nat) (repoints : List (PendingRepoint × Nat))
  /-- A removal, with what its probe collected and then with the offsets. -/
  | collected (key : CacheKey) (snap : StripeSnapshot) (found : List (DirEntry × AdmitClass))
  | removing (key : CacheKey) (offsets : List Nat)

/-- A stripe and the processes of `P`, any number of them. -/
structure Shared (P : Type) where
  vol : State
  pc : P → ProcPc

def Shared.fresh (P : Type) (env : Env) (bytes : Lib.Memory) : Shared P :=
  ⟨State.fresh env bytes, fun _ => .idle⟩

/-- What the world answers a step: the lease gate, a failing fill, and whether
the write lock is free for a splice. -/
structure Weather where
  gates : Gates
  short : Option Nat
  lockFree : Bool

inductive ProcAct where
  | write (key : CacheKey) (header content : List UInt8) (w : Weather)
  | writeAlternate (w : AlternateWrite) (now : Nat) (allowRestart : Bool)
  | remove (key : CacheKey)
  | next (w : Weather)
  /-- A retry budget or a wait is used up. -/
  | giveUp

namespace Env

variable (env : Env)

/-- The bracket of a publish. -/
def publishView (s : State) (r : Record) (v : View) : InsertResult :=
  insert (s.bucket r.key) (env.publication s r) v.verified (env.classify s) v.clears v.seen

/-- The stripe with the new bucket. -/
def publishedState (s : State) (r : Record) (b : Bucket) : State :=
  { s.setBucket r.key b with published := r :: s.published }

/-- Election, walk and plan of an alternate, and its document. -/
def planCall (s : State) (w : AlternateWrite) (now : Nat) (allowRestart : Bool) : ProcPc :=
  match env.planAlternate s w (kHeaderSize + w.header.length + w.content.length) with
  | .error _ => .idle
  | .ok plan =>
    match DocumentBuilder.build ⟨w.key, w.header, w.content, w.id, plan.nextLink, now⟩ with
    | none => .idle
    | some d => .planned w plan d s allowRestart

/-- The allocation and the fill of a planned alternate. -/
def fillPlanned (s : State) (w : AlternateWrite) (plan : AltPlan) (d : Document) (old : State)
    (allowRestart : Bool) (a : Weather) : State × Option AltCommit :=
  match env.allocateWriteSlot s (carriedBytes plan.carried + d.len) a.gates with
  | (s', .error _) => (s', none)
  | (s', .ok slot) =>
    let pass := env.stripe.passOf old.gen
    let wrapped := env.stripe.passOf s'.gen != pass
    let raced := wrapRaced plan wrapped
    if !wrapped && plan.head.all (fun h => h.cls == .kCurrent) &&
        env.recheckStale s' w.key plan then (s', none)
    else if raced && plan.nextLink != 0 && allowRestart && env.stripe.retain then (s', none)
    else
      let rs := slotRecords old.bytes w d slot plan raced
      let filled := fillSlot s' slot (slotImage rs) a.short
      match a.short with
      | some _ => (filled, none)
      | none =>
        ({ filled with laid := rs.2 :: rs.1 ++ filled.laid },
          some ⟨plan.view, rs.2, if raced then [] else plan.repoints, pass⟩)

/-- The next step of a call. -/
def procNext (s : State) (a : Weather) : ProcPc → Option (State × ProcPc)
  | .idle => none
  | .laid r =>
    if env.stripe.passOf s.gen ≠ r.pass then some (s, .idle) else some (s, .fenced r)
  | .fenced r => some (s, .snapped r (env.snapshot s))
  | .snapped r snap =>
    some (s, .electing r snap (s.versions (bucketIdx r.key))
      (probeEach env.stripe (s.bucket r.key) r.key.tag snap) .start)
  | .electing r snap version (c :: todo) el =>
    some (s, .electing r snap version todo (env.electStep s.bytes snap r.key el c))
  | .electing r snap version [] el =>
    if s.versions (bucketIdx r.key) = version then some (s, .elected r el)
    else some (s, .snapped r snap)
  | .elected r el =>
    match env.publishView s r el.view with
    | .stale => some (s, .laid r)
    | .failed => some (s, .idle)
    | .published b => some (publishedState s r b, .idle)
  | .planned w plan d old allowRestart =>
    match env.fillPlanned s w plan d old allowRestart a with
    | (s', none) => some (s', .idle)
    | (s', some c) => some (s', .laidAlternate c)
  | .laidAlternate c =>
    if env.stripe.passOf s.gen ≠ c.record.pass then some (s, .idle)
    else some (s, .fencedAlternate c)
  | .fencedAlternate c =>
    match env.publishView s c.record c.view with
    | .stale => some (s, .idle)
    | .failed => some (s, .idle)
    | .published b =>
      some (publishedState s c.record b, .splicing c.record.key c.pass c.repoints)
  | .splicing key pass ((r, newNext) :: rs) =>
    some (env.repointChainLink s key pass r newNext a.lockFree, .splicing key pass rs)
  | .splicing _ _ [] => some (s, .idle)
  | .collected key snap found =>
    some (s, .removing key ((found.filterMap fun c =>
      env.removeCandidate s.bytes snap key c.1 c.2).map Prod.fst))
  | .removing key offsets =>
    if offsets.isEmpty then some (s, .idle)
    else some (s.setBucket key (removeAllAt (s.bucket key) key.tag offsets), .idle)

/-- One step of process `p`. -/
def procStep {P : Type} [DecidableEq P] (sh : Shared P) : P × ProcAct → Option (Shared P)
  | (p, .write key header content a) =>
    match sh.pc p, env.fillWrite sh.vol (plainBuilder key header content) a.gates a.short with
    | .idle, (s', .ok r) => some ⟨s', update sh.pc p (.laid r)⟩
    | .idle, (s', .error _) => some ⟨s', update sh.pc p .idle⟩
    | _, _ => none
  | (p, .writeAlternate w now allowRestart) =>
    match sh.pc p with
    | .idle =>
      some { sh with pc := update sh.pc p (env.planCall sh.vol w now allowRestart) }
    | _ => none
  | (p, .remove key) =>
    match sh.pc p with
    | .idle =>
      let pc := .collected key (env.snapshot sh.vol) (env.probe sh.vol key)
      some { sh with pc := update sh.pc p pc }
    | _ => none
  | (p, .next a) =>
    (env.procNext sh.vol a (sh.pc p)).map fun r => ⟨r.1, update sh.pc p r.2⟩
  | (p, .giveUp) => some { sh with pc := update sh.pc p .idle }

end Env

end CycloneCache.Ref.Volume

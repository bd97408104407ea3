import CycloneCache.Ref.RamTier

/-!
# Readers, writers and the RAM tier

The threads of one process on one key, one access at a time. A writer holds the
stripe mutex from its plan to its return (a plain write lets go of it while it
flushes) and makes the stores of its program one by one. A reader holds nothing.
`read_sync` asks RAM for the Original and else serves the head; `read_alternate`
samples the remove generation and the bucket's version, walks the chain link by
link, lets the selector pick, asks RAM, reads the document, and offers its copy
to RAM. The offer is conditional: the generation and the version are looked at
again under the lock of the RAM tier, which a get and an eviction of the key
take too, while a publish and a bump do not.

A read fails where a document is gone, a walk may end early, and a wait may
give up; an attempt of a read is a call of its own, since the next attempt
samples afresh. The selector is the client's and may pick any node. The RAM tier
may turn an offer down and may drop any copy at any time.

`Start`, `answers` and the bounds in `State` are not in the program: they record
what was answered, and what the calls that returned have promised.
-/

namespace CycloneCache.Ref.Ram

open Lib Function

/-- What had been answered and rewritten when a read began. -/
structure Start where
  served : Nat → Nat
  rewritten : Nat

structure Answer where
  /-- `read_alternate_sync`, or else `read_sync`. -/
  alternate : Bool
  id : Nat
  body : Nat
  start : Start

/-- A node as a reader's walk collected it. -/
structure Seen where
  offset : Nat
  id : Nat
  body : Nat
  deriving DecidableEq

/-- The samples of a `read_alternate_sync`. -/
structure Sample where
  start : Start
  epoch : Nat
  version : Nat

/-- Where a read of a selected node is. -/
inductive Stage where
  | get
  | stamp (c : Copy)
  | drop
  | disk
  | copy
  | put
  | pred
  | insert
  | recheck
  | undo
  deriving DecidableEq

inductive Call where
  | read
  | readAlternate
  | write (len : Nat)
  | writeAlternate (id len : Nat)
  | remove
  | removeAlternate (id : Nat)
  | other (shared evicts : Bool)
  deriving DecidableEq

/-- A write that asks for space, an alternate one with its plan and the pass
it was made in. -/
inductive Alloc where
  | write (len : Nat)
  | alternate (id len : Nat) (plan : WritePlan) (dropped : Bool) (pass : Nat)
  | other (shared evicts : Bool)
  deriving DecidableEq

inductive Pc where
  | idle (result : Option Answer)
  | readGet (f : Start)
  | readStamp (f : Start) (c : Copy)
  | readDrop (f : Start)
  | readProbe (f : Start)
  | readDisk (f : Start) (o : Nat)
  | altEpoch (f : Start)
  | altVersion (f : Start) (epoch : Nat)
  | altProbe (r : Sample)
  | altWalk (r : Sample) (nodes : List Seen) (o : Nat)
  | altSelect (r : Sample) (nodes : List Seen)
  | altServe (r : Sample) (n : Seen) (stage : Stage)
  | waiting (c : Call)
  | planning (id len : Nat)
  | allocating (a : Alloc)
  | flushing (len pass : Nat)
  | storing (todo : List Store) (out : Outcome)

structure State where
  disk : Disk
  ram : Copies
  ramLock : Option Nat
  mutex : Option Nat
  pcs : Nat → Pc
  /-- What the invalidations have promised: at the bump, and at the return. -/
  mark : Nat → Nat
  floor : Nat → Nat
  rebased : Nat
  rewritten : Nat
  /-- The last write of an id that a `read_alternate_sync` has returned. -/
  served : Nat → Nat
  answers : Nat → List Answer

/-- A process that has opened the key: no copies, no calls. -/
def State.opened (d : Disk) : State where
  disk := d
  ram := fun _ => none
  ramLock := none
  mutex := none
  pcs := fun _ => .idle none
  mark := d.latest
  floor := d.latest
  rebased := 0
  rewritten := 0
  served := fun _ => 0
  answers := fun _ => []

inductive Act where
  | call (t : Nat) (c : Call)
  | step (t : Nat)
  /-- A walk ends before the chain does. -/
  | cut (t : Nat)
  | select (t : Nat) (i : Option Nat)
  | insert (t : Nat) (admitted : Bool)
  | plan (t : Nat) (keep : Nat → Bool)
  | wrap (t : Nat)
  | advance (t : Nat) (o : Nat)
  | giveUp (t : Nat)
  /-- The RAM tier makes room. -/
  | ramEvict (id : Nat)

namespace State

def setPc (s : State) (t : Nat) (pc : Pc) : State :=
  { s with pcs := update s.pcs t pc }

/-- A read returns. -/
def answer (s : State) (t : Nat) (a : Answer) : State :=
  { s with
    pcs := update s.pcs t (.idle (some a))
    served := if a.alternate then update s.served a.id (max (s.served a.id) a.body)
      else s.served
    answers := update s.answers t (a :: s.answers t) }

def dropCopy (s : State) (id : Nat) : State :=
  { s with ram := update s.ram id none }

def begins (s : State) : Start := ⟨s.served, s.rewritten⟩

/-- A writer starts its stores. -/
def run (s : State) (t : Nat) (p : Program) : State :=
  { s with mutex := some t, pcs := update s.pcs t (.storing p.stores p.out) }

/-- A writer lets go without a result. -/
def leave (s : State) (t : Nat) : State :=
  { s with mutex := none, pcs := update s.pcs t (.idle none) }

end State

/-- The version of the bucket as a reader compares it: a 32-bit word. -/
def sameVersion (v w : Nat) : Bool := v % 2 ^ 32 == w % 2 ^ 32

/-! ## Reading -/

/-- `read_sync`. -/
def readStep (cfg : Config) (s : State) (t : Nat) : Pc → Option State
  | .readGet f =>
    if s.ramLock = none then
      match s.ram kOriginal with
      | none => some (s.setPc t (.readProbe f))
      | some c =>
        if cfg.ramCoherence then some (s.setPc t (.readStamp f c))
        else some (s.answer t ⟨false, kOriginal, c.body, f⟩)
    else none
  | .readStamp f c =>
    if sameVersion c.stamp s.disk.version then
      some (s.answer t ⟨false, kOriginal, c.body, f⟩)
    else some (s.setPc t (.readDrop f))
  | .readDrop f =>
    if s.ramLock = none then some ((s.dropCopy kOriginal).setPc t (.readProbe f)) else none
  | .readProbe f =>
    -- a probe that meets a writer of the bucket waits
    if s.disk.version % 2 = 0 then
      match s.disk.entry with
      | none => some (s.setPc t (.idle none))
      | some h => some (s.setPc t (.readDisk f h))
    else none
  | .readDisk f o =>
    match s.disk.docs o with
    | none => some (s.setPc t (.idle none))
    | some x =>
      if s.disk.exposed ≤ o then some (s.answer t ⟨false, x.alternateId, x.body, f⟩)
      else some (s.setPc t (.idle none))
  | _ => none

/-- One node of a reader's walk. -/
def walkStep (s : State) (t : Nat) (r : Sample) (nodes : List Seen) (o : Nat) : State :=
  match s.disk.docs o with
  | none => s.setPc t (.altSelect r nodes)
  | some x =>
    if x.nextAlternateOffset = 0 ∨ kMaxChainTraversalDepth ≤ nodes.length + 1 then
      s.setPc t (.altSelect r (nodes ++ [⟨o, x.alternateId, x.body⟩]))
    else
      s.setPc t (.altWalk r (nodes ++ [⟨o, x.alternateId, x.body⟩]) x.nextAlternateOffset)

/-- `read_alternate_sync` until the selector has picked. -/
def altStep (s : State) (t : Nat) : Pc → Option State
  | .altEpoch f => some (s.setPc t (.altVersion f s.disk.removeEpoch))
  | .altVersion f e => some (s.setPc t (.altProbe ⟨f, e, s.disk.version⟩))
  | .altProbe r =>
    if s.disk.version % 2 = 0 then
      match s.disk.entry with
      | none => some (s.setPc t (.idle none))
      | some h => some (s.setPc t (.altWalk r [] h))
    else none
  | .altWalk r nodes o => some (walkStep s t r nodes o)
  | _ => none

def useRamCache (cfg : Config) (n : Seen) : Bool := cfg.ramCache && cfg.usesRam n.body

/-- The selector's pick. -/
def selectStep (cfg : Config) (s : State) (t : Nat) (r : Sample) (nodes : List Seen) :
    Option Nat → Option State
  | none => some (s.setPc t (.idle none))
  | some i =>
    match nodes[i]? with
    | none => none
    | some n =>
      some (s.setPc t (.altServe r n (if useRamCache cfg n then .get else .disk)))

/-- The rest of `read_alternate_sync`. -/
def serveStep (cfg : Config) (s : State) (t : Nat) (r : Sample) (n : Seen) :
    Stage → Option State
  | .get =>
    if s.ramLock = none then
      match s.ram n.id with
      | none => some (s.setPc t (.altServe r n .disk))
      | some c =>
        if cfg.ramCoherence then some (s.setPc t (.altServe r n (.stamp c)))
        else some (s.answer t ⟨true, n.id, c.body, r.start⟩)
    else none
  | .stamp c =>
    if sameVersion c.stamp s.disk.version then
      some (s.answer t ⟨true, n.id, c.body, r.start⟩)
    else some (s.setPc t (.altServe r n .drop))
  | .drop =>
    if s.ramLock = none then some ((s.dropCopy n.id).setPc t (.altServe r n .disk)) else none
  | .disk =>
    if s.disk.exposed ≤ n.offset then
      if useRamCache cfg n then some (s.setPc t (.altServe r n .copy))
      else some (s.answer t ⟨true, n.id, n.body, r.start⟩)
    else some (s.setPc t (.idle none))
  | .copy =>
    if s.disk.exposed ≤ n.offset ∧ s.disk.removeEpoch = r.epoch then
      some (s.setPc t (.altServe r n .put))
    else some (s.answer t ⟨true, n.id, n.body, r.start⟩)
  | .put =>
    -- `put_if` takes the lock and evaluates its predicate
    if s.ramLock = none then
      if s.disk.removeEpoch = r.epoch then
        some ({ s with ramLock := some t }.setPc t (.altServe r n .pred))
      else some (s.answer t ⟨true, n.id, n.body, r.start⟩)
    else none
  | .pred =>
    if r.version % 2 = 1 ∨ !sameVersion s.disk.version r.version then
      some ({ s with ramLock := none }.answer t ⟨true, n.id, n.body, r.start⟩)
    else some (s.setPc t (.altServe r n .insert))
  | .insert => none
  | .recheck =>
    if s.disk.removeEpoch = r.epoch then
      some (s.answer t ⟨true, n.id, n.body, r.start⟩)
    else some (s.setPc t (.altServe r n .undo))
  | .undo =>
    if s.ramLock = none then
      some ((s.dropCopy n.id).answer t ⟨true, n.id, n.body, r.start⟩)
    else none

/-- The RAM tier takes the copy, or turns it down. -/
def insertStep (s : State) (t : Nat) (r : Sample) (n : Seen) : Bool → State
  | true =>
    { s with
      ramLock := none
      ram := update s.ram n.id (some ⟨n.body, r.version⟩) }.setPc t
        (.altServe r n .recheck)
  | false => { s with ramLock := none }.answer t ⟨true, n.id, n.body, r.start⟩

/-! ## Writing -/

/-- The mutex is free: the call resolves the chain, or asks for space. -/
def enter (cfg : Config) (s : State) (t : Nat) : Call → Option State
  | .read => none
  | .readAlternate => none
  | .write len =>
    if kHeaderSize ≤ len then
      some ({ s with mutex := some t }.setPc t (.allocating (.write len)))
    else some (s.setPc t (.idle none))
  | .writeAlternate id len =>
    if kHeaderSize ≤ len then
      some ({ s with mutex := some t }.setPc t (.planning id len))
    else some (s.setPc t (.idle none))
  | .remove =>
    match removeProgram cfg s.disk with
    | none => some (s.setPc t (.idle none))
    | some p => some (s.run t p)
  | .removeAlternate id =>
    match removeAlternateProgram cfg s.disk id with
    | none => some (s.setPc t (.idle none))
    | some p => some (s.run t p)
  | .other shared evicts =>
    some ({ s with mutex := some t }.setPc t (.allocating (.other shared evicts)))

/-- The space is there. A wrap since the plan has made the planned chain a
retained one: plan again. -/
def allocated (cfg : Config) (s : State) (t : Nat) : Alloc → State
  | .write len =>
    if cfg.syncOnWrite then
      { s with mutex := none }.setPc t (.flushing len s.disk.pass)
    else s.run t (writeProgram cfg s.disk len)
  | .alternate id len plan dropped pass =>
    if plan.retained ∨ s.disk.pass = pass then
      s.run t (writeAlternateProgram cfg s.disk id len plan dropped)
    else s.setPc t (.planning id len)
  | .other shared evicts => s.run t (otherProgram cfg shared evicts)

def planStep (cfg : Config) (s : State) (t id len : Nat) (keep : Nat → Bool) : State :=
  match planAlternate cfg s.disk id keep with
  | .error _ => s.leave t
  | .ok (plan, dropped) =>
    s.setPc t (.allocating (.alternate id len plan dropped s.disk.pass))

/-- One store of a program. The bump is where the promise begins to hold for
the readers that come. -/
def storeStep (s : State) (t : Nat) (st : Store) (todo : List Store) (out : Outcome) :
    Option State :=
  match st with
  | .evict target =>
    if s.ramLock = none then
      some ({ s with ram := evictCopies target s.ram }.setPc t (.storing todo out))
    else none
  | .bumpEpoch =>
    some ({ s with
      disk := s.disk.exec .bumpEpoch
      mark := out.bound s.mark
      rebased := out.rewritten.getD s.rebased }.setPc t (.storing todo out))
  | _ => some ({ s with disk := s.disk.exec st }.setPc t (.storing todo out))

/-- The call returns, and what it promised is on record. -/
def finish (s : State) (t : Nat) (out : Outcome) : State :=
  { s with
    mutex := none
    floor := out.bound s.floor
    rewritten := out.rewritten.getD s.rewritten
    pcs := update s.pcs t (.idle none) }

def writeStep (cfg : Config) (s : State) (t : Nat) : Pc → Option State
  | .waiting c => if s.mutex = none then enter cfg s t c else none
  | .allocating a => some (allocated cfg s t a)
  | .flushing len pass =>
    if s.mutex = none then
      if s.disk.pass = pass then some (s.run t (writeProgram cfg s.disk len))
      else some (s.setPc t (.idle none))
    else none
  | .storing [] out => some (finish s t out)
  | .storing (st :: todo) out => storeStep s t st todo out
  | _ => none

/-- A wait gives up, a read fails, there is no space. -/
def giveUpStep (s : State) (t : Nat) : Option State :=
  match s.pcs t with
  | .idle _ => none
  | .storing _ _ => none
  | .altServe _ _ .pred => none
  | .altServe _ _ .insert => none
  | .planning _ _ => some (s.leave t)
  | .allocating _ => some (s.leave t)
  | _ => some (s.setPc t (.idle none))

/-! ## The steps -/

def beginCall (cfg : Config) (s : State) : Call → Pc
  | .read => if cfg.ramCache then .readGet s.begins else .readProbe s.begins
  | .readAlternate => .altEpoch s.begins
  | c => .waiting c

def threadStep (cfg : Config) (s : State) (t : Nat) : Option State :=
  match s.pcs t with
  | .altServe r n stage => serveStep cfg s t r n stage
  | .waiting c => writeStep cfg s t (.waiting c)
  | .allocating a => writeStep cfg s t (.allocating a)
  | .flushing len pass => writeStep cfg s t (.flushing len pass)
  | .storing todo out => writeStep cfg s t (.storing todo out)
  | .altEpoch f => altStep s t (.altEpoch f)
  | .altVersion f e => altStep s t (.altVersion f e)
  | .altProbe r => altStep s t (.altProbe r)
  | .altWalk r nodes o => altStep s t (.altWalk r nodes o)
  | pc => readStep cfg s t pc

def step (cfg : Config) (s : State) : Act → Option State
  | .call t c =>
    match s.pcs t with
    | .idle _ => some (s.setPc t (beginCall cfg s c))
    | _ => none
  | .step t => threadStep cfg s t
  | .cut t =>
    match s.pcs t with
    | .altWalk r nodes _ => some (s.setPc t (.altSelect r nodes))
    | _ => none
  | .select t i =>
    match s.pcs t with
    | .altSelect r nodes => selectStep cfg s t r nodes i
    | _ => none
  | .insert t admitted =>
    match s.pcs t with
    | .altServe r n .insert => some (insertStep s t r n admitted)
    | _ => none
  | .plan t keep =>
    match s.pcs t with
    | .planning id len => some (planStep cfg s t id len keep)
    | _ => none
  | .wrap t =>
    match s.pcs t with
    | .allocating _ => some { s with disk := s.disk.wrap cfg }
    | _ => none
  | .advance t o =>
    match s.pcs t with
    | .allocating _ => some { s with disk := s.disk.advance o }
    | _ => none
  | .giveUp t => giveUpStep s t
  | .ramEvict id => some (s.dropCopy id)

end CycloneCache.Ref.Ram

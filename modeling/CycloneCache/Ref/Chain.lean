import CycloneCache.Lib.Links
import CycloneCache.Lib.Run
import CycloneCache.Ref.Stripe

/-!
# The alternates of one key

A key with several alternates has one directory entry, for the head of a
chain; each document names the next one by a link in its header. This file
models the calls that change such a chain, `remove_alternate_sync` and
`commit_alternate_write`, made by any number of processes on one key. Each
process runs one call at a time (its stripe mutex) and nothing else is held
between a call's loads: the entry, then each document of the walk, is one
atomic step, and so is each of the shared stores, a bracket of the bucket
or a link stored under the write lock.

The stripe does not wrap and the frontier does not move, so no byte of a
chain is reused: documents stay where they are, entries and links keep
binding the documents they were made to, and the checks that fence a wrap
pass. A call plans from what its walk read and stores the plan later. A
publish looks at the entry again; the store of a link looks only at the
identity of the document it stores into.

A retained chain, of the previous pass, is never spliced: a removal drops
its entry and a write copies what it keeps into its own slot, below the new
head. `body` is not on disk: it names the write a document's bytes come
from, so that a copy is known for what it is. The bytes of a slot are placed
at the publish: before it no entry and no link names them.
-/

namespace CycloneCache.Ref

open Lib Function

def kMaxAlternates : Nat := 64

def kMaxChainTraversalDepth : Nat := kMaxAlternates * 2

def kMaxRepointRetries : Nat := 8

def kMaxStalePublishRetries : Nat := 32

/-- `AlternateId::Original`. -/
def kOriginal : Nat := 0

inductive CallError where
  | notFound
  | alternateNotFound
  | chainCorrupted
  | corrupted
  | tooManyAlternates
  | busy
  deriving DecidableEq

/-- What a chain call reads of a document. -/
structure AltDoc where
  alternateId : Nat
  nextAlternateOffset : Nat
  len : Nat
  writeSerial : Nat
  body : Nat
  deriving DecidableEq

/-- The key's directory entry. -/
structure HeadEntry where
  offset : Nat
  phase : Bool
  deriving DecidableEq

/-- One visited node of a write's walk. -/
structure ChainNode where
  relOffset : Nat
  nextRel : Nat
  len : Nat
  id : Nat
  cls : AdmitClass
  body : Nat
  deriving DecidableEq

/-- A link a write stores after its publish. -/
structure PendingRepoint where
  predRel : Nat
  newNext : Nat
  predId : Nat
  shadowCount : Nat
  deriving DecidableEq

/-- What a removal has decided to store. -/
inductive RemovePlan where
  | dropEntry (head target : Nat)
  | republish (head successor : Nat)
  | repoint (pred predId target targetNext : Nat)
  deriving DecidableEq

/-- What a write has decided to publish: over the verified entry, or beside
the entries its probe saw. -/
structure WritePlan where
  verified : Option Nat
  retained : Bool
  seen : Option Nat
  newNext : Nat
  carried : List ChainNode
  repoints : List PendingRepoint
  deriving DecidableEq

inductive CallPc where
  | returned (result : Except CallError Unit)
  | removeResolve (id attempt : Nat)
  | removeProbe (id attempt : Nat) (snap : StripeSnapshot)
  | removeWalk (id attempt : Nat) (snap : StripeSnapshot) (head : Nat)
      (cls : AdmitClass) (depth current : Nat) (pred : Nat × Nat)
  | removeStore (id attempt : Nat) (plan : RemovePlan)
  | writeResolve (id len retries : Nat)
  | writeProbe (id len retries : Nat) (snap : StripeSnapshot)
  | writeWalk (id len retries : Nat) (snap : StripeSnapshot) (head : Nat)
      (headCls cls : AdmitClass) (nodes : List ChainNode) (current : Nat)
  | writeFill (id len retries : Nat) (plan : WritePlan)
  | writePublish (id len retries : Nat) (plan : WritePlan) (base : Nat)
  | writeSplice (repoints : List PendingRepoint)
  deriving DecidableEq

/-- What does not change while the calls run. -/
structure ChainConfig where
  stripe : Stripe
  gen : Nat
  unlinkSupersededAlternates : Bool
  maxObjectSize : Nat

structure ChainState where
  docs : Nat → Option AltDoc
  entry : Option HeadEntry
  cursor : Nat
  calls : Nat → CallPc
  /-- The bodies of the documents that removals have reported removed. -/
  removed : List Nat
  bodies : Nat

namespace ChainConfig

variable (cfg : ChainConfig)

def snapshot (s : ChainState) : StripeSnapshot :=
  cfg.stripe.snapshot cfg.gen s.cursor

/-- Where the space of the current pass ends: at the frontier, or in flush
mode at the end of the stripe. -/
def runwayEnd : Nat :=
  if cfg.stripe.retain then (cfg.stripe.snapshot cfg.gen 0).frontierRel
  else cfg.stripe.size

/-- The class of the key's entry under a snapshot. -/
def classify (e : HeadEntry) (snap : StripeSnapshot) : AdmitClass :=
  cfg.stripe.admitPosition e.offset e.phase snap

/-- The entry a probe hands over: admitted, if there is one. -/
def probe (s : ChainState) (snap : StripeSnapshot) : Option (HeadEntry × AdmitClass) :=
  match s.entry with
  | none => none
  | some e =>
    if cfg.classify e snap = .kReject then none else some (e, cfg.classify e snap)

def nodeAdmissibleNow (s : ChainState) (o : Nat) (d : AltDoc) : Bool :=
  let now := cfg.snapshot s
  if !cfg.stripe.inDataArea o then false
  else if !cfg.stripe.retain then o < now.cursorRel
  else if d.writeSerial = now.pass % 2 ^ 32 then o < now.cursorRel
  else if now.pass > 0 ∧ d.writeSerial = (now.pass - 1) % 2 ^ 32 then
    o ≥ now.frontierRel
  else false

def carryByteBudget (newDocSize : Nat) : Nat :=
  let area := cfg.stripe.size - cfg.stripe.dataStart
  let newAligned := roundUp8 newDocSize
  if newAligned ≥ area then 0
  else
    let budget := area / 8
    let budget := if cfg.maxObjectSize > 0 then min budget cfg.maxObjectSize else budget
    min budget (area - newAligned)

end ChainConfig

/-! ## Planning a write -/

/-- The first copy of every id that has not been seen, newest first. -/
def carryCandidates : List Nat → List ChainNode → List ChainNode
  | _, [] => []
  | seen, n :: ns =>
    if n.id ∈ seen then carryCandidates seen ns
    else n :: carryCandidates (n.id :: seen) ns

/-- The offsets of the candidates that fit the count and byte caps, taken in
the given order. -/
def carryKept (budget : Nat) : Nat → Nat → List ChainNode → List Nat
  | _, _, [] => []
  | planned, kept, n :: ns =>
    if kept < kMaxAlternates - 1 ∧ roundUp8 n.len ≤ budget - planned then
      n.relOffset :: carryKept budget (planned + roundUp8 n.len) (kept + 1) ns
    else carryKept budget planned kept ns

/-- `carry_retained_chain`: the kept candidates, deepest first. The Original
is considered before the others. -/
def carryRetainedChain (cfg : ChainConfig) (nodes : List ChainNode)
    (writeId newDocSize : Nat) : List ChainNode :=
  let cands := carryCandidates [writeId] nodes
  let order := cands.filter (·.id == kOriginal) ++ cands.filter (·.id != kOriginal)
  let kept := carryKept (cfg.carryByteBudget newDocSize) 0 0 order
  (cands.filter fun n =>
    n.relOffset ∈ kept && kHeaderSize ≤ n.len && cfg.stripe.inDataArea n.relOffset &&
      n.len ≤ cfg.stripe.size - n.relOffset).reverse

/-- The repoints of the surviving nodes after `keeper`, past the `run`
superseded nodes met since. A trailing run is only cut off where the walk saw
the end of the chain. -/
def planRepoints (writeId : Nat) (fullyWalked : Bool) :
    ChainNode → Nat → List ChainNode → List PendingRepoint
  | keeper, run, [] =>
    if run > 0 ∧ fullyWalked then [⟨keeper.relOffset, 0, keeper.id, run⟩] else []
  | keeper, run, n :: ns =>
    if n.id = writeId then planRepoints writeId fullyWalked keeper (run + 1) ns
    else if run > 0 then
      ⟨keeper.relOffset, n.relOffset, keeper.id, run⟩ ::
        planRepoints writeId fullyWalked n 0 ns
    else planRepoints writeId fullyWalked n 0 ns

/-- The new head's link and the repoints behind it. -/
def planUnlink (writeId : Nat) (fullyWalked : Bool) (head : Nat)
    (nodes : List ChainNode) : Nat × List PendingRepoint :=
  match nodes.dropWhile (·.id == writeId) with
  | [] => (if fullyWalked ∧ nodes ≠ [] then 0 else head, [])
  | keeper :: rest =>
    (if keeper.cls = .kCurrent then keeper.relOffset else head,
      planRepoints writeId fullyWalked keeper 0 rest)

/-- What a write makes of its walk. -/
def planWrite (cfg : ChainConfig) (writeId newDocSize head : Nat)
    (headCls : AdmitClass) (nodes : List ChainNode) (fullyWalked truncated : Bool) :
    Except CallError WritePlan :=
  let ids := (nodes.map (·.id)).eraseDups
  -- only superseded copies are in sight: start a fresh chain
  let chainReset := truncated && ids == [writeId]
  let carryForward := cfg.stripe.retain && headCls == .kRetained
  let plan : WritePlan := ⟨some head, headCls == .kRetained, some head, 0, [], []⟩
  if truncated && !chainReset && !carryForward then .error .tooManyAlternates
  else if !carryForward && ids.length ≥ kMaxAlternates then .error .tooManyAlternates
  else if carryForward then
    .ok { plan with carried := carryRetainedChain cfg nodes writeId newDocSize }
  else if chainReset then .ok plan
  else if cfg.unlinkSupersededAlternates then
    .ok { plan with
      newNext := (planUnlink writeId fullyWalked head nodes).1
      repoints := (planUnlink writeId fullyWalked head nodes).2 }
  else .ok { plan with newNext := head }

/-! ## The slot of a write -/

/-- The carried copies from `base` up, each linked to the one below it. -/
def layCarried (pass : Nat) : Nat → Nat → List ChainNode → List (Nat × AltDoc)
  | _, _, [] => []
  | base, below, c :: cs =>
    (base, ⟨c.id, below, c.len, pass % 2 ^ 32, c.body⟩) ::
      layCarried pass (base + roundUp8 c.len) base cs

/-- The link to the top copy. -/
def carriedTop : Nat → Nat → List ChainNode → Nat
  | _, below, [] => below
  | base, _, c :: cs => carriedTop (base + roundUp8 c.len) base cs

def carriedSize (carried : List ChainNode) : Nat :=
  (carried.map fun c => roundUp8 c.len).sum

/-- The documents of a slot, the new head last. -/
def slotDocs (pass id len : Nat) (plan : WritePlan) (base body : Nat) :
    List (Nat × AltDoc) :=
  layCarried pass base 0 plan.carried ++
    [(base + carriedSize plan.carried,
      ⟨id, if plan.carried.isEmpty then plan.newNext else carriedTop base 0 plan.carried,
        len, pass % 2 ^ 32, body⟩)]

/-- Write documents at their offsets. -/
def place (docs : Nat → Option AltDoc) (slot : List (Nat × AltDoc)) :
    Nat → Option AltDoc :=
  slot.foldl (fun m d => update m d.1 (some d.2)) docs

/-! ## The steps -/

inductive ChainAct where
  | remove (p id : Nat)
  | write (p id len : Nat)
  /-- The next access of a process's call. -/
  | step (p : Nat)
  /-- A bounded wait for the bucket or the write lock gives up. -/
  | busy (p : Nat)
  deriving DecidableEq

namespace ChainState

def setCall (s : ChainState) (p : Nat) (pc : CallPc) : ChainState :=
  { s with calls := update s.calls p pc }

/-- A removal reports success: its target's body is gone from the chain. -/
def reportRemoved (s : ChainState) (p target : Nat) : ChainState :=
  { s with
    calls := update s.calls p (.returned (.ok ()))
    removed := (s.docs target).elim s.removed fun d => d.body :: s.removed }

/-- The store of a link into a document's header. -/
def storeLink (s : ChainState) (pred newNext : Nat) : ChainState :=
  { s with
    docs := update s.docs pred
      ((s.docs pred).map fun d => { d with nextAlternateOffset := newNext }) }

end ChainState

/-- Another attempt of a removal, or `Busy` after the last. -/
def retryRemove (id attempt : Nat) : CallPc :=
  if attempt + 1 < kMaxRepointRetries then .removeResolve id (attempt + 1)
  else .returned (.error .busy)

/-- Another attempt of a write whose view of the bucket is stale. -/
def retryWrite (id len retries : Nat) : CallPc :=
  if retries = kMaxStalePublishRetries then .returned (.error .busy)
  else .writeResolve id len (retries + 1)

/-- The target was found at `current`: what to store. -/
def planRemove (cfg : ChainConfig) (s : ChainState) (snap : StripeSnapshot)
    (head : Nat) (cls : AdmitClass) (depth current : Nat) (pred : Nat × Nat)
    (d : AltDoc) : Except CallError RemovePlan :=
  let next := d.nextAlternateOffset
  if cls = .kRetained then .ok (.dropEntry head current)
  else if depth = 0 then
    if next = 0 then .ok (.dropEntry head current)
    else if cfg.stripe.admitHop next head cls snap = .kReject then
      .error .chainCorrupted
    else if (s.docs next).isNone then .error .corrupted
    else .ok (.republish head next)
  else .ok (.repoint pred.1 pred.2 current next)

/-- One node of a removal's walk. -/
def removeWalkStep (cfg : ChainConfig) (s : ChainState) (id attempt : Nat)
    (snap : StripeSnapshot) (head : Nat) (cls : AdmitClass) (depth current : Nat)
    (pred : Nat × Nat) : CallPc :=
  match s.docs current with
  | none => .returned (.error .alternateNotFound)
  | some d =>
    if !cfg.stripe.stampAdmits snap cls d.writeSerial then
      .returned (.error .alternateNotFound)
    else if d.alternateId = id then
      match planRemove cfg s snap head cls depth current pred d with
      | .error e => .returned (.error e)
      | .ok plan => .removeStore id attempt plan
    else if d.nextAlternateOffset = 0 then .returned (.error .alternateNotFound)
    else if cfg.stripe.admitHop d.nextAlternateOffset current cls snap = .kReject then
      .returned (.error .chainCorrupted)
    else if depth + 1 < kMaxChainTraversalDepth then
      .removeWalk id attempt snap head
        (cfg.stripe.admitHop d.nextAlternateOffset current cls snap) (depth + 1)
        d.nextAlternateOffset (current, d.alternateId)
    else .returned (.error .alternateNotFound)

/-- `repoint_chain_link` under `commit_header_rmw`: the header must still be
the predecessor's, and admissible. -/
def repointChainLink (cfg : ChainConfig) (s : ChainState) (pred predId newNext : Nat) :
    Option ChainState :=
  match s.docs pred with
  | none => none
  | some d =>
    if d.alternateId = predId ∧ cfg.nodeAdmissibleNow s pred d then
      some (s.storeLink pred newNext)
    else none

/-- The store of a removal. -/
def removeStoreStep (cfg : ChainConfig) (s : ChainState) (p id attempt : Nat) :
    RemovePlan → ChainState
  | .dropEntry head target =>
    -- whether an entry was there to drop is not looked at
    let dropped := s.entry.filter (·.offset != head)
    { s with entry := dropped }.reportRemoved p target
  | .republish head successor =>
    if s.entry.any (·.offset == head) then
      { s with entry := some ⟨successor, (cfg.snapshot s).phase⟩ }.reportRemoved p head
    else s.setCall p (retryRemove id attempt)
  | .repoint pred predId target targetNext =>
    match repointChainLink cfg s pred predId targetNext with
    | some s' => s'.reportRemoved p target
    | none => s.setCall p (retryRemove id attempt)

/-- The walk of a write is over. -/
def writeWalkEnd (cfg : ChainConfig) (id len retries head : Nat)
    (headCls : AdmitClass) (nodes : List ChainNode) (fullyWalked truncated : Bool) :
    CallPc :=
  match planWrite cfg id len head headCls nodes fullyWalked truncated with
  | .error e => .returned (.error e)
  | .ok plan => .writeFill id len retries plan

/-- One node of a write's walk. -/
def writeWalkStep (cfg : ChainConfig) (s : ChainState) (id len retries : Nat)
    (snap : StripeSnapshot) (head : Nat) (headCls cls : AdmitClass)
    (nodes : List ChainNode) (current : Nat) : CallPc :=
  if nodes.length ≥ kMaxChainTraversalDepth ∨ current ∈ nodes.map (·.relOffset) then
    writeWalkEnd cfg id len retries head headCls nodes false true
  else
    match s.docs current with
    | none => writeWalkEnd cfg id len retries head headCls nodes false false
    | some d =>
      let next := d.nextAlternateOffset
      let nodes' := nodes ++ [⟨current, next, d.len, d.alternateId, cls, d.body⟩]
      if !cfg.stripe.stampAdmits snap cls d.writeSerial then
        writeWalkEnd cfg id len retries head headCls nodes true false
      else if next = 0 ∨ cfg.stripe.admitHop next current cls snap = .kReject then
        writeWalkEnd cfg id len retries head headCls nodes' true false
      else
        .writeWalk id len retries snap head headCls
          (cfg.stripe.admitHop next current cls snap) nodes' next

/-- The look at the bucket after the allocation: has the key changed while
the write waited for the lock? A retained head is left to the publish. -/
def recheckStale (cfg : ChainConfig) (s : ChainState) (plan : WritePlan) : Bool :=
  if plan.retained then false
  else
    match cfg.probe s (cfg.snapshot s) with
    | none => plan.verified.isSome
    | some (e, _) =>
      match plan.verified with
      | some h => e.offset != h
      | none => plan.seen != some e.offset

/-- `publish_view_is_current`: the verified entry is there, whatever its
class, or the bucket holds no entry the probe did not see. -/
def publishViewIsCurrent (cfg : ChainConfig) (s : ChainState) (plan : WritePlan) :
    Bool :=
  match plan.verified with
  | some h => s.entry.any (·.offset == h)
  | none =>
    match cfg.probe s (cfg.snapshot s) with
    | none => true
    | some (e, _) => plan.seen == some e.offset

/-- Allocation, recheck and fill, under the write lock. A document that does
not fit would need a wrap or an advance of the frontier. -/
def writeFillStep (cfg : ChainConfig) (s : ChainState) (p id len retries : Nat)
    (plan : WritePlan) : Option ChainState :=
  let size := carriedSize plan.carried + len
  if recheckStale cfg s plan then some (s.setCall p (retryWrite id len retries))
  else if s.cursor + size ≤ cfg.runwayEnd then
    some ({ s with cursor := s.cursor + roundUp8 size }.setCall p
      (.writePublish id len retries plan s.cursor))
  else none

/-- The conditional publish. -/
def writePublishStep (cfg : ChainConfig) (s : ChainState) (p id len retries : Nat)
    (plan : WritePlan) (base : Nat) : ChainState :=
  if publishViewIsCurrent cfg s plan then
    { s with
      docs := place s.docs
        (slotDocs (cfg.snapshot s).pass id len plan base s.bodies)
      entry := some ⟨base + carriedSize plan.carried, (cfg.snapshot s).phase⟩
      bodies := s.bodies + 1
      calls := update s.calls p (.writeSplice plan.repoints) }
  else s.setCall p (retryWrite id len retries)

/-- The next access of process `p`'s call. -/
def callStep (cfg : ChainConfig) (s : ChainState) (p : Nat) : Option ChainState :=
  match s.calls p with
  | .returned _ => none
  | .removeResolve id attempt =>
    some (s.setCall p (.removeProbe id attempt (cfg.snapshot s)))
  | .removeProbe id attempt snap =>
    some <| s.setCall p <|
      match cfg.probe s snap with
      | none => .returned (.error .notFound)
      | some (e, cls) =>
        if (s.docs e.offset).any fun d => cfg.stripe.stampAdmits snap cls d.writeSerial
        then .removeWalk id attempt snap e.offset cls 0 e.offset (0, 0)
        else .returned (.error .notFound)
  | .removeWalk id attempt snap head cls depth current pred =>
    some (s.setCall p
      (removeWalkStep cfg s id attempt snap head cls depth current pred))
  | .removeStore id attempt plan => some (removeStoreStep cfg s p id attempt plan)
  | .writeResolve id len retries =>
    some (s.setCall p (.writeProbe id len retries (cfg.snapshot s)))
  | .writeProbe id len retries snap =>
    some <| s.setCall p <|
      match cfg.probe s snap with
      | none => .writeFill id len retries ⟨none, false, none, 0, [], []⟩
      | some (e, cls) =>
        if (s.docs e.offset).any fun d => cfg.stripe.stampAdmits snap cls d.writeSerial
        then .writeWalk id len retries snap e.offset cls cls [] e.offset
        else .writeFill id len retries ⟨none, false, some e.offset, 0, [], []⟩
  | .writeWalk id len retries snap head headCls cls nodes current =>
    some (s.setCall p
      (writeWalkStep cfg s id len retries snap head headCls cls nodes current))
  | .writeFill id len retries plan => writeFillStep cfg s p id len retries plan
  | .writePublish id len retries plan base =>
    some (writePublishStep cfg s p id len retries plan base)
  | .writeSplice [] => some (s.setCall p (.returned (.ok ())))
  | .writeSplice (r :: rs) =>
    -- a store that is fenced out leaves the superseded node linked
    some (((repointChainLink cfg s r.predRel r.predId r.newNext).getD s).setCall p
      (.writeSplice rs))

/-- A wait that gives up: nothing is stored. -/
def busyStep (s : ChainState) (p : Nat) : Option ChainState :=
  match s.calls p with
  | .removeStore id attempt (.repoint _ _ _ _) =>
    some (s.setCall p (retryRemove id attempt))
  | .removeStore _ _ _ => some (s.setCall p (.returned (.error .busy)))
  | .writePublish _ _ _ _ _ => some (s.setCall p (.returned (.error .busy)))
  | .writeSplice (_ :: rs) => some (s.setCall p (.writeSplice rs))
  | _ => none

def chainStep (cfg : ChainConfig) (s : ChainState) : ChainAct → Option ChainState
  | .remove p id =>
    match s.calls p with
    | .returned _ => some (s.setCall p (.removeResolve id 0))
    | _ => none
  | .write p id len =>
    match s.calls p with
    | .returned _ =>
      if kHeaderSize ≤ len then some (s.setCall p (.writeResolve id len 0)) else none
    | _ => none
  | .step p => callStep cfg s p
  | .busy p => busyStep s p

/-! ## The chain -/

/-- The link of the document at `o`. -/
def linkOf (docs : Nat → Option AltDoc) (o : Nat) : Option Nat :=
  match docs o with
  | none => none
  | some d => if d.nextAlternateOffset = 0 then none else some d.nextAlternateOffset

/-- A document on the key's chain: links lead to it from the entry. -/
def ChainState.OnChain (s : ChainState) (o : Nat) : Prop :=
  ∃ e, s.entry = some e ∧ Reach (linkOf s.docs) e.offset o

/-- The offsets of the chain. -/
def ChainState.chain (s : ChainState) : List Nat :=
  match s.entry with
  | none => []
  | some e => walk (linkOf s.docs) (e.offset + 1) e.offset

end CycloneCache.Ref

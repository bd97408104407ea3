import CycloneCache.Ref.Chain
import CycloneCache.Ref.VolumeWrite

/-!
# The alternates of a key, on disk

`read_alternate_sync` finds the head of a key's chain through the directory,
walks the links, selects an alternate by its id and maps it with room for 64
KiB of header bytes. `commit_alternate_write` elects the head, walks the
chain, plans what becomes of it (the planning is that of `Ref.Chain`), and
then fills one slot with what it carries forward and the new head, publishes
the head and splices superseded nodes out.

One round of a write holds the stripe's mutex throughout, so here it is one
step; between two rounds the mutex is free, and any other call may run. A
link carries the serial of the fill it was made to.
-/

namespace CycloneCache.Ref.Volume

open Lib

/-- `kMapOverhead` and `kInitialMapSize` -/
def kMapOverhead : Nat := kHeaderSize + 65536

/-- Documents past this are not copied to RAM when the file is mapped whole. -/
def kSendfileThreshold : Nat := 32768

/-! ## Reading an alternate -/

/-- A node as the walk of a read collects it. -/
structure AltInfo where
  offset : Nat
  cls : AdmitClass
  fillSerial : Nat
  id : Nat
  contentLength : Nat
  deriving DecidableEq

namespace Env

variable (env : Env)

/-- The entry leads to a head of the key. -/
def isHead (m : Memory) (snap : StripeSnapshot) (key : CacheKey) (e : DirEntry)
    (cls : AdmitClass) : Bool :=
  let d := Document.deserialize m e.offset
  (env.mapDocument m e.offset e.approxSize).isSome && d.firstKey == key.toNat &&
    env.stripe.stampAdmits snap cls d.writeSerial && entryBinds e d

/-- The chain from `current` on, as far as a reader can see it. -/
def walkAlternates (m : Memory) (snap : StripeSnapshot) (key : CacheKey) :
    Nat → Nat → AdmitClass → Option Nat → List AltInfo
  | 0, _, _, _ => []
  | fuel + 1, current, cls, followed =>
    let d := Document.deserialize m current
    if (env.mapDocument m current kMapOverhead).isNone ∨ d.firstKey ≠ key.toNat ∨
        !d.hasVolumeShape ∨ !env.stripe.stampAdmits snap cls d.writeSerial ∨
        followed.any (fun link => !d.boundByLink link) then []
    else
      let next := Document.linkOffset d.nextAlternateOffset
      let cls' := env.stripe.admitHop next current cls snap
      ⟨current, cls, d.fillSerial, d.alternateId, d.totalLen⟩ ::
        if next = 0 ∨ cls' = .kReject then []
        else walkAlternates m snap key fuel next cls' (some d.nextAlternateOffset)

/-- The selected alternate, from disk: what is served, and the size of its
mapping. -/
def serveAlternate (m : Memory) (snap : StripeSnapshot) (key : CacheKey) (n : AltInfo) :
    Except CacheError Nat :=
  let d := Document.deserialize m n.offset
  let mapSize := n.contentLength + kMapOverhead
  if n.contentLength > 2 ^ 64 - 1 - kMapOverhead then .error .corrupted
  else if !env.mapRegion n.offset mapSize then .error .ioError
  else if !env.readerValid m n.offset mapSize then .error .corrupted
  else if d.len > mapSize ∧ d.len > env.stripe.size then .error .corrupted
  else if d.len > mapSize ∧ !env.mapRegion n.offset d.len then .error .ioError
  else
    let size := if d.len > mapSize then d.len else mapSize
    if !d.hasVolumeShape then .error .notFound
    else if d.firstKey ≠ key.toNat ∨ d.fillSerial ≠ n.fillSerial then .error .corrupted
    else if env.verifyChecksumOnRead && !d.verifyChecksum (payload m n.offset size d) then
      .error .corrupted
    else if (env.stripe.admitDocument snap n.cls n.offset d.writeSerial).isNone then
      .error .notFound
    else .ok size

/-- Does the RAM tier hold documents of this length? -/
def useRamCache (contentLength : Nat) : Bool :=
  env.ramCache && (!env.persistentBase || contentLength ≤ kSendfileThreshold)

/-- The copy of a served document goes to RAM. -/
def ramPut (s : State) (key : CacheKey) (id rel size : Nat) : State :=
  let len := (Document.deserialize s.bytes rel).len
  if len ≤ size then
    { s with ram := ⟨key, id, readAt s.bytes rel len, s.bucketVersion key⟩ ::
        ramRemove s.ram key id }
  else s

/-- The selected alternate, from disk, with its copy to RAM. -/
def readFromDisk (s : State) (key : CacheKey) (n : AltInfo) :
    State × Except CacheError ReadHandle :=
  match env.serveAlternate s.bytes (env.snapshot s) key n with
  | .error e => (s, .error e)
  | .ok size =>
    (if env.useRamCache n.contentLength then ramPut s key n.id n.offset size else s,
      .ok (serve s.bytes n.offset size))

/-- The selected alternate, from RAM or from disk. -/
def readSelected (s : State) (key : CacheKey) (n : AltInfo) :
    State × Except CacheError ReadHandle :=
  if env.useRamCache n.contentLength then
    match env.ramLookup s key n.id with
    | (s', some h) => (s', .ok h)
    | (s', none) => env.readFromDisk s' key n
  else env.readFromDisk s key n

/-- `read_alternate_sync` for one id: the first entry that leads to the key is
the head, and the first node with the id is selected. -/
def readAlternateSync (s : State) (key : CacheKey) (id : Nat) :
    State × Except CacheError ReadHandle :=
  let snap := env.snapshot s
  match (env.probe s key).find? fun c => env.isHead s.bytes snap key c.1 c.2 with
  | none => (s, .error .notFound)
  | some (e, cls) =>
    match env.walkAlternates s.bytes snap key kMaxChainTraversalDepth e.offset cls none with
    | [] => (s, .error .corrupted)
    | n :: ns =>
      match (n :: ns).find? (·.id == id) with
      | none => (s, .error .alternateNotFound)
      | some sel => env.readSelected s key sel

end Env

/-! ## The head and its chain, for a write -/

structure HeadCandidate where
  rel : Nat
  cls : AdmitClass
  live : Bool
  serial : Nat
  deriving DecidableEq

/-- One entry of the head election. -/
def Env.headStep (env : Env) (m : Memory) (snap : StripeSnapshot) (key : CacheKey)
    (heads : List HeadCandidate) (c : DirEntry × AdmitClass) : List HeadCandidate :=
  let (e, cls) := c
  let d := Document.deserialize m e.offset
  if heads.any (·.rel == e.offset) then heads
  else if !env.mapRegion e.offset kHeaderSize || !env.readerValid m e.offset kHeaderSize then
    heads
  else if d.firstKey ≠ key.toNat then heads
  else heads ++ [⟨e.offset, cls,
    env.stripe.stampAdmits snap cls d.writeSerial && entryBinds e d, e.fillSerial⟩]

def Env.heads (env : Env) (s : State) (key : CacheKey) : List HeadCandidate :=
  (env.probe s key).foldl (env.headStep s.bytes (env.snapshot s) key) []

/-- The first live candidate, or a current one over a retained one. -/
def electHead (heads : List HeadCandidate) : Option HeadCandidate :=
  heads.foldl (fun elected h =>
    if h.live && elected.all (fun e => h.cls == .kCurrent && e.cls != .kCurrent) then some h
    else elected) none

/-- A node of a write's walk, with the link that leads to it. -/
structure AltNode where
  node : ChainNode
  link : Nat
  deriving DecidableEq

structure ChainWalk where
  nodes : List AltNode
  fullyWalked : Bool
  truncated : Bool
  deriving DecidableEq

/-- The walk of a write, which reads headers. -/
def Env.walkChain (env : Env) (m : Memory) (snap : StripeSnapshot) :
    Nat → List AltNode → Nat → AdmitClass → Option Nat → ChainWalk
  | 0, nodes, _, _, _ => ⟨nodes, false, true⟩
  | fuel + 1, nodes, current, cls, followed =>
    let d := Document.deserialize m current
    if nodes.any (·.node.relOffset == current) then ⟨nodes, false, true⟩
    else if !env.mapRegion current kHeaderSize || !env.readerValid m current kHeaderSize then
      ⟨nodes, false, false⟩
    else if !env.stripe.stampAdmits snap cls d.writeSerial ||
        followed.any (fun link => !d.boundByLink link) then ⟨nodes, true, false⟩
    else
      let next := Document.linkOffset d.nextAlternateOffset
      let cls' := env.stripe.admitHop next current cls snap
      let nodes' := nodes ++ [⟨⟨current, next, d.len, d.alternateId, cls, 0⟩,
        Document.makeLink current d.fillSerial⟩]
      if next = 0 ∨ cls' = .kReject then ⟨nodes', true, false⟩
      else env.walkChain m snap fuel nodes' next cls' (some d.nextAlternateOffset)

/-- The link to a node of the walk; the plan names nodes by their offset. -/
def linkTo (nodes : List AltNode) (headLink rel : Nat) : Nat :=
  if rel = 0 then 0
  else ((nodes.find? (·.node.relOffset == rel)).map AltNode.link).getD headLink

/-! ## Carrying a retained chain forward -/

/-- The copy of a node passes the checks of `carry_retained_chain`. -/
def Env.carryOk (env : Env) (s : State) (key : CacheKey) (n : AltNode) : Bool :=
  let rel := n.node.relOffset
  let d := Document.deserialize s.bytes rel
  env.mapRegion rel n.node.len && d.isValidAndCompatible && d.hasVolumeShape &&
    d.len == n.node.len && d.alternateId == n.node.id &&
    d.writeSerial == ((env.snapshot s).pass - 1) % 2 ^ 32 &&
    d.fillSerial == Document.linkSerial n.link && d.firstKey == key.toNat &&
    d.verifyChecksum (payload s.bytes rel n.node.len d) &&
    s.gen ≤ env.stripe.exposureThreshold ((env.snapshot s).pass - 1) rel

/-- The nodes a write copies, deepest first. -/
def Env.carriedNodes (env : Env) (s : State) (key : CacheKey) (nodes : List AltNode)
    (planned : List ChainNode) : List AltNode :=
  if (env.snapshot s).pass = 0 then []
  else
    (planned.filterMap fun c => nodes.find? (·.node.relOffset == c.relOffset)).filter
      (env.carryOk s key)

/-- The copies from `start` up, each linked to the one below it. -/
def carriedRecords (m : Memory) (key : CacheKey) (slot : Slot) :
    Nat → Nat → List AltNode → List Record
  | _, _, [] => []
  | start, below, n :: ns =>
    let rel := n.node.relOffset
    let d := Document.deserialize m rel
    ⟨key, start, slot.pass,
      { stamped d slot with
        nextAlternateOffset := Document.makeLink below slot.fillSerial },
      headerBytes m rel n.node.len d, contentBytes m rel n.node.len d⟩ ::
      carriedRecords m key slot (start + roundUp8 n.node.len) start ns

/-- A carried copy in the slot: padded to a word. -/
def paddedImage (r : Record) : List UInt8 :=
  let bytes := Record.image r
  bytes ++ List.replicate (roundUp8 bytes.length - bytes.length) 0

def carriedBytes (carried : List AltNode) : Nat :=
  (carried.map fun n => roundUp8 n.node.len).sum

/-! ## The write -/

/-- What a caller asks to be written. -/
structure AlternateWrite where
  key : CacheKey
  id : UInt8
  header : List UInt8
  content : List UInt8

/-- What one attempt meets: the clock, the lease gate, a failing fill, and
whether the write lock is free for each splice. -/
structure Attempt where
  now : Nat
  gates : Gates
  short : Option Nat
  lockFree : Nat → Bool

inductive AltOutcome where
  | published (head : Record)
  | restart
  | stale
  | failed (e : CacheError)

/-- What an attempt has decided before it asks for space. -/
structure AltPlan where
  head : Option HeadCandidate
  clears : List Nat
  seen : List Nat
  nextLink : Nat
  carryForward : Bool
  carried : List AltNode
  dropped : Bool
  repoints : List (PendingRepoint × Nat)

namespace Env

variable (env : Env)

def chainConfig (s : State) : ChainConfig :=
  ⟨env.stripe, s.gen, env.unlinkSupersededAlternates, env.maxObjectSize⟩

/-- The chain of an elected head, planned. -/
def planHead (s : State) (w : AlternateWrite) (docSize : Nat) (h : HeadCandidate)
    (plan : AltPlan) : Except CacheError AltPlan :=
  let walk := env.walkChain s.bytes (env.snapshot s) kMaxChainTraversalDepth [] h.rel h.cls none
  let headLink := Document.makeLink h.rel h.serial
  let chain := walk.nodes.map AltNode.node
  match planWrite (env.chainConfig s) w.id.toNat docSize h.rel h.cls chain walk.fullyWalked
      walk.truncated with
  | .error _ => .error .tooManyAlternates
  | .ok p =>
    let carried := env.carriedNodes s w.key walk.nodes p.carried
    .ok { plan with
      nextLink := linkTo walk.nodes headLink p.newNext
      carryForward := env.stripe.retain && h.cls == .kRetained
      carried := carried
      dropped := env.stripe.retain && h.cls == .kRetained &&
        carried.length != (carryCandidates [w.id.toNat] chain).length
      repoints := p.repoints.map fun r => (r, linkTo walk.nodes headLink r.newNext) }

/-- Election, walk and plan. -/
def planAlternate (s : State) (w : AlternateWrite) (docSize : Nat) : Except CacheError AltPlan :=
  let heads := env.heads s w.key
  let head := electHead heads
  let plan : AltPlan :=
    { head := head
      clears := (heads.filter fun h => head.all (·.rel != h.rel)).map HeadCandidate.rel
      seen := (env.probe s w.key).map fun c => c.1.offset
      nextLink := 0, carryForward := false, carried := [], dropped := false, repoints := [] }
  match head with
  | none => .ok plan
  | some h => env.planHead s w docSize h plan

/-- The look at the bucket after the allocation: the head is gone, or there is
an entry the first probe did not see. -/
def recheckStale (s : State) (key : CacheKey) (plan : AltPlan) : Bool :=
  let probed := (env.probe s key).map fun c => c.1.offset
  plan.head.any (fun h => !probed.contains h.rel) ||
    probed.any fun o => !plan.head.any (·.rel == o) && !plan.seen.contains o

def nodeAdmissibleNow (s : State) (rel : Nat) (d : Document) : Bool :=
  let now := env.snapshot s
  if !env.stripe.inDataArea rel then false
  else if !env.stripe.retain then rel < now.cursorRel
  else if d.writeSerial = now.pass % 2 ^ 32 then rel < now.cursorRel
  else if now.pass > 0 ∧ d.writeSerial = (now.pass - 1) % 2 ^ 32 then rel ≥ now.frontierRel
  else false

/-- `commit_header_rmw`: a store into the header of a node that is still the
one its caller saw, under the write lock if there is one. -/
def commitHeaderRmw (s : State) (rel : Nat) (key : CacheKey) (id pass : Nat) (lockFree : Bool)
    (apply : Memory → Memory) : State :=
  let s := if env.mmapDirectory && lockFree then { s with lockGen := s.lockGen + 1 } else s
  let d := Document.deserialize s.bytes rel
  if env.mapRegion rel kHeaderSize && (!env.mmapDirectory || lockFree) &&
      env.stripe.passOf s.gen == pass && env.readerValid s.bytes rel kHeaderSize &&
      d.firstKey == key.toNat && d.alternateId == id && env.nodeAdmissibleNow s rel d then
    { s with bytes := apply s.bytes }
  else s

def repointChainLink (s : State) (key : CacheKey) (pass : Nat) (r : PendingRepoint)
    (newNext : Nat) (lockFree : Bool) : State :=
  env.commitHeaderRmw s r.predRel key r.predId pass lockFree fun m =>
    writeAt m (r.predRel + Document.kNextAlternateOffsetPos) (leBytes 8 newNext)

/-- The splices, front to back. -/
def splice (key : CacheKey) (pass : Nat) (lockFree : Nat → Bool) :
    Nat → State → List (PendingRepoint × Nat) → State
  | _, s, [] => s
  | i, s, (r, newNext) :: rs =>
    splice key pass lockFree (i + 1)
      (env.repointChainLink s key pass r newNext (lockFree i)) rs

/-- The publish of an alternate and what follows it. -/
def publishAlternate (s : State) (w : AlternateWrite) (plan : AltPlan) (r : Record)
    (repoints : List (PendingRepoint × Nat)) (pass : Nat) (lockFree : Nat → Bool) :
    State × AltOutcome :=
  match insert (s.bucket w.key) (env.publication s r) (plan.head.map HeadCandidate.rel)
      (env.classify s) plan.clears plan.seen with
  | .stale => (s, .stale)
  | .failed => (s, .failed .internalError)
  | .published b =>
    let s' := env.splice w.key pass lockFree 0
      { s.setBucket w.key b with published := r :: s.published } repoints
    let ram := if !env.ramCache then s'.ram
      else if plan.dropped then ramRemoveAll s'.ram w.key
      else ramRemove s'.ram w.key w.id.toNat
    ({ s' with ram := ram }, .published r)

/-- The head of the slot, once it is known where the slot lies. -/
def headRecord (w : AlternateWrite) (d : Document) (slot : Slot) (start link : Nat) : Record :=
  ⟨w.key, start, slot.pass, { stamped d slot with nextAlternateOffset := link },
    w.header, w.content⟩

/-- The link of the new head: to the top copy, or as planned unless a wrap
has passed the planned target over. -/
def headLink (plan : AltPlan) (slot : Slot) (wrapRaced : Bool) (carried : List Record) : Nat :=
  match carried.getLast? with
  | some c => Document.makeLink c.start slot.fillSerial
  | none => if wrapRaced then 0 else plan.nextLink

/-- The copies of a slot and the head above them. -/
def slotRecords (m : Memory) (w : AlternateWrite) (d : Document) (slot : Slot)
    (plan : AltPlan) (wrapRaced : Bool) : List Record × Record :=
  let carried := carriedRecords m w.key slot slot.writeOffset 0 plan.carried
  (carried, headRecord w d slot (slot.writeOffset + carriedBytes plan.carried)
    (headLink plan slot wrapRaced carried))

def slotImage (rs : List Record × Record) : List UInt8 :=
  (rs.1.map paddedImage).flatten ++ Record.image rs.2

/-- The allocation wrapped under a plan that does not carry its chain. -/
def wrapRaced (plan : AltPlan) (wrapped : Bool) : Bool :=
  !plan.carryForward && (wrapped || plan.head.any fun h => h.cls != .kCurrent)

def commitAlternateWriteOnce (s : State) (w : AlternateWrite) (allowRestart : Bool)
    (a : Attempt) : State × AltOutcome :=
  let docSize := kHeaderSize + w.header.length + w.content.length
  match env.planAlternate s w docSize with
  | .error e => (s, .failed e)
  | .ok plan =>
    match DocumentBuilder.build ⟨w.key, w.header, w.content, w.id, plan.nextLink, a.now⟩ with
    | none => (s, .failed .invalidArgument)
    | some d =>
      match env.allocateWriteSlot s (carriedBytes plan.carried + d.len) a.gates with
      | (s', .error e) => (s', .failed e)
      | (s', .ok slot) =>
        let pass := env.stripe.passOf s.gen
        let wrapped := env.stripe.passOf s'.gen != pass
        let raced := wrapRaced plan wrapped
        if !wrapped && plan.head.all (fun h => h.cls == .kCurrent) &&
            env.recheckStale s' w.key plan then (s', .stale)
        else if raced && plan.nextLink != 0 && allowRestart && env.stripe.retain then
          (s', .restart)
        else
          let rs := slotRecords s.bytes w d slot plan raced
          let filled := fillSlot s' slot (slotImage rs) a.short
          match a.short with
          | some _ => (filled, .failed .ioError)
          | none =>
            env.publishAlternate { filled with laid := rs.2 :: rs.1 ++ filled.laid }
              w plan rs.2 (if raced then [] else plan.repoints) pass a.lockFree

/-- `commit_alternate_write`: one restart after a wrap, and up to 32 retries
after a stale publish. -/
def commitAlternateWrite (w : AlternateWrite) (attempts : Nat → Attempt) :
    Nat → Nat → Bool → Nat → State → State × Except CacheError Record
  | 0, _, _, _, s => (s, .error .busy)
  | fuel + 1, i, allowRestart, staleRetries, s =>
    match env.commitAlternateWriteOnce s w allowRestart (attempts i) with
    | (s', .published r) => (s', .ok r)
    | (s', .failed e) => (s', .error e)
    | (s', .restart) =>
      commitAlternateWrite w attempts fuel (i + 1) false staleRetries s'
    | (s', .stale) =>
      if staleRetries = kMaxStalePublishRetries then (s', .error .busy)
      else commitAlternateWrite w attempts fuel (i + 1) allowRestart (staleRetries + 1) s'

/-- Enough rounds for the restart and every retry. -/
def kMaxAttempts : Nat := kMaxStalePublishRetries + 2

/-! ## Counting hits -/

/-- The node of `update_hit_count_sync`: the first one with the id. -/
def hitTarget (m : Memory) (snap : StripeSnapshot) (id : Nat) :
    Nat → Nat → AdmitClass → Option Nat → Option Nat
  | 0, _, _, _ => none
  | fuel + 1, current, cls, followed =>
    let d := Document.deserialize m current
    if !env.mapRegion current kHeaderSize || !env.readerValid m current kHeaderSize ||
        !env.stripe.stampAdmits snap cls d.writeSerial ||
        followed.any (fun link => !d.boundByLink link) then none
    else if d.alternateId = id then some current
    else
      let next := Document.linkOffset d.nextAlternateOffset
      let cls' := env.stripe.admitHop next current cls snap
      if next = 0 ∨ cls' = .kReject then none
      else hitTarget m snap id fuel next cls' (some d.nextAlternateOffset)

/-- The count and the time of a hit; the count stops at its largest value. -/
def storeHit (rel delta lastAccess : Nat) (m : Memory) : Memory :=
  let count := min ((Document.deserialize m rel).hitCount + delta) (2 ^ 32 - 1)
  writeAt (writeAt m (rel + Document.kHitCountOffset) (leBytes 4 count))
    (rel + Document.kLastAccessOffset) (leBytes 8 lastAccess)

def updateHitCountSync (s : State) (key : CacheKey) (id delta lastAccess : Nat)
    (lockFree : Bool) : State :=
  let snap := env.snapshot s
  let isHead := fun c : DirEntry × AdmitClass =>
    env.mapRegion c.1.offset c.1.approxSize &&
      env.readerValid s.bytes c.1.offset c.1.approxSize &&
      (Document.deserialize s.bytes c.1.offset).firstKey == key.toNat &&
      env.stripe.stampAdmits snap c.2 (Document.deserialize s.bytes c.1.offset).writeSerial &&
      entryBinds c.1 (Document.deserialize s.bytes c.1.offset)
  match (env.probe s key).find? isHead with
  | none => s
  | some (e, cls) =>
    match env.hitTarget s.bytes snap id kMaxChainTraversalDepth e.offset cls none with
    | none => s
    | some rel =>
      env.commitHeaderRmw s rel key id (env.stripe.passOf s.gen) lockFree
        (storeHit rel delta lastAccess)

end Env

/-! ## The calls of one process -/

inductive VolumeOp where
  /-- A plain write up to its cursor, and the publish of one that waits. -/
  | fill (key : CacheKey) (header content : List UInt8) (gates : Gates) (short : Option Nat)
  | publish (i : Nat)
  /-- One round of an alternate write. -/
  | writeAlternate (w : AlternateWrite) (allowRestart : Bool) (a : Attempt)
  | remove (key : CacheKey)
  | read (key : CacheKey)
  | readAlternate (key : CacheKey) (id : Nat)
  | hit (key : CacheKey) (id delta lastAccess : Nat) (lockFree : Bool)
  /-- The RAM tier makes room. -/
  | ramEvict (key : CacheKey) (id : Nat)

/-- A plain document. -/
def plainBuilder (key : CacheKey) (header content : List UInt8) : DocumentBuilder :=
  ⟨key, header, content, 0, 0, 0⟩

def Env.step (env : Env) (s : State) : VolumeOp → Option State
  | .fill key header content gates short =>
    some (env.fillWrite s (plainBuilder key header content) gates short).1
  | .publish i => s.pending[i]?.map fun r => (env.publishWrite s r).1
  | .writeAlternate w allowRestart a =>
    some (env.commitAlternateWriteOnce s w allowRestart a).1
  | .remove key => some (env.removeSync s key).1
  | .read key => some (env.readSync s key).1
  | .readAlternate key id => some (env.readAlternateSync s key id).1
  | .hit key id delta lastAccess lockFree =>
    some (env.updateHitCountSync s key id delta lastAccess lockFree)
  | .ramEvict key id => some { s with ram := ramRemove s.ram key id }

end CycloneCache.Ref.Volume

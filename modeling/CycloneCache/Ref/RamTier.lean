import CycloneCache.Ref.Chain

/-!
# A chain behind a RAM tier

The alternates of one key in one process, with the copies that the RAM tier
keeps of them. A call that changes the chain is a short program of stores,
made under the stripe mutex: the bracket that publishes, the links it splices,
and last the invalidation, which moves the stripe's remove generation and then
drops copies. What a call plans depends on the chain alone, so its stores are
known when the mutex is taken; readers take no mutex and meet the chain between
any two of them.

Offsets are counted through the passes, so that no two documents share one: a
wrap begins a new pass at the cursor, and what lies below `exposed` is gone.
The documents of other keys are left out. A slot is placed at its publish, as
nothing names its bytes before. `keep` says which nodes of a retained chain
`carry_retained_chain` has room for.

`body` and `latest` are not in the program: a document's body is the number of
the write its bytes come from, counted by publishes, and `latest` is the last
one of each id.
-/

namespace CycloneCache.Ref.Ram

open Lib

/-- The settings the calls read. -/
structure Config where
  ramCache : Bool
  unlinkSupersededAlternates : Bool
  wrapRetention : Bool
  syncOnWrite : Bool
  /-- The directory is in the file: there is a `touch_bucket`. -/
  mmapDirectory : Bool
  ramCoherence : Bool
  /-- `use_ram_cache` of a document, which looks at the length of its content. -/
  usesRam : Nat → Bool

/-- A copy of a document, with the bucket version it was read under. -/
structure Copy where
  body : Nat
  stamp : Nat
  deriving DecidableEq

/-- The RAM tier, by alternate id. -/
abbrev Copies := Nat → Option Copy

structure Disk where
  docs : Nat → Option AltDoc
  entry : Option Nat
  cursor : Nat
  pass : Nat
  /-- Where the current pass began, and up to where the previous one is gone. -/
  passStart : Nat
  exposed : Nat
  /-- The version of the key's bucket, and the stripe's remove generation. -/
  version : Nat
  removeEpoch : Nat
  bodies : Nat
  latest : Nat → Nat

/-- A key without documents. -/
def Disk.fresh : Disk where
  docs := fun _ => none
  entry := none
  cursor := 1
  pass := 0
  passStart := 1
  exposed := 1
  version := 0
  removeEpoch := 0
  bodies := 1
  latest := fun _ => 0

/-! ## The visible chain -/

namespace Disk

variable (cfg : Config) (d : Disk)

def classify (o : Nat) : AdmitClass :=
  if d.passStart ≤ o then .kCurrent
  else if cfg.wrapRetention ∧ d.exposed ≤ o then .kRetained
  else .kReject

/-- The nodes from `o` on, and whether the walk was cut off at its depth. -/
def walkFrom : Nat → Nat → List ChainNode × Bool
  | 0, _ => ([], true)
  | fuel + 1, o =>
    match d.docs o with
    | none => ([], false)
    | some x =>
      let node : ChainNode :=
        ⟨o, x.nextAlternateOffset, x.len, x.alternateId, d.classify cfg o, x.body⟩
      if x.nextAlternateOffset = 0 ∨ d.classify cfg x.nextAlternateOffset = .kReject then
        ([node], false)
      else
        (node :: (walkFrom fuel x.nextAlternateOffset).1,
          (walkFrom fuel x.nextAlternateOffset).2)

/-- The chain as a call of this process resolves it under the mutex. -/
def chain : List ChainNode × Bool :=
  match d.entry with
  | none => ([], false)
  | some h =>
    if d.classify cfg h = .kReject then ([], false)
    else d.walkFrom cfg kMaxChainTraversalDepth h

end Disk

/-! ## The stores of a call -/

inductive Store where
  /-- A bracket on the key's bucket begins and ends. -/
  | openBracket
  | closeBracket
  /-- The slot of a write, and the entry that names its head. -/
  | publish (id len : Nat) (plan : WritePlan)
  | setEntry (entry : Option Nat)
  | storeLink (pred newNext : Nat)
  /-- `remove_epoch.fetch_add`, and the copies of one id or of all that go. -/
  | bumpEpoch
  | evict (target : Option Nat)
  deriving DecidableEq

def Disk.exec (d : Disk) : Store → Disk
  | .openBracket => { d with version := d.version + 1 }
  | .closeBracket => { d with version := d.version + 1 }
  | .publish id len plan =>
    { d with
      docs := place d.docs (slotDocs d.pass id len plan d.cursor d.bodies)
      entry := some (d.cursor + carriedSize plan.carried)
      cursor := d.cursor + roundUp8 (carriedSize plan.carried + len)
      bodies := d.bodies + 1
      latest := Function.update d.latest id d.bodies }
  | .setEntry e => { d with entry := e }
  | .storeLink pred newNext =>
    { d with
      docs := Function.update d.docs pred
        ((d.docs pred).map fun x => { x with nextAlternateOffset := newNext }) }
  | .bumpEpoch => { d with removeEpoch := d.removeEpoch + 1 }
  | .evict _ => d

/-- One id, or all of them. -/
def covers (target : Option Nat) (id : Nat) : Bool := target.all (· == id)

/-- `remove(key, id)`, or `remove_all(key)`. -/
def evictCopies (target : Option Nat) (ram : Copies) : Copies :=
  fun id => if covers target id then none else ram id

/-- The generation moves after the chain has changed, and then copies go. -/
def invalidate (cfg : Config) (target : Option Nat) : List Store :=
  if cfg.ramCache then [.bumpEpoch, .evict target] else []

def inBracket (store : Store) : List Store := [.openBracket, store, .closeBracket]

/-- What the return of a call says of the copies that remain: those of the
target id, or of every id, are of a write from `least` on. -/
structure Raise where
  target : Option Nat
  least : Nat
  deriving DecidableEq

def Raise.apply (r : Raise) (bound : Nat → Nat) (id : Nat) : Nat :=
  if covers r.target id then max (bound id) r.least else bound id

/-- What a call's return stands for; a plain write has rewritten the key. -/
structure Outcome where
  raise : Option Raise
  rewritten : Option Nat
  deriving DecidableEq

def Outcome.bound (out : Outcome) (bound : Nat → Nat) : Nat → Nat :=
  out.raise.elim bound fun r => r.apply bound

structure Program where
  stores : List Store
  out : Outcome
  deriving DecidableEq

/-! ## What the calls store -/

def freshPlan : WritePlan := ⟨none, false, none, 0, [], []⟩

/-- `commit_write` from its election on: the entry now names the new document. -/
def writeProgram (cfg : Config) (d : Disk) (len : Nat) : Program where
  stores := inBracket (.publish kOriginal len freshPlan) ++ invalidate cfg (some kOriginal)
  out := ⟨some ⟨some kOriginal, d.bodies⟩, some d.bodies⟩

/-- `commit_alternate_write_once` from its publish on. -/
def writeAlternateProgram (cfg : Config) (d : Disk) (id len : Nat) (plan : WritePlan)
    (dropped : Bool) : Program where
  stores := inBracket (.publish id len plan) ++
    plan.repoints.map (fun r => .storeLink r.predRel r.newNext) ++
    invalidate cfg (if dropped then none else some id)
  out := ⟨some ⟨some id, d.bodies⟩, none⟩

/-- A write over a head: so far it links nothing and splices nothing. -/
def headPlan (head : ChainNode) : WritePlan :=
  ⟨some head.relOffset, head.cls == .kRetained, some head.relOffset, 0, [], []⟩

def uniqueIds (nodes : List ChainNode) : List Nat := (nodes.map (·.id)).eraseDups

/-- A retained chain is carried forward, as far as there is room. -/
def carryPlan (id : Nat) (keep : Nat → Bool) (head : ChainNode) (nodes : List ChainNode) :
    WritePlan :=
  { headPlan head with
    carried := ((carryCandidates [id] nodes).filter fun n => keep n.relOffset).reverse }

/-- Only superseded copies are in sight: start a fresh chain. -/
def chainReset (id : Nat) (nodes : List ChainNode) (truncated : Bool) : Bool :=
  truncated && uniqueIds nodes == [id]

/-- What the new head links to, and the splices behind it. -/
def linkPlan (cfg : Config) (id : Nat) (head : ChainNode) (nodes : List ChainNode) : WritePlan :=
  if cfg.unlinkSupersededAlternates then
    { headPlan head with
      newNext := (planUnlink id true head.relOffset nodes).1
      repoints := (planUnlink id true head.relOffset nodes).2 }
  else { headPlan head with newNext := head.relOffset }

/-- The plan of an alternate write over a chain, and whether a carry left
something out. -/
def planOver (cfg : Config) (id : Nat) (keep : Nat → Bool) (head : ChainNode)
    (nodes : List ChainNode) (truncated : Bool) : Except CallError (WritePlan × Bool) :=
  if head.cls = .kRetained then
    .ok (carryPlan id keep head nodes,
      (carryCandidates [id] nodes).any fun n => !keep n.relOffset)
  else if truncated && !chainReset id nodes truncated then .error .tooManyAlternates
  else if (uniqueIds nodes).length ≥ kMaxAlternates then .error .tooManyAlternates
  else if chainReset id nodes truncated then .ok (headPlan head, false)
  else .ok (linkPlan cfg id head nodes, false)

def planAlternate (cfg : Config) (d : Disk) (id : Nat) (keep : Nat → Bool) :
    Except CallError (WritePlan × Bool) :=
  match d.chain cfg with
  | ([], _) => .ok (freshPlan, false)
  | (head :: rest, truncated) => planOver cfg id keep head (head :: rest) truncated

/-- The entry goes, and every copy with it. -/
def dropKeyProgram (cfg : Config) (d : Disk) : Program where
  stores := inBracket (.setEntry none) ++ invalidate cfg none
  out := ⟨some ⟨none, d.bodies⟩, none⟩

/-- `remove_sync`: nothing where the key has no live entry. -/
def removeProgram (cfg : Config) (d : Disk) : Option Program :=
  if (d.chain cfg).1.isEmpty then none else some (dropKeyProgram cfg d)

/-- The node before the first one of the id. -/
def predOf (id : Nat) : ChainNode → List ChainNode → Option (ChainNode × ChainNode)
  | _, [] => none
  | p, n :: ns => if n.id = id then some (p, n) else predOf id n ns

/-- The target leaves the chain by `stores`, and its copy leaves RAM. -/
def unlinkProgram (cfg : Config) (target : ChainNode) (stores : List Store) : Program where
  stores := stores ++ invalidate cfg (some target.id)
  out := ⟨some ⟨some target.id, target.body + 1⟩, none⟩

/-- `remove_alternate_sync`, for the first node of the id. A retained chain
goes as a whole. A repoint runs no bracket, so the bucket is touched for the
processes that watch its version. -/
def removeAlternateProgram (cfg : Config) (d : Disk) (id : Nat) : Option Program :=
  match (d.chain cfg).1 with
  | [] => none
  | head :: rest =>
    if head.cls = .kRetained then
      if (head :: rest).any (·.id == id) then some (dropKeyProgram cfg d) else none
    else if head.id = id then
      if head.nextRel = 0 then some (unlinkProgram cfg head (inBracket (.setEntry none)))
      else if d.classify cfg head.nextRel = .kReject then none
      else some (unlinkProgram cfg head (inBracket (.setEntry (some head.nextRel))))
    else
      match predOf id head rest with
      | none => none
      | some (pred, target) =>
        some (unlinkProgram cfg target
          (.storeLink pred.relOffset target.nextRel ::
            if cfg.mmapDirectory then [.openBracket, .closeBracket] else []))

/-- A write of another key of the stripe: it may share the bucket, and take
the key's entry for want of room. -/
def otherProgram (cfg : Config) (shared evicts : Bool) : Program where
  stores :=
    (if shared then
      .openBracket :: ((if evicts then [.setEntry none] else []) ++ [.closeBracket])
    else []) ++ if cfg.ramCache then [.bumpEpoch] else []
  out := ⟨none, none⟩

/-! ## Wraps -/

/-- The stripe wraps: what was readable of the previous pass is gone, and in
flush mode the pass that ends with it. -/
def Disk.wrap (cfg : Config) (d : Disk) : Disk :=
  { d with
    pass := d.pass + 1
    passStart := d.cursor
    exposed := if cfg.wrapRetention then d.passStart else d.cursor }

/-- The frontier moves up, over documents of the previous pass. -/
def Disk.advance (d : Disk) (o : Nat) : Disk :=
  { d with exposed := max d.exposed (min o d.passStart) }

end CycloneCache.Ref.Ram

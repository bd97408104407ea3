import CycloneCache.Ref.Alternates

/-!
# Walking a chain

Five calls follow the links of a key's chain. They differ in what they check
at a node and in when they have seen enough; the hop from one node to the
next is the same everywhere: the link is read from the node's header, and
`admit_hop` decides whether it is followed.

`hopWalk` is that loop with the look at a node left open. The nodes it lists
are the ones a call maps, the last of them perhaps only to turn it down.

The two calls that are not in `Ref.Alternates`, `list_alternates_sync` and
`remove_alternate_sync`, are here as well. One call runs at a time; a wait
for the write lock then ends, and the retries of a removal meet the same
answer until they are used up.
-/

namespace CycloneCache.Ref.Volume

open Lib

/-- What a walk does at a node it reached in a class, over a link: go on with
the node's link, or stop. -/
abbrev Look := Nat → AdmitClass → Option Nat → Option Nat

namespace Env

variable (env : Env)

/-- The nodes a walk maps, each with its class. `halt` ends the walk before
a node is mapped. -/
def hopWalk (snap : StripeSnapshot) (halt : List Nat → Nat → Bool) (look : Look) :
    Nat → List Nat → Nat → AdmitClass → Option Nat → List (Nat × AdmitClass)
  | 0, _, _, _, _ => []
  | fuel + 1, visited, current, cls, followed =>
    if halt visited current then []
    else
      (current, cls) ::
        match look current cls followed with
        | none => []
        | some link =>
          let next := Document.linkOffset link
          let cls' := env.stripe.admitHop next current cls snap
          if next = 0 ∨ cls' = .kReject then []
          else hopWalk snap halt look fuel (visited ++ [current]) next cls' (some link)

/-- `list_alternates_sync` and `read_alternate_sync` map the document and
take nothing that is not the key's. -/
def lookReader (m : Memory) (snap : StripeSnapshot) (key : CacheKey) : Look :=
  fun current cls followed =>
    let d := Document.deserialize m current
    if (env.mapDocument m current kMapOverhead).isNone ∨ d.firstKey ≠ key.toNat ∨
        !d.hasVolumeShape ∨ !env.stripe.stampAdmits snap cls d.writeSerial ∨
        followed.any (fun link => !d.boundByLink link) then none
    else some d.nextAlternateOffset

/-- `commit_alternate_write_once` maps the header. -/
def lookWriter (m : Memory) (snap : StripeSnapshot) : Look :=
  fun current cls followed =>
    let d := Document.deserialize m current
    if !env.mapRegion current kHeaderSize || !env.readerValid m current kHeaderSize then none
    else if !env.stripe.stampAdmits snap cls d.writeSerial ||
        followed.any (fun link => !d.boundByLink link) then none
    else some d.nextAlternateOffset

/-- `remove_alternate_sync` and `update_hit_count_sync` stop at the id they
look for. -/
def lookFor (m : Memory) (snap : StripeSnapshot) (id : Nat) : Look :=
  fun current cls followed =>
    match env.lookWriter m snap current cls followed with
    | none => none
    | some link => if (Document.deserialize m current).alternateId = id then none else some link

end Env

/-- The calls that walk a chain. -/
inductive Walker where
  | readAlternate
  | listAlternates
  | commitAlternateWrite
  | removeAlternate (id : Nat)
  | updateHitCount (id : Nat)
  deriving DecidableEq

namespace Walker

/-- Only a write looks out for a node it has seen before. -/
def halts : Walker → List Nat → Nat → Bool
  | .commitAlternateWrite, visited, o => visited.contains o
  | _, _, _ => false

def look (env : Env) (m : Memory) (snap : StripeSnapshot) (key : CacheKey) : Walker → Look
  | .readAlternate | .listAlternates => env.lookReader m snap key
  | .commitAlternateWrite => env.lookWriter m snap
  | .removeAlternate id | .updateHitCount id => env.lookFor m snap id

/-- The nodes a call's walk maps from the head on. -/
def visits (w : Walker) (env : Env) (m : Memory) (snap : StripeSnapshot) (key : CacheKey)
    (head : Nat) (cls : AdmitClass) : List (Nat × AdmitClass) :=
  env.hopWalk snap w.halts (w.look env m snap key) kMaxChainTraversalDepth [] head cls none

end Walker

namespace Env

variable (env : Env)

/-! ## Listing -/

def listAlternatesSync (s : State) (key : CacheKey) : Except CacheError (List AltInfo) :=
  let snap := env.snapshot s
  match (env.probe s key).find? fun c => env.isHead s.bytes snap key c.1 c.2 with
  | none => .error .notFound
  | some (e, cls) =>
    match env.walkAlternates s.bytes snap key kMaxChainTraversalDepth e.offset cls none with
    | [] => .error .corrupted
    | n :: ns => .ok (n :: ns)

end Env

/-! ## Removing one alternate -/

/-- What `remove_alternate_sync` can answer. -/
inductive RemoveError where
  | notFound
  | alternateNotFound
  | chainCorrupted
  | corrupted
  | ioError
  | busy
  deriving DecidableEq

/-- The node to remove, its link, and the node before it with that node's
id. -/
structure RemoveTarget where
  pred : Option (Nat × Nat)
  target : Nat
  nextLink : Nat
  deriving DecidableEq

/-- How one attempt of a removal ends. -/
inductive RemoveOutcome where
  | done
  | failed (e : RemoveError)
  | retry
  deriving DecidableEq

namespace Env

variable (env : Env)

/-- The entry leads to a head of the key, judged by its fixed header. -/
def isHeadHeader (m : Memory) (snap : StripeSnapshot) (key : CacheKey) (e : DirEntry)
    (cls : AdmitClass) : Bool :=
  let d := Document.deserialize m e.offset
  env.mapRegion e.offset kHeaderSize && env.readerValid m e.offset kHeaderSize &&
    d.firstKey == key.toNat && env.stripe.stampAdmits snap cls d.writeSerial && entryBinds e d

/-- The walk to the node with the id. -/
def removeTarget (m : Memory) (snap : StripeSnapshot) (id : Nat) :
    Nat → Option (Nat × Nat) → Nat → AdmitClass → Option Nat →
      Except RemoveError RemoveTarget
  | 0, _, _, _, _ => .error .alternateNotFound
  | fuel + 1, pred, current, cls, followed =>
    let d := Document.deserialize m current
    match env.lookWriter m snap current cls followed with
    | none => .error .alternateNotFound
    | some link =>
      if d.alternateId = id then .ok ⟨pred, current, link⟩
      else
        let next := Document.linkOffset link
        let cls' := env.stripe.admitHop next current cls snap
        if next = 0 then .error .alternateNotFound
        else if cls' = .kReject then .error .chainCorrupted
        else removeTarget m snap id fuel (some (current, d.alternateId)) next cls' (some link)

/-- The copies of an alternate, or of the whole key, leave the RAM tier. -/
def dropCopies (s : State) (key : CacheKey) (id : Option Nat) : State :=
  if env.ramCache then
    { s with
      ram := match id with
        | some id => ramRemove s.ram key id
        | none => ramRemoveAll s.ram key }
  else s

def removeEntryAt (s : State) (key : CacheKey) (offset : Nat) : State :=
  s.setBucket key (removeAllAt (s.bucket key) key.tag [offset])

/-- The entry of the head is published again for its successor. `origin` goes
along with the document that is republished. -/
def republication (s : State) (key : CacheKey) (successor serial : Nat) : Publication where
  tag := key.tag
  offset := successor
  size := (Document.deserialize s.bytes successor).len
  fillSerial := serial
  phase := phaseOf (env.stripe.passOf s.gen)
  record :=
    let d := Document.deserialize s.bytes successor
    ⟨key, successor, env.stripe.passOf s.gen, d, headerBytes s.bytes successor d.len d,
      contentBytes s.bytes successor d.len d⟩

/-- The removal of a current head. A successor that the link does not bind is
not republished. -/
def removeHead (s : State) (key : CacheKey) (id head : Nat) (cls : AdmitClass)
    (link : Nat) (seen : List Nat) : State × RemoveOutcome :=
  let successor := Document.linkOffset link
  let d := Document.deserialize s.bytes successor
  let dropEntry := (env.dropCopies (removeEntryAt s key head) key (some id), RemoveOutcome.done)
  if successor = 0 then dropEntry
  else if env.stripe.admitHop successor head cls (env.snapshot s) = .kReject then
    (s, .failed .chainCorrupted)
  else if !env.mapRegion successor kHeaderSize then (s, .failed .ioError)
  else if !env.readerValid s.bytes successor kHeaderSize then (s, .failed .corrupted)
  else if !d.boundByLink link then dropEntry
  else
    match insert (s.bucket key)
        (env.republication s key successor (Document.linkSerial link)) (some head)
        (env.classify s) [] seen with
    | .stale => (s, .retry)
    -- whether the insert found a slot is not looked at
    | .failed => (env.dropCopies s key (some id), .done)
    | .published b => (env.dropCopies (s.setBucket key b) key (some id), .done)

/-- The removal of a later node: its link goes into the node before it, and
the bucket's version moves for the other processes. -/
def removeAfter (s : State) (key : CacheKey) (id : Nat) (pred : Nat × Nat) (link : Nat) :
    State × RemoveOutcome :=
  let s' := if env.mmapDirectory then { s with lockGen := s.lockGen + 1 } else s
  let d := Document.deserialize s.bytes pred.1
  if !env.mapRegion pred.1 kHeaderSize then (s, .retry)
  else if env.readerValid s.bytes pred.1 kHeaderSize && d.firstKey == key.toNat &&
      d.alternateId == pred.2 && env.nodeAdmissibleNow s pred.1 d then
    let stored := { s' with
      bytes := writeAt s'.bytes (pred.1 + Document.kNextAlternateOffsetPos) (leBytes 8 link) }
    let touched := if env.mmapDirectory then stored.setBucket key (stored.bucket key) else stored
    (env.dropCopies touched key (some id), .done)
  else (s', .retry)

/-- One attempt of `remove_alternate_sync`. -/
def removeAlternateOnce (s : State) (key : CacheKey) (id : Nat) : State × RemoveOutcome :=
  let snap := env.snapshot s
  let seen := (env.probe s key).map fun c => c.1.offset
  match (env.probe s key).find? fun c => env.isHeadHeader s.bytes snap key c.1 c.2 with
  | none => (s, .failed .notFound)
  | some (e, cls) =>
    match env.removeTarget s.bytes snap id kMaxChainTraversalDepth none e.offset cls none with
    | .error err => (s, .failed err)
    | .ok t =>
      if cls = .kRetained then
        (env.dropCopies (removeEntryAt s key e.offset) key none, .done)
      else
        match t.pred with
        | none => env.removeHead s key id e.offset cls t.nextLink seen
        | some pred => env.removeAfter s key id pred t.nextLink

/-- `remove_alternate_sync`: up to eight attempts. -/
def removeAlternateSync (key : CacheKey) (id : Nat) :
    Nat → State → State × Except RemoveError Unit
  | 0, s => (s, .error .busy)
  | attempts + 1, s =>
    match env.removeAlternateOnce s key id with
    | (s', .done) => (s', .ok ())
    | (s', .failed e) => (s', .error e)
    | (s', .retry) => removeAlternateSync key id attempts s'

end Env

end CycloneCache.Ref.Volume

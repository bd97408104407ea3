import CycloneCache.Ref.Volume

/-!
# Writing to a volume

A write builds its document, is granted a slot of the data area, fills it and
moves the cursor, and then publishes an entry. Between the fill and the
publish the stripe's mutex may be free (`sync_on_write`), so the two are
separate steps here and a fill may stay unpublished; the publish refuses once
the stripe has wrapped.

What the lease gate answers and how many bytes a failing fill leaves behind
are inputs of a step.
-/

namespace CycloneCache.Ref.Volume

open Lib

/-- The answers of the lease gate during one allocation. -/
structure Gates where
  wrap : Bool
  mandatory : Bool
  early : Bool
  deriving DecidableEq

/-- No gate refuses. -/
def openGates : Gates := ⟨true, true, true⟩

structure Slot where
  writeOffset : Nat
  newWritePos : Nat
  pass : Nat
  fillSerial : Nat
  fillEnd : Nat
  deriving DecidableEq

namespace Env

variable (env : Env)

/-- A wrap: the cursor drops and the next pass begins. -/
def wrap (s : State) : State :=
  { s with
    cursor := env.stripe.dataStart
    gen := env.stripe.genOf (env.stripe.passOf s.gen + 1) env.stripe.wrapFrontier }

def advanceFrontier (s : State) (upTo : Nat) (gate : Bool) : Option State :=
  if upTo ≤ env.stripe.frontierOf s.gen then some s
  else if gate then
    some { s with gen := env.stripe.genOf (env.stripe.passOf s.gen) upTo }
  else none

/-- The early advance of `retention_prepare`, which never fails. -/
def earlyAdvance (s : State) (size : Nat) (gate : Bool) : State :=
  let f := env.stripe.frontierOf s.gen
  let need := s.cursor + size
  let half := env.stripe.chunkSize / 2
  if f < env.stripe.chunks ∧ env.stripe.frontierRelOf f - need < half then
    (env.advanceFrontier s (env.stripe.chunkIndexCeil (need + half)) gate).getD s
  else s

/-- `retention_prepare` past its wrap: the chunks the document needs, then
half a chunk of runway. -/
def advanceFor (s : State) (size : Nat) (gates : Gates) : State × Bool :=
  let need := s.cursor + size
  if need > env.stripe.frontierRelOf (env.stripe.frontierOf s.gen) then
    match env.advanceFrontier s (env.stripe.chunkIndexCeil need) gates.mandatory with
    | none => (s, false)
    | some s' => (env.earlyAdvance s' size gates.early, true)
  else (env.earlyAdvance s size gates.early, true)

/-- Make room for `size` bytes: wrap if they do not fit before the end. A
refused advance leaves the wrap in place. -/
def makeRoom (s : State) (size : Nat) (gates : Gates) : State × Bool :=
  if env.stripe.retain then
    env.advanceFor (if size > env.stripe.size - s.cursor then env.wrap s else s) size gates
  else if size > env.stripe.size - s.cursor then
    if gates.wrap then (env.wrap s, true) else (s, false)
  else (s, true)

def allocateWriteSlot (s : State) (len : Nat) (gates : Gates) :
    State × Except CacheError Slot :=
  let s := if env.mmapDirectory then { s with lockGen := s.lockGen + 1 } else s
  let size := roundUp8 len
  if size > env.stripe.size - env.stripe.dataStart then (s, .error .noSpace)
  else
    match env.makeRoom s size gates with
    | (s', false) => (s', .error .noSpace)
    | (s', true) =>
      (s', .ok
        { writeOffset := s'.cursor
          newWritePos := s'.cursor + size
          pass := env.stripe.passOf s'.gen
          fillSerial := if env.mmapDirectory then s'.lockGen % 2 ^ 16 else 0
          fillEnd := tailFillEnd env.stripe env.lease s'.gen (s'.cursor + size) size })

end Env

/-- What a fill writes: the bytes of the slot, and zeros up to the end of its
last page. -/
def fillImage (slot : Slot) (bytes : List UInt8) : List UInt8 :=
  bytes ++ List.replicate (slot.fillEnd - (slot.writeOffset + bytes.length)) 0

/-- The fill and `commit_write_slot`: the cursor moves past a complete fill,
a short one leaves what it wrote. -/
def fillSlot (s : State) (slot : Slot) (bytes : List UInt8) (short : Option Nat) : State :=
  match short with
  | none =>
    { s with
      bytes := writeAt s.bytes slot.writeOffset (fillImage slot bytes)
      cursor := slot.newWritePos }
  | some n =>
    { s with bytes := writeAt s.bytes slot.writeOffset ((fillImage slot bytes).take n) }

/-- `patch_pass_stamp` and `patch_fill_serial` -/
def stamped (d : Document) (slot : Slot) : Document :=
  { d with writeSerial := slot.pass % 2 ^ 32, fillSerial := slot.fillSerial }

/-- The document of a slot. -/
def recordOf (b : DocumentBuilder) (d : Document) (slot : Slot) : Record :=
  ⟨b.key, slot.writeOffset, slot.pass, stamped d slot, b.header, b.content⟩

/-- The bytes of a document. -/
def Record.image (r : Record) : List UInt8 := r.doc.serialize ++ r.header ++ r.content

/-- `commit_write_impl` up to the cursor. -/
def Env.fillWrite (env : Env) (s : State) (b : DocumentBuilder) (gates : Gates)
    (short : Option Nat) : State × Except CacheError Record :=
  match b.build with
  | none => (s, .error .invalidArgument)
  | some d =>
    match env.allocateWriteSlot s d.len gates with
    | (s', .error e) => (s', .error e)
    | (s', .ok slot) =>
      let r := recordOf b d slot
      let filled := fillSlot s' slot (Record.image r) short
      match short with
      | some _ => (filled, .error .ioError)
      | none =>
        ({ filled with laid := r :: filled.laid, pending := r :: filled.pending }, .ok r)

/-! ## Publishing -/

/-- What a writer's probe of the bucket decides. -/
structure Election where
  verified : Option (Nat × AdmitClass)
  clears : List Nat
  seen : List Nat
  deriving DecidableEq

namespace Election

def start : Election := ⟨none, [], []⟩

def see (el : Election) (o : Nat) : Election :=
  if o ∈ el.seen then el else { el with seen := el.seen ++ [o] }

def addClear (el : Election) (o : Nat) : Election :=
  if o ∈ el.clears then el else { el with clears := el.clears ++ [o] }

/-- An entry that leads to the key: the first one, or a current one over a
retained one, is elected and the others are cleared. -/
def nominate (el : Election) (o : Nat) (cls : AdmitClass) : Election :=
  match el.verified with
  | none => { el with verified := some (o, cls) }
  | some (o', cls') =>
    if cls = .kCurrent ∧ cls' ≠ .kCurrent then
      { el.addClear o' with verified := some (o, cls) }
    else el.addClear o

end Election

/-- One entry of the election of a plain write, which reads the header. -/
def Env.electStep (env : Env) (m : Memory) (snap : StripeSnapshot) (key : CacheKey)
    (el : Election) (c : DirEntry × AdmitClass) : Election :=
  let (e, cls) := c
  let el := el.see e.offset
  if el.verified.any fun v => v.1 == e.offset then el
  else if !env.mapRegion e.offset kHeaderSize then el
  else if !env.readerValid m e.offset kHeaderSize then
    if env.stripe.inDataArea e.offset then el.addClear e.offset else el
  else
    let d := Document.deserialize m e.offset
    if !(env.stripe.stampAdmits snap cls d.writeSerial && entryBinds e d) then
      el.addClear e.offset
    else if d.firstKey ≠ key.toNat then el
    else el.nominate e.offset cls

def Env.elect (env : Env) (s : State) (key : CacheKey) : Election :=
  (env.probe s key).foldl (env.electStep s.bytes (env.snapshot s) key) .start

/-- The entry a document is published under. -/
def Env.publication (env : Env) (s : State) (r : Record) : Publication where
  tag := r.key.tag
  offset := r.start
  size := r.doc.len
  fillSerial := r.doc.fillSerial
  phase := phaseOf (env.stripe.passOf s.gen)
  record := r

/-- `StripeAdmission::classify` -/
def Env.classify (env : Env) (s : State) (e : DirEntry) : AdmitClass :=
  env.stripe.admitPosition e.offset e.phase (env.snapshot s)

/-- One round of the publish of `commit_write_impl`. -/
def Env.publishWrite (env : Env) (s : State) (r : Record) : State × Except CacheError Unit :=
  if env.stripe.passOf s.gen ≠ r.pass then (s, .error .busy)
  else
    let el := env.elect s r.key
    match insert (s.bucket r.key) (env.publication s r) (el.verified.map Prod.fst)
        (env.classify s) el.clears el.seen with
    | .stale => (s, .error .busy)
    | .failed => (s, .error .internalError)
    | .published b =>
      ({ s.setBucket r.key b with
          pending := s.pending.erase r
          published := r :: s.published
          ram := if env.ramCache then ramRemove s.ram r.key 0 else s.ram }, .ok ())

/-- `commit_write`, with nothing between the fill and the publish. -/
def Env.commitWrite (env : Env) (s : State) (b : DocumentBuilder) (gates : Gates)
    (short : Option Nat) : State × Except CacheError Record :=
  match env.fillWrite s b gates short with
  | (s', .error e) => (s', .error e)
  | (s', .ok r) =>
    match env.publishWrite s' r with
    | (s'', .ok ()) => (s'', .ok r)
    | (s'', .error e) => (s'', .error e)

end CycloneCache.Ref.Volume

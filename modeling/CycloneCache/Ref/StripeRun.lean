import CycloneCache.Lib.Run
import CycloneCache.Ref.Wrap

/-!
# One stripe: a writer and its readers

This file embeds the part of the code that decides which bytes a fill may
write while readers alias the file: `allocate_write_slot` with
`retention_prepare`, `advance_frontier` and `lease_gate`,
`commit_write_slot`, and on the other side the borrow protocol (`snapshot`,
admission, `acquire_borrow`, `stamp_read_lease`, `borrow_still_valid`) and
the two renewals. Every step makes at most one access to a shared word that
another party writes, so a schedule is an interleaving.

There is one writer at a time: the stripe mutex and the write lock see to
that, so what only the writer stores (the cursor, the generation, the
intent) it may read in one step with a decision. There are any number of
readers, and they may belong to any number of processes.

The file's contents appear as the fill that last wrote each byte. A document
is what a fill wrote at the start of its slot, and a reader that maps a
header finds the document whose fill wrote those bytes.
-/

namespace CycloneCache.Ref

open Lib Function

/-- Lease settings, with leases on; `shards` is 1 for a stripe with a shared
directory and 64 otherwise. -/
structure LeaseConfig where
  leaseT : Nat
  ceiling : Nat
  shards : Nat
  /-- `fill_large_document_tail` -/
  fillTail : Bool
  lease_pos : 0 < leaseT

/-- A packed `{generation, count}` word. -/
structure BorrowSlot where
  generation : Nat
  count : Nat
  deriving DecidableEq

/-- `kCountMaskOf<uint32_t>` -/
def kCountMask : Nat := 16777215

structure BorrowToken where
  generation : Nat
  counted : Bool
  shard : Nat
  chunk : Nat
  deriving DecidableEq

/-- `borrow_slot::acquire`: a saturated slot is ridden along uncounted. -/
def BorrowSlot.acquire (slot : BorrowSlot) : BorrowSlot × Bool :=
  if slot.count = kCountMask then (slot, false)
  else ({ slot with count := slot.count + 1 }, true)

def BorrowSlot.release (slot : BorrowSlot) (generation : Nat) : BorrowSlot :=
  if slot.generation ≠ generation ∨ slot.count = 0 then slot
  else { slot with count := slot.count - 1 }

def BorrowSlot.forceReset (slot : BorrowSlot) : BorrowSlot :=
  if slot.count = 0 then slot else ⟨(slot.generation + 1) % 256, 0⟩

/-- A document, named by the fill that wrote it. -/
structure Doc where
  fill : Nat
  pass : Nat
  start : Nat
  len : Nat
  deriving DecidableEq

/-- What a reader holds on to: the document and its exposure threshold. -/
structure Borrow where
  doc : Doc
  threshold : Nat
  deriving DecidableEq

/-- `WriteSlot`; `fillEnd` is 0 without a tail fill. -/
structure WriteSlot where
  fill : Nat
  writeOffset : Nat
  newWritePos : Nat
  len : Nat
  pass : Nat
  fillEnd : Nat
  deriving DecidableEq

/-- Where the caller's fill ends. -/
def WriteSlot.fillLimit (slot : WriteSlot) : Nat :=
  if slot.fillEnd = 0 then slot.writeOffset + slot.len else slot.fillEnd

def WriteSlot.doc (slot : WriteSlot) : Doc :=
  ⟨slot.fill, slot.pass, slot.writeOffset, slot.len⟩

/-- What a gate was asked for. -/
inductive GateKind where
  | flushWrap
  | mandatory
  | early
  deriving DecidableEq

/-- A gate over the chunks from `lo` up to `hi`, on behalf of a document of
`len` bytes. -/
structure Gate where
  kind : GateKind
  len : Nat
  pass : Nat
  lo : Nat
  hi : Nat
  deriving DecidableEq

/-- What is left of an allocation. -/
inductive Stage where
  /-- The advance `retention_prepare` must make. -/
  | mandatory
  /-- The advance it may make. -/
  | early
  /-- The slot itself. -/
  | reserve
  deriving DecidableEq

inductive WriterPc where
  | rest
  /-- About to raise the intent for a gate. -/
  | raise (g : Gate)
  /-- Inside `lease_gate`: the expiry, then one count after the other, then
  the clock. -/
  | gateExpiry (g : Gate)
  | gateCounts (g : Gate) (expiry : Nat) (todo : List (Nat × Nat)) (sum : Nat)
  | gateClock (g : Gate) (expiry sum : Nat)
  /-- Deferred; about to clear the intent. -/
  | lower (g : Gate)
  /-- In the middle of a wrap's or an advance's stores. -/
  | stores (len : Nat) (todo : List Store) (next : Stage)
  | stage (len : Nat) (stage : Stage)
  /-- A slot is granted and not yet committed. -/
  | filling (slot : WriteSlot)
  deriving DecidableEq

inductive ReaderPc where
  | idle
  | snapGen (gen : Nat)
  | snapped (snap : StripeSnapshot)
  /-- A document was mapped and admitted. -/
  | located (snap : StripeSnapshot) (cls : AdmitClass) (b : Borrow)
  /-- `acquire_borrow` returned. -/
  | counted (b : Borrow) (tok : BorrowToken)
  | stamped (b : Borrow) (tok : BorrowToken)
  /-- `borrow_still_valid` read a clear intent, -/
  | intentClear (b : Borrow) (tok : BorrowToken)
  /-- then a generation not past the threshold, -/
  | genOk (b : Borrow) (tok : BorrowToken)
  /-- then an unchanged slot generation: the borrow escapes. -/
  | valid (b : Borrow) (tok : BorrowToken)
  /-- A check failed; the borrow is about to be released. -/
  | discarding (b : Borrow) (tok : BorrowToken)
  deriving DecidableEq

structure StripeState where
  words : Words
  expiry : Nat
  now : Nat
  /-- By shard and chunk. -/
  slots : Nat → Nat → BorrowSlot
  /-- `wrap_deferred_since_ns` -/
  deferredSince : Nat
  writer : WriterPc
  readers : Nat → ReaderPc
  /-- The fill, with its pass, that last wrote each byte. -/
  bytes : Nat → Nat × Nat
  /-- Documents whose slot was committed. -/
  docs : List Doc
  /-- Slots granted so far. -/
  fills : Nat
  -- ghost from here on
  /-- The generation the cursor belongs to: ahead of the word from a wrap's
  cursor store to its generation store. -/
  due : Nat
  /-- Borrows that passed `borrow_still_valid`. -/
  served : List Borrow

inductive ReadAct where
  | snapshot
  | step
  | probe (d : Doc) (entryPhase : Bool)
  | hop (d : Doc)
  | acquire (shard : Nat)
  | release
  | miss
  deriving DecidableEq

inductive StripeAct where
  | tick (d : Nat)
  | alloc (len : Nat)
  | writer
  | fill (a b : Nat)
  | commit (fillOk : Bool)
  | read (r : Nat) (act : ReadAct)
  deriving DecidableEq

/-- A stripe nobody has written to. -/
def StripeState.fresh (st : Stripe) : StripeState where
  words := ⟨0, st.dataStart, false, 0⟩
  expiry := 0
  now := 0
  slots := fun _ _ => ⟨0, 0⟩
  deferredSince := 0
  writer := .rest
  readers := fun _ => .idle
  bytes := fun _ => (0, 0)
  docs := []
  fills := 0
  due := 0
  served := []

/-! ## The writer -/

/-- The generation store a list of stores still has ahead of it. -/
def pendingGen : List Store → Option Nat
  | [] => none
  | .gen v :: _ => some v
  | _ :: ws => pendingGen ws

/-- One store; a cursor store is the point where the cursor starts to belong
to the pass that the pending generation store will announce. -/
def StripeState.store (s : StripeState) (w : Store) (todo : List Store) :
    StripeState :=
  { s with
    words := s.words.put w
    due := match w with
      | .cursor _ => (pendingGen todo).getD s.due
      | .gen v => v
      | _ => s.due }

/-- `lease_gate`, the lease part of the verdict. -/
def leaseActive (cfg : LeaseConfig) (expiry now : Nat) : Bool :=
  expiry ≠ 0 && expiry > now && expiry ≤ now + cfg.leaseT + cfg.ceiling

/-- The borrow slots a gate sums. -/
def gateSlots (cfg : LeaseConfig) (g : Gate) : List (Nat × Nat) :=
  (List.range cfg.shards).flatMap fun sh =>
    (List.range' g.lo (min g.hi kMaxChunks - g.lo)).map fun c => (sh, c)

/-- What follows a gate that let the step pass. -/
def gatePassed (st : Stripe) (g : Gate) : WriterPc :=
  match g.kind with
  | .flushWrap => .stores g.len (st.flushWrapStores g.pass).tail .reserve
  | .mandatory => .stores g.len (st.advanceStores g.pass g.hi).tail .early
  | .early => .stores g.len (st.advanceStores g.pass g.hi).tail .reserve

/-- What follows a deferral: a document that cannot be placed is dropped, an
early advance is merely skipped. -/
def gateDeferred (g : Gate) : WriterPc :=
  match g.kind with
  | .flushWrap | .mandatory => .rest
  | .early => .stage g.len .reserve

/-- Has a continuous deferral lasted past the ceiling? -/
def ceilingReached (cfg : LeaseConfig) (s : StripeState) : Bool :=
  s.deferredSince ≠ 0 && s.now - s.deferredSince > cfg.ceiling

/-- `lease_gate`, the verdict. -/
def leaseGate (st : Stripe) (cfg : LeaseConfig) (s : StripeState) (g : Gate)
    (expiry sum : Nat) : StripeState :=
  if !leaseActive cfg expiry s.now || sum = 0 then
    { s with deferredSince := 0, writer := gatePassed st g }
  else if g.kind = .early then { s with writer := .lower g }
  else if ceilingReached cfg s then
    -- the anti-starvation ceiling: every count is dropped
    { s with
      deferredSince := 0
      slots := fun sh c => (s.slots sh c).forceReset
      writer := gatePassed st g }
  else
    { s with
      deferredSince := if s.deferredSince = 0 then s.now else s.deferredSince
      writer := .lower g }

/-- `allocate_write_slot`, up to the first store: a document that can never
fit is refused, one that does not fit before the end needs a wrap. -/
def allocateWriteSlot (st : Stripe) (s : StripeState) (len : Nat) : StripeState :=
  let size := roundUp8 len
  let pass := st.passOf s.words.gen
  if size > st.size - st.dataStart then s
  else if size > st.size - s.words.cursor then
    if st.retain then
      { s with writer := .stores len (st.retentionWrapStores pass) .mandatory }
    else { s with writer := .raise ⟨.flushWrap, len, pass, 0, st.chunks⟩ }
  else if st.retain then { s with writer := .stage len .mandatory }
  else { s with writer := .stage len .reserve }

/-- `advance_frontier` is only called to move ahead. -/
def advanceFrontier (s : StripeState) (g : Gate) (next : Stage) : StripeState :=
  if g.hi ≤ g.lo then { s with writer := .stage g.len next }
  else { s with writer := .raise g }

/-- `retention_prepare`, the chunks this document needs. -/
def mandatoryAdvance (st : Stripe) (s : StripeState) (len : Nat) : StripeState :=
  let f := st.frontierOf s.words.gen
  let need := s.words.cursor + roundUp8 len
  if need > st.frontierRelOf f then
    advanceFrontier s ⟨.mandatory, len, st.passOf s.words.gen, f,
      st.chunkIndexCeil need⟩ .early
  else { s with writer := .stage len .early }

/-- `retention_prepare`, half a chunk of runway ahead of the fill. -/
def earlyAdvance (st : Stripe) (s : StripeState) (len : Nat) : StripeState :=
  let f := st.frontierOf s.words.gen
  let need := s.words.cursor + roundUp8 len
  let half := st.chunkSize / 2
  if f < st.chunks ∧ st.frontierRelOf f - need < half then
    advanceFrontier s ⟨.early, len, st.passOf s.words.gen, f,
      st.chunkIndexCeil (need + half)⟩ .reserve
  else { s with writer := .stage len .reserve }

def kTailFillPage : Nat := 4096

def kTailFillAboveBytes : Nat := 65536

/-- The tail fill of a large document: up to the next page of the file, but
not past the data area or the clean runway. -/
def tailFillEnd (st : Stripe) (cfg : LeaseConfig) (gen newWritePos size : Nat) :
    Nat :=
  if cfg.fillTail ∧ size > kTailFillAboveBytes then
    let page := (st.offset + newWritePos + kTailFillPage - 1) / kTailFillPage
      * kTailFillPage - st.offset
    let fillEnd := min page st.size
    let fillEnd :=
      if st.retain then min fillEnd (st.frontierRelOf (st.frontierOf gen))
      else fillEnd
    if fillEnd ≥ newWritePos then fillEnd else 0
  else 0

/-- The grant: the cursor does not move until the fill is done. -/
def reserveSlot (st : Stripe) (cfg : LeaseConfig) (s : StripeState) (len : Nat) :
    StripeState :=
  let newWritePos := s.words.cursor + roundUp8 len
  { s with
    deferredSince := 0
    fills := s.fills + 1
    writer := .filling
      { fill := s.fills + 1
        writeOffset := s.words.cursor
        newWritePos := newWritePos
        len := len
        pass := st.passOf s.words.gen
        fillEnd := tailFillEnd st cfg s.words.gen newWritePos (roundUp8 len) } }

/-- The writer's next access. -/
def writerStep (st : Stripe) (cfg : LeaseConfig) (s : StripeState) :
    Option StripeState :=
  match s.writer with
  | .raise g =>
    some { s.store (.intent kIntentStep) [] with writer := .gateExpiry g }
  | .gateExpiry g =>
    some { s with writer := .gateCounts g s.expiry (gateSlots cfg g) 0 }
  | .gateCounts g expiry ((sh, c) :: todo) sum =>
    some { s with
      writer := .gateCounts g expiry todo (sum + (s.slots sh c).count) }
  | .gateCounts g expiry [] sum =>
    some { s with writer := .gateClock g expiry sum }
  | .gateClock g expiry sum => some (leaseGate st cfg s g expiry sum)
  | .lower g => some { s.store (.intent 0) [] with writer := gateDeferred g }
  | .stores len (w :: todo) next =>
    some { s.store w todo with writer := .stores len todo next }
  | .stores len [] next => some { s with writer := .stage len next }
  | .stage len .mandatory => some (mandatoryAdvance st s len)
  | .stage len .early => some (earlyAdvance st s len)
  | .stage len .reserve => some (reserveSlot st cfg s len)
  | .rest | .filling _ => none

/-- Part of a fill reaches the file. -/
def fillBytes (s : StripeState) (slot : WriteSlot) (a b : Nat) : StripeState :=
  { s with bytes := fun x =>
      if a ≤ x ∧ x < b then (slot.fill, slot.pass) else s.bytes x }

/-- Every byte of the slot's document is on file. -/
def filled (s : StripeState) (slot : WriteSlot) : Bool :=
  (List.range slot.len).all fun i =>
    s.bytes (slot.writeOffset + i) == (slot.fill, slot.pass)

/-- `commit_write_slot`: the cursor moves past a completed fill only. -/
def commitWriteSlot (s : StripeState) (slot : WriteSlot) (fillOk : Bool) :
    StripeState :=
  if fillOk then
    { s with
      words := { s.words with cursor := slot.newWritePos }
      docs := slot.doc :: s.docs
      writer := .rest }
  else { s with writer := .rest }

/-! ## The readers -/

def StripeState.setReader (s : StripeState) (r : Nat) (pc : ReaderPc) :
    StripeState :=
  { s with readers := update s.readers r pc }

def StripeState.setSlot (s : StripeState) (sh c : Nat) (slot : BorrowSlot) :
    StripeState :=
  { s with
    slots := update s.slots sh (update (s.slots sh) c slot) }

/-- The bytes at `d.start` are the header that `d`'s fill wrote there. -/
def headerIntact (s : StripeState) (d : Doc) : Bool :=
  (List.range kHeaderSize).all fun i => s.bytes (d.start + i) == (d.fill, d.pass)

/-- Map the document at an admitted position and admit it. -/
def mapDocument (st : Stripe) (s : StripeState) (r : Nat) (snap : StripeSnapshot)
    (cls : AdmitClass) (d : Doc) : Option StripeState :=
  if d ∈ s.docs ∧ headerIntact s d then
    match st.admitDocument snap cls d.start (d.pass % 2 ^ 32) with
    | none => none
    | some threshold => some (s.setReader r (.located snap cls ⟨d, threshold⟩))
  else none

/-- `acquire_borrow` on the document's chunk. -/
def acquireBorrow (st : Stripe) (s : StripeState) (r sh : Nat) (b : Borrow) :
    StripeState :=
  let c := min (st.chunkOf b.doc.start) (kMaxChunks - 1)
  let (slot, counted) := (s.slots sh c).acquire
  (s.setSlot sh c slot).setReader r
    (.counted b ⟨(s.slots sh c).generation, counted, sh, c⟩)

/-- `stamp_read_lease`: raise the expiry to a full term unless three
quarters of one are left. -/
def stampReadLease (cfg : LeaseConfig) (expiry now : Nat) : Nat :=
  if expiry ≥ now + cfg.leaseT - cfg.leaseT / 4 then expiry
  else max expiry (now + cfg.leaseT)

def releaseBorrow (s : StripeState) (tok : BorrowToken) : StripeState :=
  if tok.counted then
    s.setSlot tok.shard tok.chunk
      ((s.slots tok.shard tok.chunk).release tok.generation)
  else s

/-- The next access of reader `r`. -/
def readerStep (st : Stripe) (cfg : LeaseConfig) (s : StripeState) (r : Nat) :
    Option StripeState :=
  match s.readers r with
  | .snapGen gen =>
    some (s.setReader r (.snapped (st.snapshot gen s.words.cursor)))
  | .counted b tok =>
    some { s.setReader r (.stamped b tok) with
      expiry := stampReadLease cfg s.expiry s.now }
  | .stamped b tok =>
    if s.words.intent = 0 then some (s.setReader r (.intentClear b tok))
    else some (s.setReader r (.discarding b tok))
  | .intentClear b tok =>
    if s.words.gen ≤ b.threshold then some (s.setReader r (.genOk b tok))
    else some (s.setReader r (.discarding b tok))
  | .genOk b tok =>
    if (s.slots tok.shard tok.chunk).generation = tok.generation then
      some { s.setReader r (.valid b tok) with served := b :: s.served }
    else some (s.setReader r (.discarding b tok))
  | .discarding _ tok => some ((releaseBorrow s tok).setReader r .idle)
  | .idle | .snapped _ | .located .. | .valid .. => none

/-- One step of reader `r`: a call begins, a directory entry or a link is
followed, or the next access is made. -/
def readStep (st : Stripe) (cfg : LeaseConfig) (s : StripeState) (r : Nat)
    (act : ReadAct) : Option StripeState :=
  match act, s.readers r with
  | .snapshot, .idle => some (s.setReader r (.snapGen s.words.gen))
  | .probe d entryPhase, .snapped snap =>
    mapDocument st s r snap (st.admitPosition d.start entryPhase snap) d
  | .hop d, .located snap cls b =>
    mapDocument st s r snap (st.admitHop d.start b.doc.start cls snap) d
  | .acquire sh, .located _ _ b =>
    if sh < cfg.shards then some (acquireBorrow st s r sh b) else none
  | .release, .valid _ tok => some ((releaseBorrow s tok).setReader r .idle)
  | .miss, .snapped _ | .miss, .located .. => some (s.setReader r .idle)
  | .step, _ => readerStep st cfg s r
  | _, _ => none

/-- One step of the stripe. -/
def stripeStep (st : Stripe) (cfg : LeaseConfig) (s : StripeState) :
    StripeAct → Option StripeState
  | .tick d => some { s with now := s.now + d }
  | .alloc len =>
    if s.writer = .rest ∧ kHeaderSize ≤ len then
      some (allocateWriteSlot st s len)
    else none
  | .writer => writerStep st cfg s
  | .fill a b =>
    match s.writer with
    | .filling slot =>
      if slot.writeOffset ≤ a ∧ b ≤ slot.fillLimit then
        some (fillBytes s slot a b)
      else none
    | _ => none
  | .commit fillOk =>
    match s.writer with
    | .filling slot =>
      if fillOk = true → filled s slot = true then
        some (commitWriteSlot s slot fillOk)
      else none
    | _ => none
  | .read r act => readStep st cfg s r act

/-! ## Renewals -/

inductive LeaseRenewal where
  | kOk
  | kCopyNow
  | kTorn
  | kLeasesOff
  deriving DecidableEq

/-- `renew_read_lease`, from the words it loads. -/
def renewReadLease (cfg : LeaseConfig) (b : Borrow) (tok : BorrowToken)
    (gen slotGeneration : Nat) : Bool :=
  if cfg.leaseT = 0 then false
  else if gen > b.threshold then false
  else slotGeneration == tok.generation

/-- `renew_read_lease_strict`, from the words it loads. -/
def renewReadLeaseStrict (cfg : LeaseConfig) (b : Borrow) (tok : BorrowToken)
    (intent gen slotGeneration : Nat) : LeaseRenewal :=
  if cfg.leaseT = 0 then .kLeasesOff
  else if gen > b.threshold then .kTorn
  else if slotGeneration ≠ tok.generation then .kTorn
  else if intent ≠ 0 then .kCopyNow
  else .kOk

end CycloneCache.Ref

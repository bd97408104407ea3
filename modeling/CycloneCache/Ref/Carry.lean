import CycloneCache.Ref.Chain
import CycloneCache.Ref.Format

/-!
# Carrying a retained chain forward

A write on a retained chain rewrites the key's other alternates in its own
slot, below the new head. `carryRetainedChain` is the choice and the copy:
the first copy of each id, within a count and a byte cap, copied deepest
first, checked on the copy, and checked once more against the generation
after all copies. `fillSlot` is the slot: the copies and the head, stamped
and linked once the slot is known.

The bytes may change under the copy, so each one finds the file as `file`
has it for its node, or cannot map it; the generation after the copies is
`now`. A length comes from a 32-bit field, so rounding it up does not wrap.
-/

namespace CycloneCache.Ref.Carry

open Lib Format

structure CarrySource where
  rel : Nat
  len : Nat
  id : Nat
  serial : Nat
  deriving DecidableEq

structure CarryPlan where
  bytes : List UInt8
  starts : List Nat
  dropped : Nat

/-! ## The choice -/

/-- The first copy of every id that has not been seen, at most `room` of
them. -/
def candidates : Nat → List Nat → List CarrySource → List CarrySource
  | _, _, [] => []
  | 0, _, _ => []
  | room + 1, seen, src :: chain =>
    if src.id ∈ seen then candidates (room + 1) seen chain
    else src :: candidates room (src.id :: seen) chain

/-- What has been chosen: the places of the kept candidates. -/
structure Choice where
  keep : List Nat
  planned : Nat
  kept : Nat
  dropped : Nat

def kMaxCarried : Nat := kMaxAlternates - 1

def consider (budget : Nat) (st : Choice) (c : CarrySource × Nat) : Choice :=
  let sz := roundUp8 c.1.len
  if st.kept < kMaxCarried ∧ sz ≤ budget - st.planned then
    { st with keep := c.2 :: st.keep, planned := st.planned + sz, kept := st.kept + 1 }
  else { st with dropped := st.dropped + 1 }

/-- The candidates in the order they are considered: the Original, then the
others. -/
def considerOrder (cand : List CarrySource) : List (CarrySource × Nat) :=
  match cand.zipIdx.find? (fun c => c.1.id == kOriginal) with
  | some original => original :: cand.zipIdx.filter (fun c => c.2 != original.2)
  | none => cand.zipIdx

def choose (budget : Nat) (cand : List CarrySource) : Choice :=
  (considerOrder cand).foldl (consider budget) ⟨[], 0, 0, 0⟩

/-! ## The copy -/

/-- The copies so far, each with its start in the bytes and the offset it
was taken from. -/
structure Copying where
  bytes : List UInt8
  copied : List (Nat × Nat)
  dropped : Nat

/-- A copy up to the next word. -/
def padded (copy : List UInt8) : List UInt8 :=
  copy ++ List.replicate (roundUp8 copy.length - copy.length) 0

/-- The checks on a copy. -/
def copyOk (cfg : ChainConfig) (key : CacheKey) (src : CarrySource) (copy : List UInt8) : Bool :=
  let reader := Reader.of copy
  let doc := reader.document
  reader.isServable && doc.len == src.len && doc.alternateId == src.id &&
    doc.writeSerial == (cfg.stripe.passOf cfg.gen - 1) % 2 ^ 32 && doc.fillSerial == src.serial &&
    reader.firstKey == key && doc.verifyChecksum reader.payload

def copyNode (cfg : ChainConfig) (key : CacheKey) (file : CarrySource → Option Memory)
    (st : Copying) (src : CarrySource) : Copying :=
  if src.len < kHeaderSize ∨ !cfg.stripe.inDataArea src.rel ∨
      src.len > cfg.stripe.size - src.rel then
    { st with dropped := st.dropped + 1 }
  else
    match file src with
    | none => { st with dropped := st.dropped + 1 }
    | some m =>
      let copy := readAt m src.rel src.len
      if copyOk cfg key src copy then
        { st with
          bytes := st.bytes ++ padded copy
          copied := st.copied ++ [(st.bytes.length, src.rel)] }
      else { st with dropped := st.dropped + 1 }

/-- A copy whose source the generation has exposed since. -/
def exposed (cfg : ChainConfig) (now rel : Nat) : Bool :=
  now > cfg.stripe.exposureThreshold (cfg.stripe.passOf cfg.gen - 1) rel

/-- Where a copy ends: where the next one starts. -/
def copyEnd (bytes : List UInt8) : List (Nat × Nat) → Nat
  | (next, _) :: _ => next
  | [] => bytes.length

/-- Keep only the unexposed copies. -/
def keepUnexposed (cfg : ChainConfig) (now : Nat) (bytes : List UInt8) :
    List (Nat × Nat) → CarryPlan → CarryPlan
  | [], plan => plan
  | (start, rel) :: rest, plan =>
    if exposed cfg now rel then
      keepUnexposed cfg now bytes rest { plan with dropped := plan.dropped + 1 }
    else
      keepUnexposed cfg now bytes rest { plan with
        starts := plan.starts ++ [plan.bytes.length]
        bytes := plan.bytes ++ (bytes.drop start).take (copyEnd bytes rest - start) }

def carryRetainedChain (cfg : ChainConfig) (key : CacheKey)
    (file : CarrySource → Option Memory) (now : Nat) (chain : List CarrySource)
    (writeId newDocSize : Nat) : CarryPlan :=
  if !cfg.stripe.retain ∨ cfg.stripe.passOf cfg.gen = 0 ∨ chain.isEmpty then ⟨[], [], 0⟩
  else
    let cand := candidates kMaxChainTraversalDepth [writeId] chain
    if cand.isEmpty then ⟨[], [], 0⟩
    else
      let choice := choose (cfg.carryByteBudget newDocSize) cand
      let st := cand.zipIdx.reverse.foldl
        (fun st c => if c.2 ∈ choice.keep then copyNode cfg key file st c.1 else st)
        ⟨[], [], choice.dropped⟩
      if st.copied.any fun c => exposed cfg now c.2 then
        keepUnexposed cfg now st.bytes st.copied ⟨[], [], st.dropped⟩
      else ⟨st.bytes, st.copied.map Prod.fst, st.dropped⟩

/-! ## The slot -/

/-- A store into the bytes from `pos` on. -/
def onSpan (fill : List UInt8) (pos : Nat) (f : List UInt8 → List UInt8) : List UInt8 :=
  fill.take pos ++ f (fill.drop pos)

/-- What `allocate_write_slot` grants, for the bytes of the slot. -/
structure CarrySlot where
  baseRel : Nat
  pass : UInt64
  fillSerial : UInt16

def stampNode (slot : CarrySlot) (node : List UInt8) : List UInt8 :=
  patchFillSerial (patchPassStamp node slot.pass) slot.fillSerial

/-- The link to a node of the slot. -/
def CarrySlot.linkTo (slot : CarrySlot) (start : Nat) : Nat :=
  Document.makeLink (slot.baseRel + start) slot.fillSerial.toNat

def storeNext (next : Nat) (node : List UInt8) : List UInt8 :=
  Patch.apply node (.nextAlternateOffset (.ofNat next))

/-- Stamp and link the carried nodes, each to the one before it. -/
def linkCarried (slot : CarrySlot) : Nat → List Nat → List UInt8 → List UInt8
  | _, [], fill => fill
  | next, start :: starts, fill =>
    linkCarried slot (slot.linkTo start) starts
      (onSpan fill start fun node => storeNext next (stampNode slot node))

/-- The slot of a write that carries: the copies, then the head. -/
def fillSlot (slot : CarrySlot) (carry : CarryPlan) (docData : List UInt8) : List UInt8 :=
  let headPos := if carry.starts.isEmpty then 0 else carry.bytes.length
  let fill := if carry.starts.isEmpty then docData else carry.bytes ++ docData
  let fill := onSpan fill headPos (stampNode slot)
  match carry.starts.getLast? with
  | none => fill
  | some top =>
    onSpan (linkCarried slot 0 carry.starts fill) headPos (storeNext (slot.linkTo top))

end CycloneCache.Ref.Carry

import CycloneCache.Lib.Run
import CycloneCache.Ref.Document

/-!
# Fills of holders that were taken over

A slot is reserved at the cursor, and the cursor moves only when the fill is
committed. A holder of the write lock that stalls over its fill is taken over
in the end, and the next holder reserves at the same cursor; the late bytes
of the first then land where the second has already published. What keeps
them from being served is the fill serial: sixteen bits of the generation of
the acquisition, in every document, entry and link.

The stripe is a map from offsets to the documents that start there. A fill
puts down all the documents of its slot, the copies it carries and the head
above them, and a document it overlaps is gone: torn bytes fail the checksum,
which several processes always verify. One pass is modelled, from a wrap on;
the documents of the pass before lie ahead of the frontier. The lock is its
generation and its owner. Every acquisition and every forced release moves
the generation; a process is taken over between any two of its steps.

Which documents a write links to and which it copies is left open: whatever a
read of its key reaches may be chosen. So is when a bucket drops an entry.

`gen` does not wrap here; what is compared are its low sixteen bits. `writer`
and `target` name acquisitions by the whole number. They and `commits` are
not on disk and no step looks at them.
-/

namespace CycloneCache.Ref.Fills

/-- The low bits of a generation: a token's, and a fill's serial. -/
def serialOf (gen : Nat) : Nat := gen % 2 ^ 16

/-- The document at `offset` that the acquisition `target` filled. -/
structure Link where
  offset : Nat
  serial : Nat
  target : Nat
  deriving DecidableEq

def noLink : Link := ⟨0, 0, 0⟩

/-- A document as its writer has it; `len` is rounded up to words. -/
structure Piece where
  key : CacheKey
  alternateId : Nat
  body : Nat
  len : Nat
  len_pos : 0 < len
  deriving DecidableEq

structure Doc extends Piece where
  fillSerial : Nat
  nextAlternate : Link
  writer : Nat
  deriving DecidableEq

def Doc.linkTo (d : Doc) (offset : Nat) : Link := ⟨offset, d.fillSerial, d.writer⟩

/-- The pieces one after the other, each linked to the one below it. -/
def layout (acq : Nat) : Nat → Link → List Piece → List (Nat × Doc)
  | _, _, [] => []
  | start, below, piece :: pieces =>
    (start, ⟨piece, serialOf acq, below, acq⟩) ::
      layout acq (start + piece.len) ⟨start, serialOf acq, acq⟩ pieces

/-- A reserved range and what is to be written there. The last piece is the
document that is published. -/
structure Slot where
  acq : Nat
  writeOffset : Nat
  fillEnd : Nat
  below : Link
  pieces : List Piece
  deriving DecidableEq

namespace Slot

variable (t : Slot)

def docs : List (Nat × Doc) := layout t.acq t.writeOffset t.below t.pieces

def newWritePos : Nat := t.writeOffset + (t.pieces.map Piece.len).sum

/-- Where the write ends, tail fill included. -/
def stop : Nat := max t.newWritePos t.fillEnd

end Slot

abbrev Memory := Nat → Option Doc

/-- The write of a slot. A document that starts in the range is overwritten,
one that reaches into it is torn. -/
def fill (m : Memory) (t : Slot) : Memory := fun x =>
  if t.stop ≤ x then m x
  else if t.writeOffset ≤ x then (t.docs.find? fun d => d.1 == x).map Prod.snd
  else (m x).filter fun d => x + d.len ≤ t.writeOffset

/-- A directory entry. `current` is its phase: of this pass, or of the one
before. -/
structure Entry extends Link where
  current : Bool

/-- The entry that publishes the head of a slot. -/
def Slot.entry (t : Slot) : Option Entry :=
  t.docs.getLast?.map fun d => ⟨d.2.linkTo d.1, true⟩

/-- How far a write is with its slot. -/
inductive Phase where
  | acquired
  | gated
  | reserved
  | filled
  | validated
  deriving DecidableEq

def Phase.seated : Phase → Bool
  | .acquired | .gated => false
  | .reserved | .filled | .validated => true

def Phase.laid : Phase → Bool
  | .acquired | .gated | .reserved => false
  | .filled | .validated => true

/-- A link to be stored into the header of the document at `offset`. -/
structure Splice where
  offset : Nat
  key : CacheKey
  alternateId : Nat
  newNext : Link
  deriving DecidableEq

/-- The store goes to whatever the offset holds. -/
def Splice.store (sp : Splice) (m : Memory) : Memory :=
  Function.update m sp.offset
    ((m sp.offset).map fun d => { d with nextAlternate := sp.newNext })

inductive Pc where
  | idle
  | planned (below : Link) (pieces : List Piece)
  | writing (phase : Phase) (t : Slot)
  | committed (t : Slot)
  | splicing (sp : Splice)
  | spliceHeld (acq : Nat) (sp : Splice)
  | spliceChecked (acq : Nat) (sp : Splice)
  /-- The hit counts of a document, under the same lock. -/
  | touching (acq : Nat)
  deriving DecidableEq

/-- The acquisition of a write that is not over. -/
def Pc.pending : Pc → Option Nat
  | .writing _ t => some t.acq
  | _ => none

structure State (P : Type) where
  mem : Memory
  dir : List Entry
  cursor : Nat
  frontier : Nat
  gen : Nat
  owner : Option P
  pc : P → Pc
  /-- The slots the cursor was moved for. -/
  commits : List Slot

/-- What a read reaches, and the entry or link that led it there. -/
structure Found where
  current : Bool
  link : Link
  doc : Doc

variable {P : Type}

namespace State

variable (s : State P)

/-- A node of this pass lies behind the cursor, one of the pass before ahead
of the frontier. -/
def admits (current : Bool) (offset : Nat) : Bool :=
  if current then decide (offset < s.cursor) else decide (s.frontier ≤ offset)

/-- `entry_binds` and `bound_by_link`, with the key. -/
def look (key : CacheKey) (current : Bool) (l : Link) : Option Doc :=
  if s.admits current l.offset then
    (s.mem l.offset).filter fun d => d.key == key && d.fillSerial == l.serial
  else none

/-- The document this many hops down a chain. -/
def follow (key : CacheKey) (current : Bool) : Nat → Link → Option Found
  | 0, l => (s.look key current l).map fun d => ⟨current, l, d⟩
  | hops + 1, l =>
    (s.look key current l).bind fun d =>
      if d.nextAlternate.offset = 0 ∨ l.offset ≤ d.nextAlternate.offset then none
      else follow key current hops d.nextAlternate

/-- A read: an entry of the directory and the number of hops from it. -/
def read (key : CacheKey) (path : Nat × Nat) : Option Found :=
  s.dir[path.1]?.bind fun e => s.follow key e.current path.2 e.toLink

/-- The link a plan makes to a document it has read. Only documents of this
pass are linked to. -/
def linkFor (key : CacheKey) (path : Option (Nat × Nat)) : Link :=
  match path.bind (s.read key) with
  | some f => if f.current then f.doc.linkTo f.link.offset else noLink
  | none => noLink

/-- The documents of the pass before that a plan carries forward. -/
def copies (key : CacheKey) (paths : List (Nat × Nat)) : List Piece :=
  paths.filterMap fun path =>
    match s.read key path with
    | some f => if f.current then none else some f.doc.toPiece
    | none => none

/-- `commit_header_rmw`: is the document still the one to be changed? -/
def identityOk (sp : Splice) : Bool :=
  (s.mem sp.offset).any fun d =>
    d.key == sp.key && d.alternateId == sp.alternateId && s.admits true sp.offset

variable [DecidableEq P] (p : P)

def goto (pc : Pc) : State P := { s with pc := Function.update s.pc p pc }

/-- `acquire_write_lock` and `try_acquire_write_lock`. -/
def take (pc : Nat → Pc) : Option (State P) :=
  match s.owner with
  | none => some ({ s with gen := s.gen + 1, owner := some p }.goto p (pc (s.gen + 1)))
  | some _ => none

/-- `revalidate_write_lock` -/
def revalidates (acq : Nat) : Bool :=
  serialOf s.gen == serialOf acq && s.owner == some p

/-- `release_write_lock` -/
def release (acq : Nat) : State P :=
  if s.revalidates p acq then { s with owner := none } else s

end State

variable [DecidableEq P]

/-- The next step of a process. -/
def next (s : State P) (p : P) : Option (State P) :=
  match s.pc p with
  | .idle => none
  | .planned below pieces => s.take p fun acq => .writing .acquired ⟨acq, 0, 0, below, pieces⟩
  | .writing .acquired t =>
    -- The hoisted gate of `allocate_write_slot`: nothing is released.
    if s.revalidates p t.acq then some (s.goto p (.writing .gated t))
    else some (s.goto p .idle)
  | .writing .gated _ => none
  | .writing .reserved t => some ({ s with mem := fill s.mem t }.goto p (.writing .filled t))
  | .writing .filled t =>
    -- `commit_write_slot` looks at the lock, and then stores the cursor.
    if s.revalidates p t.acq then some (s.goto p (.writing .validated t))
    else some (s.goto p .idle)
  | .writing .validated t =>
    some (({ s with cursor := t.newWritePos, commits := t :: s.commits }.release p t.acq).goto p
      (.committed t))
  | .committed t => some ({ s with dir := t.entry.toList ++ s.dir }.goto p .idle)
  | .splicing sp => s.take p fun acq => .spliceHeld acq sp
  | .spliceHeld acq sp =>
    if s.revalidates p acq ∧ s.identityOk sp then some (s.goto p (.spliceChecked acq sp))
    else some ((s.release p acq).goto p .idle)
  | .spliceChecked acq sp =>
    some (({ s with mem := sp.store s.mem }.release p acq).goto p .idle)
  | .touching acq => some ((s.release p acq).goto p .idle)

inductive Act (P : Type) where
  /-- Write `head` over a link, or over copies of retained documents. -/
  | plan (p : P) (head : Piece) (link : Option (Nat × Nat)) (carry : List (Nat × Nat))
  | splice (p : P) (key : CacheKey) (pred : Nat × Nat) (succ : Option (Nat × Nat))
  | touch (p : P)
  | next (p : P)
  | reserve (p : P) (fillEnd : Nat)
  /-- A fill that failed, a lock not waited for, an insert without room. -/
  | giveUp (p : P)
  | recover
  | advance (frontier : Nat)
  | drop (i : Nat)

/-- What a write is going to put into its slot. -/
def State.planned (s : State P) (head : Piece) (link : Option (Nat × Nat))
    (carry : List (Nat × Nat)) : Pc :=
  match s.copies head.key carry with
  | [] => .planned (s.linkFor head.key link) [head]
  | copies => .planned noLink (copies ++ [head])

def step (s : State P) : Act P → Option (State P)
  | .plan p head link carry =>
    match s.pc p with
    | .idle => some (s.goto p (s.planned head link carry))
    | _ => none
  | .splice p key pred succ =>
    match s.pc p, s.read key pred with
    | .idle, some f =>
      if f.current then
        some (s.goto p (.splicing
          ⟨f.link.offset, key, f.doc.alternateId, s.linkFor key succ⟩))
      else none
    | _, _ => none
  | .touch p =>
    match s.pc p with
    | .idle => s.take p .touching
    | _ => none
  | .next p => next s p
  | .reserve p fillEnd =>
    match s.pc p with
    | .writing .gated t =>
      let t' := { t with writeOffset := s.cursor, fillEnd := fillEnd }
      if t'.stop ≤ s.frontier then some (s.goto p (.writing .reserved t')) else none
    | _ => none
  | .giveUp p =>
    match s.pc p with
    | .writing .validated _ => none
    | .writing _ t => some ((s.release p t.acq).goto p .idle)
    | .planned .. | .committed _ | .splicing _ => some (s.goto p .idle)
    | _ => none
  | .recover =>
    match s.owner with
    | some _ => some { s with gen := s.gen + 1, owner := none }
    | none => none
  | .advance frontier => some { s with frontier := max s.frontier frontier }
  | .drop i => some { s with dir := s.dir.eraseIdx i }

/-- Does the step move the generation? -/
def Act.bumps (s : State P) : Act P → Bool
  | .next p =>
    match s.pc p with
    | .planned .. | .splicing _ => true
    | _ => false
  | .touch _ | .recover => true
  | _ => false

end CycloneCache.Ref.Fills

import CycloneCache.Lib.Run

/-!
# The word of a borrow slot

A borrow slot is one word that readers of all processes share: eight bits of
generation above a count of the open borrows. The word has 16 bits in a
process-local shard and 32 in the shared directory, so the number `k` of count
bits is a parameter. `acquire`, `release` and `force_reset` are loops around a
compare-and-exchange that may fail for no reason; what a loop has loaded is all
it knows, and a failed exchange loads again.

A reader keeps the token of its acquire and gives it to one release. Any
thread may make the release. What is called ghost is not in the program and no
step reads it.
-/

namespace CycloneCache.Ref.BorrowWord

open Lib

abbrev Word (k : Nat) := BitVec (k + 8)

section Words

variable {k : Nat}

def kCountMaskOf (k : Nat) : Word k := BitVec.ofNat (k + 8) (2 ^ k - 1)

def generationOf (slot : Word k) : BitVec 8 := (slot >>> k).setWidth 8

def countOf (slot : Word k) : BitVec 32 := (slot &&& kCountMaskOf k).setWidth 32

def packOf (k : Nat) (gen : BitVec 8) (cnt : BitVec 32) : Word k :=
  ((gen.setWidth 64 <<< k) ||| (cnt &&& (kCountMaskOf k).setWidth 32).setWidth 64).setWidth (k + 8)

/-- The count has reached the end of its field. -/
def saturated (slot : Word k) : Bool := countOf slot == (kCountMaskOf k).setWidth 32

end Words

/-- What `acquire` returns. -/
structure Token where
  generation : BitVec 8
  counted : Bool
  /-- Ghost: how many resets there were before. -/
  epoch : Nat
  deriving DecidableEq

/-- What has become of a token. -/
inductive Place where
  | unused
  /-- Its acquire is under way. -/
  | opening
  | held (token : Token)
  /-- Its release is under way. -/
  | closing (token : Token)
  | released (token : Token)
  deriving DecidableEq

/-- Where a thread is, with the word it loaded last. -/
inductive Pc (T : Type) (k : Nat) where
  | idle
  | acquiring (t : T) (cur : Word k)
  | releasing (t : T) (token : Token) (cur : Word k)
  | resetting (cur : Word k)

structure State (P T : Type) (k : Nat) where
  slot : Word k
  tokens : T → Place
  pc : P → Pc T k
  /-- Ghost: how often the slot was reset. -/
  resets : Nat

inductive Act (T : Type) where
  | acquire (t : T)
  | release (t : T)
  | forceReset
  /-- The exchange of the loop the thread is in. -/
  | cas (spurious : Bool)
  deriving DecidableEq

section Steps

variable {P T : Type} [DecidableEq P] [DecidableEq T] {k : Nat}

def State.goto (s : State P T k) (p : P) (pc : Pc T k) : State P T k :=
  { s with pc := Function.update s.pc p pc }

def State.put (s : State P T k) (t : T) (place : Place) : State P T k :=
  { s with tokens := Function.update s.tokens t place }

/-- A round of `acquire` that loaded `cur`: a saturated slot is ridden along. -/
def tryAcquire (s : State P T k) (p : P) (t : T) (cur : Word k) : State P T k :=
  if saturated cur then (s.goto p .idle).put t (.held ⟨generationOf cur, false, s.resets⟩)
  else s.goto p (.acquiring t cur)

/-- A round of `release` that loaded `cur`: nothing is left to drop after a
reset. -/
def tryRelease (s : State P T k) (p : P) (t : T) (token : Token) (cur : Word k) : State P T k :=
  if generationOf cur ≠ token.generation ∨ countOf cur = 0 then
    (s.goto p .idle).put t (.released token)
  else (s.goto p (.releasing t token cur)).put t (.closing token)

/-- A round of `force_reset` that loaded `cur`. -/
def tryReset (s : State P T k) (p : P) (cur : Word k) : State P T k :=
  if countOf cur = 0 then s.goto p .idle else s.goto p (.resetting cur)

/-- The exchange. A failed one leaves the present value in `cur`. -/
def exchange (s : State P T k) (p : P) (spurious : Bool) : Option (State P T k) :=
  match s.pc p with
  | .idle => none
  | .acquiring t cur =>
    some (if s.slot = cur ∧ !spurious then
      { (s.goto p .idle).put t (.held ⟨generationOf cur, true, s.resets⟩) with
        slot := packOf k (generationOf cur) (countOf cur + 1) }
    else tryAcquire s p t s.slot)
  | .releasing t token cur =>
    some (if s.slot = cur ∧ !spurious then
      { (s.goto p .idle).put t (.released token) with
        slot := packOf k token.generation (countOf cur - 1) }
    else tryRelease s p t token s.slot)
  | .resetting cur =>
    some (if s.slot = cur ∧ !spurious then
      { s.goto p .idle with
        slot := packOf k (generationOf cur + 1) 0
        resets := s.resets + 1 }
    else tryReset s p s.slot)

def step (s : State P T k) : P × Act T → Option (State P T k)
  | (p, .acquire t) =>
    match s.pc p, s.tokens t with
    | .idle, .unused => some (tryAcquire (s.put t .opening) p t s.slot)
    | _, _ => none
  | (p, .release t) =>
    match s.pc p, s.tokens t with
    | .idle, .held token =>
      -- `release_borrow` returns at once for a borrow that was not counted
      some (if !token.counted then s.put t (.released token)
        else tryRelease s p t token s.slot)
    | _, _ => none
  | (p, .forceReset) =>
    match s.pc p with
    | .idle => some (tryReset s p s.slot)
    | _ => none
  | (p, .cas spurious) => exchange s p spurious

/-- A slot that nobody has borrowed. -/
def State.fresh (P T : Type) (k : Nat) (generation : BitVec 8) : State P T k where
  slot := packOf k generation 0
  tokens := fun _ => .unused
  pc := fun _ => .idle
  resets := 0

/-- The token whose release the step belongs to. -/
def releaseOf (s : State P T k) : P × Act T → Option Token
  | (_, .release t) =>
    match s.tokens t with
    | .held token => some token
    | _ => none
  | (p, .cas _) =>
    match s.pc p with
    | .releasing _ token _ => some token
    | _ => none
  | _ => none

/-- The count is below saturation, and a release runs fewer than 256 resets
after its acquire. -/
def Bounded (s : State P T k) (l : P × Act T) : Prop :=
  saturated s.slot = false ∧ ∀ token, releaseOf s l = some token → s.resets < token.epoch + 256

/-- The token was acquired after so many resets and is not released yet. -/
def Place.OpenIn (epoch : Nat) : Place → Prop
  | .held token | .closing token => token.epoch = epoch
  | _ => False

end Steps

end CycloneCache.Ref.BorrowWord

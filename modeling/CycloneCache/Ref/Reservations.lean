import CycloneCache.Ref.VolumeWrite

/-!
# Reservations

Where the next document goes is remembered twice: every process has its own
`write_pos`, and a mapped directory has `shared_write_pos`, which survives in
the file. Both are offsets in the file. An open seats the local cursor by the
shared one, an allocation under the write lock adopts the shared one again,
and only a complete fill or a wrap stores it.

The lock is held from the allocation to the commit of its slot, so one slot
is out at a time. Without a mapped directory there is one process, its own
cursor is the one readers see, and the mutex of the stripe does what the lock
does. A document is at least its fixed header long.

`granted`, `filled` and `wraps` record the run; no step reads them.
-/

namespace CycloneCache.Ref.Volume

open Function

/-- A slot and the generation word it was granted under. -/
structure Grant where
  slot : Slot
  gen : Nat

/-- A stripe and the cursors of the processes that write it. -/
structure Reservations where
  /-- Its `cursor` is the one the last allocation worked with. -/
  vol : State
  writePos : Nat → Nat
  sharedWritePos : Nat
  /-- The slot that is out, and whose it is. -/
  held : Option (Nat × Slot)
  granted : List Grant
  /-- The slots committed with a complete fill, the last one first. -/
  filled : List Slot
  /-- `record_wrap` -/
  wraps : Nat

namespace Env

variable (env : Env)

def dataOffset : Nat := env.stripe.offset + env.stripe.dataStart

/-- `data_area_end` -/
def areaEnd : Nat := env.stripe.offset + env.stripe.size

/-- The cursor `init_stripes` seats from the persisted one. -/
def seatCursor (saved : Nat) : Nat :=
  if saved > 0 ∧ saved ≥ env.dataOffset ∧ saved ≤ env.areaEnd ∧ saved % 8 = 0 then saved
  else env.dataOffset

/-- The cursor an allocation works with: the shared one where it is in
bounds. -/
def adoptCursor (s : Reservations) (p : Nat) : Nat :=
  if env.mmapDirectory ∧ s.sharedWritePos ≥ env.dataOffset ∧ s.sharedWritePos ≤ env.areaEnd then
    s.sharedWritePos
  else s.writePos p

/-- `guard_cursor`: the cursor readers compare with. -/
def guardCursor (s : Reservations) : Nat :=
  if env.mmapDirectory then s.sharedWritePos else s.writePos 0

/-- Does an allocation of `size` bytes wrap? -/
def allocationWraps (s : State) (size : Nat) (gates : Gates) : Bool :=
  size ≤ env.stripe.size - env.stripe.dataStart && size > env.stripe.size - s.cursor &&
    (env.stripe.retain || gates.wrap)

end Env

/-- A volume that opens on a directory with this persisted cursor and
generation word, as every process sees it that does not open it alone. -/
def Reservations.opened (env : Env) (saved gen : Nat) : Reservations where
  vol := { State.fresh env (fun _ => 0) with gen := gen }
  writePos := fun _ => env.seatCursor saved
  sharedWritePos := saved
  held := none
  granted := []
  filled := []
  wraps := 0

/-- A new directory is zeroed. -/
def Reservations.fresh (env : Env) : Reservations := .opened env 0 0

inductive ReserveAct where
  | openShared (p : Nat)
  | allocate (p len : Nat) (gates : Gates)
  | commit (fillOk : Bool)

/-- `allocate_write_slot` with the cursors it loads and stores. -/
def Env.reserve (env : Env) (s : Reservations) (p len : Nat) (gates : Gates) : Reservations :=
  let vol := { s.vol with cursor := env.adoptCursor s p - env.stripe.offset }
  let (vol', res) := env.allocateWriteSlot vol len gates
  let wrapped := env.allocationWraps vol (roundUp8 len) gates
  let s' := { s with
    vol := vol'
    writePos := update s.writePos p (env.stripe.offset + vol'.cursor)
    sharedWritePos :=
      if wrapped && env.mmapDirectory then env.dataOffset else s.sharedWritePos
    wraps := if wrapped then s.wraps + 1 else s.wraps }
  match res with
  | .error _ => s'
  | .ok slot =>
    { s' with held := some (p, slot), granted := ⟨slot, vol'.gen⟩ :: s.granted }

/-- `commit_write_slot` -/
def Env.commitSlot (env : Env) (s : Reservations) (p : Nat) (slot : Slot) (fillOk : Bool) :
    Reservations :=
  if fillOk then
    { s with
      writePos := update s.writePos p (env.stripe.offset + slot.newWritePos)
      sharedWritePos :=
        if env.mmapDirectory then env.stripe.offset + slot.newWritePos else s.sharedWritePos
      held := none
      filled := slot :: s.filled }
  else { s with held := none }

/-- One call of a process. -/
def Env.reserveStep (env : Env) (s : Reservations) : ReserveAct → Option Reservations
  | .openShared p =>
    if env.mmapDirectory ∧ s.held.all fun h => h.1 ≠ p then
      some { s with
        writePos := update s.writePos p (env.seatCursor s.sharedWritePos) }
    else none
  | .allocate p len gates =>
    if s.held.isNone ∧ (env.mmapDirectory ∨ p = 0) ∧ kHeaderSize ≤ len then
      some (env.reserve s p len gates)
    else none
  | .commit fillOk =>
    match s.held with
    | none => none
    | some (p, slot) => some (env.commitSlot s p slot fillOk)

end CycloneCache.Ref.Volume

import CycloneCache.Lib.Crash
import CycloneCache.Ref.Stripe

/-!
# The stores of a wrap

Moving a stripe to its next pass, or its frontier to a later chunk, takes
several stores to shared words, made one at a time in a fixed order inside a
window that the wrap-intent word marks. The three sequences are here as
lists, next to the repair that a process runs when it finds the writer dead
in the middle of one.

The intent word says how far the writer was committed: `kIntentStep` while
nothing irreversible has happened, and one of two wrap values, which carry
the parity of the pass the wrap leads to, from just before the cursor drops.
-/

namespace CycloneCache.Ref

open Lib

def kIntentStep : Nat := 1

def kIntentWrapEven : Nat := 2

def kIntentWrapOdd : Nat := 3

/-- The words of the shared header that a wrap or an advance moves. -/
structure Words where
  intent : Nat
  cursor : Nat
  phase : Bool
  gen : Nat
  deriving DecidableEq

inductive Store where
  | intent (v : Nat)
  | cursor (v : Nat)
  | phase (b : Bool)
  | gen (v : Nat)
  deriving DecidableEq

def Words.put (w : Words) : Store → Words
  | .intent v => { w with intent := v }
  | .cursor v => { w with cursor := v }
  | .phase b => { w with phase := b }
  | .gen v => { w with gen := v }

/-- `mark_wrap_committed`: the intent value names the target's parity. -/
def committedIntent (newPass : Nat) : Nat :=
  if newPass % 2 = 1 then kIntentWrapOdd else kIntentWrapEven

namespace Stripe

variable (st : Stripe)

/-- Where a wrap leaves the frontier: at the start with retention, past the
last chunk without. -/
def wrapFrontier : Nat := if st.retain then 0 else st.chunks

/-- The stores of a wrap from `pass`, once it is decided. -/
def commitStores (pass : Nat) : List Store :=
  [.intent (committedIntent (pass + 1)), .cursor st.dataStart,
    .phase (phaseOf (pass + 1)), .gen (st.genOf (pass + 1) st.wrapFrontier),
    .intent 0]

/-- A flush wrap raises the intent before its gate and is decided after. -/
def flushWrapStores (pass : Nat) : List Store :=
  .intent kIntentStep :: st.commitStores pass

/-- A retention wrap has no gate. -/
def retentionWrapStores (pass : Nat) : List Store := st.commitStores pass

/-- `advance_frontier`, its gate passed. -/
def advanceStores (pass upTo : Nat) : List Store :=
  [.intent kIntentStep, .gen (st.genOf pass upTo), .intent 0]

/-- A wrap or an advance that its gate turns away. -/
def deferredStores : List Store := [.intent kIntentStep, .intent 0]

/-- `repair_wrap_state`, as the stores it makes on the words it finds. A
committed wrap is completed in the writer's own order, and the parity tells
whether the generation was already stored. The phase is re-derived and the
intent cleared last. -/
def repairWrapState (w : Words) : List Store :=
  if w.intent = kIntentWrapEven ∨ w.intent = kIntentWrapOdd then
    let targetParity := if w.intent = kIntentWrapOdd then 1 else 0
    if st.passOf w.gen % 2 ≠ targetParity then
      [.cursor st.dataStart, .phase (phaseOf (st.passOf w.gen + 1)),
        .gen (st.genOf (st.passOf w.gen + 1) st.wrapFrontier),
        .phase (phaseOf (st.passOf w.gen + 1)), .intent 0]
    else
      [.cursor st.dataStart, .phase (phaseOf (st.passOf w.gen)), .intent 0]
  else [.phase (phaseOf (st.passOf w.gen)), .intent 0]

end Stripe

end CycloneCache.Ref

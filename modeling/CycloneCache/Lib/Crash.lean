import Mathlib.Tactic

/-!
# Stores, crashes and recoveries

A writer that changes several shared words one store at a time can die
between any two of them. A recovery looks at the words it finds, plans a
list of stores of its own, and can die inside that list as well, to be
started afresh by the next one. This file has the two notions, a crash
inside a list of stores and a sequence of crashed recoveries, and the rule
for them: a set of states that no cut-short recovery leaves, and from which
a complete one always reaches the goal.
-/

namespace CycloneCache.Lib

universe u v

variable {S : Type u} {W : Type v}

/-- The state after a list of stores. -/
def applyAll (put : S → W → S) (s : S) (ws : List W) : S := ws.foldl put s

/-- A recovery that dies after `j` of its stores. -/
def cutRecovery (put : S → W → S) (plan : S → List W) (s : S) (j : Nat) : S :=
  applyAll put s ((plan s).take j)

/-- Recoveries that each die somewhere, one after the other. -/
def cutRecoveries (put : S → W → S) (plan : S → List W) (s : S)
    (js : List Nat) : S :=
  js.foldl (cutRecovery put plan) s

/-- A recovery that gets through. -/
def recovered (put : S → W → S) (plan : S → List W) (s : S) : S :=
  applyAll put s (plan s)

/-- States that cut-short recoveries do not leave and complete ones take to
`goal`: however often the recovery dies, it ends at `goal`. -/
theorem recovered_eq {put : S → W → S} {plan : S → List W} {C : S → Prop} {goal : S}
    (hstay : ∀ s, C s → ∀ j, C (cutRecovery put plan s j))
    (hdone : ∀ s, C s → recovered put plan s = goal) {s : S} (hs : C s) (js : List Nat) :
    recovered put plan (cutRecoveries put plan s js) = goal := by
  induction js generalizing s with
  | nil => exact hdone s hs
  | cons j js ih => exact ih (hstay s hs j)

end CycloneCache.Lib

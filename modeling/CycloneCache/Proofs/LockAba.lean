import CycloneCache.Proofs.LockMoves

namespace CycloneCache.Ref

open Lib Function

def IsToken (v : Nat) : Prop := 1 ≤ v ∧ v ≤ 253

theorem tokenOf_isToken (slot : Option Nat) (generation : Nat) :
    IsToken (tokenOf slot generation) := by
  cases slot with
  | none =>
    simp only [tokenOf, lockToken, IsToken]
    omega
  | some sl =>
    simp only [tokenOf, slotLockToken, kTokenRing, IsToken]
    omega

theorem recoveryClaim_not_isToken (observed : Nat) : ¬ IsToken (recoveryClaim observed) := by
  by_cases h : observed = kLockRecoveringA
  · rw [recoveryClaim, if_pos h]
    simp [IsToken, kLockRecoveringB]
  · rw [recoveryClaim, if_neg h]
    simp [IsToken, kLockRecoveringA]

inductive MarkKind where
  /-- It stored the value itself and has not released it. -/
  | held
  /-- It saw the value and may recover the lock from it. -/
  | watched

def mark (k : MarkKind) (pc : LockPc) : Option (Nat × Option Nat) :=
  match k with
  | .held => pc.live.map fun (acq, v) => (v, some acq)
  | .watched => pc.watch

def storedToken (slots : Nat → Option Nat) (s : LockState) (p : Nat) : Option Nat :=
  match s.pc p with
  | .sampled expect =>
    if s.byte = 0 then some (tokenOf (slots p) expect) else none
  | .claimed _ held generation _ =>
    if s.byte = held ∧ tokenOf (slots p) generation ≠ held then
      some (tokenOf (slots p) generation)
    else none
  | _ => none

def Unaliased (slots : Nat → Option Nat) (k : MarkKind) (s : LockState)
    (l : Nat × LockAct) : Prop :=
  ∀ v, storedToken slots s l.1 = some v →
    ∀ q, q ≠ l.1 → ∀ w acq, mark k (s.pc q) = some (w, acq) → w ≠ v

structure MarkInv (k : MarkKind) (s : LockState) : Prop where
  tied : ∀ q v acq, mark k (s.pc q) = some (v, acq) → s.byte = v → s.holder = acq
  token : ∀ q v acq, mark k (s.pc q) = some (v, acq) → ¬ IsToken v → acq = none
  holder : ¬ IsToken s.byte → s.holder = none

theorem markInv_fresh (k : MarkKind) (gen₀ : Nat) : MarkInv k (LockState.fresh gen₀) := by
  constructor
  · intro q v acq h
    cases k <;> cases h
  · intro q v acq h
    cases k <;> cases h
  · intro _
    rfl

variable {k : MarkKind} {p : Nat} {s s' : LockState} {slots : Nat → Option Nat}

theorem mark_inherits {slot : Option Nat} {old new : LockPc} (h : old.Inherits slot new) :
    mark k new = none ∨ mark k new = mark k old := by
  cases k with
  | held =>
    simp only [mark]
    rcases h.live with h | h <;> rw [h]
    · exact .inl rfl
    · exact .inr rfl
  | watched => exact h.watch

section

variable (h : LockMove slots s p s')
include h

theorem LockMove.byte_cases :
    (s'.byte = s.byte ∧ s'.holder = s.holder) ∨ (¬ IsToken s'.byte ∧ s'.holder = none) ∨
      (storedToken slots s p = some s'.byte ∧ IsToken s'.byte) := by
  cases h with
  | stay | observe | claim | grant | recBump | recOwner | relOwner | relMiss =>
    exact .inl ⟨rfl, rfl⟩
  | win expect hpc hfree =>
    refine .inr (.inr ⟨?_, tokenOf_isToken _ _⟩)
    simp only [storedToken, hpc, hfree, if_true]
  | fix acq held generation claim hpc hne hbyte =>
    refine .inr (.inr ⟨?_, tokenOf_isToken _ _⟩)
    simp only [storedToken, hpc]
    rw [if_pos ⟨hbyte, hne⟩]
  | recCas stuck seen hpc hbyte =>
    exact .inr (.inl ⟨recoveryClaim_not_isToken stuck, rfl⟩)
  | recFree | relByte =>
    exact .inr (.inl ⟨by simp [IsToken], rfl⟩)

theorem LockMove.mark_cases {q v : Nat} {acq : Option Nat} (hm : mark k (s'.pc q) = some (v, acq)) :
    (v = s'.byte ∧ acq = s'.holder) ∨ (mark k (s.pc q) = some (v, acq) ∧
        (q ≠ p ∨ (s'.byte = s.byte ∧ s'.holder = s.holder))) := by
  by_cases hq : q = p
  case neg =>
    rw [h.pc_other hq] at hm
    exact .inr ⟨hm, .inl hq⟩
  subst hq
  cases h with
  | stay pc hpc =>
    simp only [LockState.goto, update_self] at hm
    rcases mark_inherits hpc with hn | ho
    · rw [hn] at hm; cases hm
    · rw [ho] at hm; exact .inr ⟨hm, .inr ⟨rfl, rfl⟩⟩
  | observe | win | fix =>
    simp only [LockState.goto, update_self] at hm
    cases k <;> cases hm
    exact .inl ⟨rfl, rfl⟩
  | claim acq' held afterCas pc hpc hnew =>
    simp only [LockState.goto, update_self] at hm
    rcases hnew with rfl | rfl <;> cases k <;> cases hm
    exact .inr ⟨by rw [hpc]; rfl, .inr ⟨rfl, rfl⟩⟩
  | grant acq' tok claim hpc =>
    simp only [storeOwner, LockState.goto, update_self] at hm
    cases k <;> cases hm
    exact .inr ⟨by rw [hpc]; rfl, .inr ⟨rfl, rfl⟩⟩
  | relOwner acq' tok owner hpc =>
    simp only [LockState.goto, update_self] at hm
    cases k <;> cases hm
    exact .inr ⟨by rw [hpc]; rfl, .inr ⟨rfl, rfl⟩⟩
  | recCas | recBump | recOwner | recFree | relMiss | relByte =>
    simp only [recoverBump, LockState.goto, update_self] at hm
    cases k <;> cases hm

theorem LockMove.markInv {act : LockAct} (hok : Unaliased slots k s (p, act)) (hi : MarkInv k s) :
    MarkInv k s' := by
  have hholder : ¬ IsToken s'.byte → s'.holder = none := by
    intro hb
    rcases h.byte_cases with ⟨hbyte, heq⟩ | ⟨-, hnone⟩ | ⟨-, htok⟩
    · rw [heq]; exact hi.holder (hbyte ▸ hb)
    · exact hnone
    · exact absurd htok hb
  constructor
  · intro q v acq hm hv
    rcases h.mark_cases hm with ⟨-, hacq⟩ | ⟨hold, hq | ⟨hbyte, heq⟩⟩
    · exact hacq.symm
    · rcases h.byte_cases with ⟨hbyte, heq⟩ | ⟨hnot, hnone⟩ | ⟨hst, -⟩
      · rw [heq]; exact hi.tied q v acq hold (hbyte ▸ hv)
      · rw [hnone, hi.token q v acq hold (hv ▸ hnot)]
      · exact absurd hv.symm (hok s'.byte hst q hq v acq hold)
    · rw [heq]; exact hi.tied q v acq hold (hbyte ▸ hv)
  · intro q v acq hm hv
    rcases h.mark_cases hm with ⟨rfl, rfl⟩ | ⟨hold, -⟩
    · exact hholder hv
    · exact hi.token q v acq hold hv
  · exact hholder

end

theorem markInv_run {gen₀ : Nat} {ls : List (Nat × LockAct)}
    (hok : StepsOk (lockStep slots) (Unaliased slots k) (LockState.fresh gen₀) ls)
    (h : runs (lockStep slots) (LockState.fresh gen₀) ls = some s) : MarkInv k s :=
  runs_inv_of_ok (fun _ _ _ hi hl hs => (lockStep_move hs).markInv hl hi) hok h
    (markInv_fresh k gen₀)

def unaliasedCheck (n : Nat) (slots : Nat → Option Nat) (k : MarkKind)
    (s : LockState) (l : Nat × LockAct) : Bool :=
  decide (l.1 < n) && match storedToken slots s l.1 with
    | none => true
    | some v => (List.range n).all fun q => q == l.1 || (mark k (s.pc q)).all fun m => m.1 != v

theorem mark_idle (k : MarkKind) : mark k .idle = none := by
  cases k <;> rfl

theorem unaliased_of_check {n : Nat} {l : Nat × LockAct} (hidle : ∀ q, n ≤ q → s.pc q = .idle)
    (h : unaliasedCheck n slots k s l = true) : Unaliased slots k s l := by
  intro v hv q hq w acq hm
  simp only [unaliasedCheck, hv, Bool.and_eq_true, List.all_eq_true,
    List.mem_range, Bool.or_eq_true, beq_iff_eq] at h
  by_cases hn : n ≤ q
  · rw [hidle q hn, mark_idle] at hm
    cases hm
  · rcases h.2 q (Nat.lt_of_not_le hn) with heq | hall
    · exact absurd heq hq
    · rw [hm] at hall
      simpa using hall

theorem stepsOk_of_unaliasedCheck {n gen₀ : Nat} {ls : List (Nat × LockAct)}
    (h : stepsCheck (lockStep slots) (unaliasedCheck n slots k) (LockState.fresh gen₀) ls = true) :
    StepsOk (lockStep slots) (Unaliased slots k) (LockState.fresh gen₀) ls := by
  refine stepsOk_of_check (fun s l => unaliased_of_check) ?_ (fun q _ => rfl) h
  intro s l s' hidle hl hs q hq
  have hlt : l.1 < n := by
    simp only [unaliasedCheck, Bool.and_eq_true, decide_eq_true_eq] at hl
    exact hl.1
  rw [(lockStep_move hs).pc_other (by omega)]
  exact hidle q hq

def LockPc.releasing : LockPc → Option Nat
  | .revGen acq _ true _ | .revHeld acq _ true _ => some acq
  | .relOwner acq _ | .relByte acq _ => some acq
  | _ => none

theorem release_byte_cases {acq : Nat} (hrel : (s.pc p).releasing = some acq)
    (hs : lockStep slots s (p, .step) = some s') :
    s'.byte = s.byte ∨ ∃ tok, s.pc p = .relByte acq tok ∧ s.byte = tok.value := by
  simp only [lockStep, lockAccess] at hs
  cases hpc : s.pc p with
  | relByte a tok =>
    rw [hpc] at hrel hs
    cases hrel
    cases hs
    simp only [releaseByte]
    split
    · next hbyte => exact .inr ⟨tok, rfl, hbyte⟩
    · exact .inl rfl
  | relOwner | revGen =>
    rw [hpc] at hs
    cases hs
    exact .inl rfl
  | revHeld a tok releasing ok =>
    rw [hpc] at hs
    cases hs
    simp only [revalidateDone]
    split
    · split <;> exact .inl rfl
    · exact .inl rfl
  | idle | sampled | won | reread | claimLost | claimed | taken | lost
  | seenGen | seenOwner | recChecked | recClaimed | recBumped | recCleared
  | holding =>
    rw [hpc] at hrel
    cases hrel

/-- In a run whose acquisitions never store a value that another process
still holds, a release leaves the byte alone while another acquisition holds
the lock, whatever recoveries fell into it. -/
theorem lateRelease_keeps_byte {slots : Nat → Option Nat} {gen₀ : Nat}
    {s s' : LockState} {ls : List (Nat × LockAct)} {p acq other : Nat}
    (hok : StepsOk (lockStep slots) (Unaliased slots .held) (LockState.fresh gen₀) ls)
    (hrun : runs (lockStep slots) (LockState.fresh gen₀) ls = some s)
    (hrel : (s.pc p).releasing = some acq) (hholder : s.holder = some other)
    (hne : other ≠ acq) (hs : lockStep slots s (p, .step) = some s') :
    s'.byte = s.byte := by
  rcases release_byte_cases hrel hs with h | ⟨tok, hpc, hbyte⟩
  · exact h
  · have hmark : mark .held (s.pc p) = some (tok.value, some acq) := by
      rw [hpc]; rfl
    have hown := (markInv_run hok hrun).tied p _ _ hmark hbyte
    rw [hholder] at hown
    exact absurd (Option.some.inj hown) hne

def collidingSlots : Nat → Option Nat
  | 0 => some 2
  | 1 => some 0
  | n + 2 => some (n + 5)

def lateReleaseRun : List (Nat × LockAct) :=
  (0, .acquire) :: List.replicate 5 (0, .step) ++
  (0, .release) :: List.replicate 3 (0, .step) ++
  (2, .acquire) :: List.replicate 3 (2, .step) ++
  (2, .recover) :: List.replicate 4 (2, .step) ++
  (1, .acquire) :: List.replicate 5 (1, .step)

theorem collidingSlots_injective : Injective collidingSlots := by
  intro p q h
  match p, q with
  | 0, 0 | 1, 1 => rfl
  | 0, 1 | 1, 0 | 0, n + 2 | 1, n + 2 | n + 2, 0 | n + 2, 1 => simp [collidingSlots] at h
  | n + 2, m + 2 => simpa [collidingSlots] using h

/-- With distinct slots, and two bumps after process 0's token, its late CAS
frees the lock that process 1 holds: generation 3 in slot 0 and generation 1
in slot 2 are both token 5. -/
theorem lateRelease_frees_usurper : Function.Injective collidingSlots ∧ ∃ s s',
      runs (lockStep collidingSlots) (LockState.fresh 0) lateReleaseRun = some s ∧
      s.grants = [⟨1, ⟨3, 5⟩, 1, 3⟩, ⟨0, ⟨1, 5⟩, 0, 1⟩] ∧
      s.bumps < 1 + 253 ∧ (0, 2) ∈ s.recovered ∧
      (s.pc 0).releasing = some 0 ∧ s.holder = some 1 ∧
      lockStep collidingSlots s (0, .step) = some s' ∧ s'.byte ≠ s.byte := by
  obtain ⟨s, hrun, hgrants, hbumps, hrec, hrel, hholder, s', hs⟩ : ∃ s, runs (lockStep
      collidingSlots) (LockState.fresh 0) lateReleaseRun = some s ∧ s.grants = [⟨1, ⟨3, 5⟩, 1, 3⟩,
      ⟨0, ⟨1, 5⟩, 0, 1⟩] ∧ s.bumps < 1 + 253 ∧ (0, 2) ∈ s.recovered ∧ (s.pc 0).releasing = some 0 ∧
      s.holder = some 1 ∧ ∃ s', lockStep collidingSlots s (0, .step) = some s' ∧
        s'.byte ≠ s.byte := by decide +kernel
  exact ⟨collidingSlots_injective, s, s', hrun, hgrants, hbumps, hrec, hrel, hholder, hs⟩

/-- The same schedule without liveness slots: the late CAS misses. -/
theorem lateRelease_keeps_byte_plain :
    ∃ s s', runs (lockStep fun _ => none) (LockState.fresh 0) lateReleaseRun = some s ∧
      (s.pc 0).releasing = some 0 ∧ s.holder = some 1 ∧
      lockStep (fun _ => none) s (0, .step) = some s' ∧ s'.byte = s.byte := by
  have hok : StepsOk (lockStep fun _ => none) (Unaliased (fun _ => none) .held)
      (LockState.fresh 0) lateReleaseRun :=
    stepsOk_of_unaliasedCheck (n := 3) (by decide +kernel)
  obtain ⟨s, hrun, hrel, hholder, hsome⟩ : ∃ s, runs (lockStep fun _ => none) (LockState.fresh 0)
      lateReleaseRun = some s ∧ (s.pc 0).releasing = some 0 ∧ s.holder = some 1 ∧ (lockStep (fun _
      => none) s (0, .step)).isSome := by decide +kernel
  obtain ⟨s', hs⟩ := Option.isSome_iff_exists.mp hsome
  exact ⟨s, s', hrun, hrel, hholder, hs,
    lateRelease_keeps_byte hok hrun hrel hholder (by decide) hs⟩

/-- In a run whose acquisitions never store a value that a waiter of another
process has in front of it, a recovery that succeeds takes the lock from the
acquisition the waiter observed, and from no later one. -/
theorem recovery_hits_observed {slots : Nat → Option Nat} {gen₀ : Nat}
    {s s' : LockState} {ls : List (Nat × LockAct)} {p stuck : Nat}
    {seen victim : Option Nat}
    (hok : StepsOk (lockStep slots) (Unaliased slots .watched) (LockState.fresh gen₀) ls)
    (hrun : runs (lockStep slots) (LockState.fresh gen₀) ls = some s)
    (hpc : s.pc p = .recChecked stuck seen)
    (hs : lockStep slots s (p, .step) = some s')
    (hwon : s'.pc p = .recClaimed victim) :
    s.holder = seen ∧ victim = seen := by
  simp only [lockStep, lockAccess, hpc] at hs
  cases hs
  have hmark : mark .watched (s.pc p) = some (stuck, seen) := by rw [hpc]; rfl
  simp only [recoverCas] at hwon
  split at hwon
  · next hbyte =>
    have hown := (markInv_run hok hrun).tied p _ _ hmark hbyte
    simp only [LockState.goto, update_self] at hwon
    injection hwon with hwon
    exact ⟨hown, hwon ▸ hown⟩
  · simp only [LockState.goto, update_self] at hwon
    cases hwon

def staleRecoveryRun : List (Nat × LockAct) :=
  (0, .acquire) :: List.replicate 5 (0, .step) ++
  (2, .acquire) :: List.replicate 3 (2, .step) ++
  (2, .recover) :: (0, .release) :: List.replicate 4 (0, .step) ++
  (1, .acquire) :: List.replicate 5 (1, .step) ++
  (1, .release) :: List.replicate 4 (1, .step) ++
  (1, .acquire) :: List.replicate 5 (1, .step)

/-- Two bumps after the waiter's check its CAS succeeds on a lock that
another acquisition took since. -/
theorem recovery_hits_later_holder : Function.Injective collidingSlots ∧ ∃ s s',
      runs (lockStep collidingSlots) (LockState.fresh 0) staleRecoveryRun = some s ∧
      s.pc 2 = .recChecked 5 (some 0) ∧ s.holder = some 2 ∧
      s.bumps < 1 + 253 ∧
      lockStep collidingSlots s (2, .step) = some s' ∧
      s'.pc 2 = .recClaimed (some 2) := by
  obtain ⟨s, hrun, hpc, hholder, hbumps, s', hs⟩ : ∃ s, runs (lockStep collidingSlots)
      (LockState.fresh 0) staleRecoveryRun = some s ∧ s.pc 2 = .recChecked 5 (some 0) ∧
      s.holder = some 2 ∧ s.bumps < 1 + 253 ∧
      ∃ s', lockStep collidingSlots s (2, .step) = some s' ∧ s'.pc 2 = .recClaimed (some 2) := by
    decide +kernel
  exact ⟨collidingSlots_injective, s, s', hrun, hpc, hholder, hbumps, hs⟩

def giveUpRun : List (Nat × LockAct) :=
  (0, .acquire) :: List.replicate 5 (0, .step) ++
  (2, .acquire) :: List.replicate 3 (2, .step) ++ [(2, .recover)]

theorem recovery_hits_observed_plain :
    ∃ s s', runs (lockStep fun _ => none) (LockState.fresh 0) giveUpRun = some s ∧
      lockStep (fun _ => none) s (2, .step) = some s' ∧
      s'.pc 2 = .recClaimed (some 0) ∧ s.holder = some 0 := by
  have hok : StepsOk (lockStep fun _ => none)
      (Unaliased (fun _ => none) .watched) (LockState.fresh 0) giveUpRun :=
    stepsOk_of_unaliasedCheck (n := 3) (by decide +kernel)
  obtain ⟨s, hrun, hpc, s', hs, hwon⟩ : ∃ s, runs (lockStep fun _ => none) (LockState.fresh 0)
      giveUpRun = some s ∧ s.pc 2 = .recChecked 2 (some 0) ∧
      ∃ s', lockStep (fun _ => none) s (2, .step) = some s' ∧ s'.pc 2 = .recClaimed (some 0) := by
    decide +kernel
  exact ⟨s, s', hrun, hs, hwon, (recovery_hits_observed hok hrun hpc hs hwon).1⟩

end CycloneCache.Ref

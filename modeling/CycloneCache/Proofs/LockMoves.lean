import CycloneCache.Ref.WriteLock

namespace CycloneCache.Ref

open Lib

def LockPc.live : LockPc → Option (Nat × Nat)
  | .won acq held | .reread acq held _ | .claimed acq held _ _ => some (acq, held)
  | .taken acq tok _ | .holding acq tok _ | .revGen acq tok _ _
  | .revHeld acq tok _ _ | .relOwner acq tok | .relByte acq tok => some (acq, tok.value)
  | _ => none

def LockPc.claimAt : LockPc → Option (Nat × Nat × Nat)
  | .claimed acq _ generation claim => some (acq, generation, claim)
  | .taken acq tok claim => some (acq, tok.generation, claim)
  | _ => none

def LockPc.watch : LockPc → Option (Nat × Option Nat)
  | .lost observed seen | .seenGen observed _ seen
  | .seenOwner observed _ _ seen | .recChecked observed seen => some (observed, seen)
  | _ => none

inductive LockStage where
  | rest
  | early (acq held : Nat)
  | granted (acq : Nat) (tok : WriteLockToken)
  | released (acq : Nat) (tok : WriteLockToken)
  | recovering (cleared : Bool)
  deriving DecidableEq

def LockPc.stage : LockPc → LockStage
  | .won acq held | .reread acq held _ | .claimed acq held _ _ => .early acq held
  | .taken acq tok _ => .early acq tok.value
  | .holding acq tok _ | .revGen acq tok _ _ | .revHeld acq tok _ _
  | .relOwner acq tok => .granted acq tok
  | .relByte acq tok => .released acq tok
  | .recClaimed _ | .recBumped => .recovering false
  | .recCleared => .recovering true
  | _ => .rest

def LockPc.answer : LockPc → Option (Nat × WriteLockToken × Bool)
  | .revGen acq tok _ ok | .revHeld acq tok _ ok | .holding acq tok (some ok) => some (acq, tok, ok)
  | _ => none

def LockStage.Droppable : LockStage → Prop
  | .released .. | .recovering _ => False
  | _ => True

structure LockPc.Inherits (slot : Option Nat) (old new : LockPc) : Prop where
  live : new.live = none ∨ new.live = old.live
  claimAt : new.claimAt = none ∨ new.claimAt = old.claimAt
  watch : new.watch = none ∨ new.watch = old.watch
  stage : new.stage = old.stage ∨ (new.stage = .rest ∧ old.stage.Droppable)
  value : ∀ acq tok claim, new = .taken acq tok claim → tok.value = tokenOf slot tok.generation

def KeepsAnswer (s : LockState) (p : Nat) (pc : LockPc) : Prop :=
  ∀ acq tok ok, pc.answer = some (acq, tok, ok) →
    (∀ ok', (s.pc p).answer = some (acq, tok, ok') → ok' = true) →
    revalidateWriteLock s p tok = true → ok = true

inductive LockMove (slots : Nat → Option Nat) (s : LockState) (p : Nat) : LockState → Prop where
  /-- A load, a failed CAS, or a decision. -/
  | stay (pc : LockPc) (h : (s.pc p).Inherits (slots p) pc) (hans : KeepsAnswer s p pc) :
      LockMove slots s p (s.goto p pc)
  /-- The load or failed CAS that shows a waiter its holder. -/
  | observe (h : (s.pc p).stage.Droppable) : LockMove slots s p (s.goto p (.lost s.byte s.holder))
  | win (expect : Nat) (hpc : s.pc p = .sampled expect) (hfree : s.byte = 0) : LockMove slots s p
        { s.goto p (.won s.wins (tokenOf (slots p) expect)) with
          byte := tokenOf (slots p) expect
          holder := some s.wins
          wins := s.wins + 1 }
  | claim (acq held afterCas : Nat) (pc : LockPc) (hpc : s.pc p = .reread acq held afterCas)
      (hnew : pc = .claimLost ∨ pc = .claimed acq held ((s.gen + 1) % genModulus) (s.bumps + 1)) :
      LockMove slots s p { s.goto p pc with
          gen := (s.gen + 1) % genModulus
          bumps := s.bumps + 1
          claims := (acq, s.bumps + 1) :: s.claims }
  | fix (acq held generation claim : Nat) (hpc : s.pc p = .claimed acq held generation claim)
      (hne : tokenOf (slots p) generation ≠ held) (hbyte : s.byte = held) :
      LockMove slots s p { s.goto p (.taken acq ⟨generation, tokenOf (slots p) generation⟩ claim)
          with
          byte := tokenOf (slots p) generation
          holder := some acq }
  | grant (acq : Nat) (tok : WriteLockToken) (claim : Nat) (hpc : s.pc p = .taken acq tok claim) :
      LockMove slots s p (storeOwner s p acq tok claim)
  | recCas (stuck : Nat) (seen : Option Nat)
      (hpc : s.pc p = .recChecked stuck seen) (hbyte : s.byte = stuck) :
      LockMove slots s p { s.goto p (.recClaimed s.holder) with
          byte := recoveryClaim stuck
          holder := none }
  | recBump (victim : Option Nat) (hpc : s.pc p = .recClaimed victim) :
      LockMove slots s p (recoverBump s p victim)
  | recOwner (hpc : s.pc p = .recBumped) :
      LockMove slots s p { s.goto p .recCleared with owner := 0 }
  | recFree (hpc : s.pc p = .recCleared) :
      LockMove slots s p { s.goto p .idle with byte := 0, holder := none }
  | relOwner (acq : Nat) (tok : WriteLockToken) (owner : Nat) (hpc : s.pc p = .relOwner acq tok)
      (howner : owner = if s.owner = selfPid p then 0 else s.owner) :
      LockMove slots s p { s.goto p (.relByte acq tok) with owner := owner }
  /-- The byte CAS of a release fails. -/
  | relMiss (acq : Nat) (tok : WriteLockToken)
      (hpc : s.pc p = .relByte acq tok) (hbyte : s.byte ≠ tok.value) :
      LockMove slots s p (s.goto p .idle)
  | relByte (acq : Nat) (tok : WriteLockToken)
      (hpc : s.pc p = .relByte acq tok) (hbyte : s.byte = tok.value) :
      LockMove slots s p { s.goto p .idle with byte := 0, holder := none }

variable {p : Nat} {s s' : LockState} {slots : Nat → Option Nat}

theorem keepsAnswer_of_none {pc : LockPc} (h : pc.answer = none) : KeepsAnswer s p pc := by
  intro acq tok ok hans
  rw [h] at hans
  cases hans

section

variable {slots : Nat → Option Nat} {s : LockState} {p : Nat}

theorem LockMove.drop {pc : LockPc} (hl : pc.live = none) (hc : pc.claimAt = none)
    (hw : pc.watch = none ∨ pc.watch = (s.pc p).watch) (hs : pc.stage = .rest)
    (ha : pc.answer = none) (hdrop : (s.pc p).stage.Droppable) :
    LockMove slots s p (s.goto p pc) := by
  refine .stay pc ⟨.inl hl, .inl hc, hw, .inr ⟨hs, hdrop⟩, ?_⟩ (keepsAnswer_of_none ha)
  rintro acq tok claim rfl
  cases hc

theorem LockMove.within {pc : LockPc} (hl : pc.live = (s.pc p).live) (hc : pc.claimAt = none)
    (hw : pc.watch = none) (hs : pc.stage = (s.pc p).stage) (hans : KeepsAnswer s p pc) :
    LockMove slots s p (s.goto p pc) := by
  refine .stay pc ⟨.inr hl, .inl hc, .inl hw, .inl hs, ?_⟩ hans
  rintro acq tok claim rfl
  cases hc

end

theorem keepsAnswer_revGen {acq : Nat} {tok : WriteLockToken} {releasing : Bool} :
    KeepsAnswer s p (.revGen acq tok releasing (s.gen == tok.generation)) := by
  intro a t ok hans _ hval
  cases hans
  simp only [revalidateWriteLock, Bool.and_eq_true] at hval
  exact hval.1.1

theorem lockAccess_move (h : lockAccess slots s p = some s') : LockMove slots s p s' := by
  unfold lockAccess at h
  split at h
  case h_1 expect hpc =>
    cases h
    unfold tryTakeCas
    split
    · next hfree => exact .win expect hpc hfree
    · exact .observe (by rw [hpc]; trivial)
  case h_2 acq held hpc =>
    cases h
    exact .within (by rw [hpc]; rfl) rfl rfl (by rw [hpc]; rfl) (keepsAnswer_of_none rfl)
  case h_3 acq held afterCas hpc =>
    cases h
    unfold tryTakeClaim
    simp only []
    split
    · exact .claim acq held afterCas _ hpc (.inr rfl)
    · exact .claim acq held afterCas _ hpc (.inl rfl)
  case h_4 hpc =>
    cases h
    exact .observe (by rw [hpc]; trivial)
  case h_5 acq held generation claim hpc =>
    cases h
    unfold tryTakeFix
    split
    · next heq =>
      refine .stay _ ⟨Or.inr (by rw [hpc]; rfl), .inr (by rw [hpc]; rfl), .inl rfl,
        .inl (by rw [hpc]; rfl), ?_⟩ (keepsAnswer_of_none rfl)
      intro a t c htaken
      cases htaken
      exact heq.symm
    · next hne =>
      split
      · next hbyte => exact .fix acq held generation claim hpc hne hbyte
      · exact .observe (by rw [hpc]; trivial)
  case h_6 acq tok claim hpc =>
    cases h
    exact .grant acq tok claim hpc
  case h_7 observed seen hpc =>
    split at h <;> cases h
    · exact .drop rfl rfl (.inl rfl) rfl rfl (by rw [hpc]; trivial)
    · exact .drop rfl rfl (.inr (by rw [hpc]; rfl)) rfl rfl (by rw [hpc]; trivial)
  case h_8 observed holderGen seen hpc =>
    cases h
    exact .drop rfl rfl (.inr (by rw [hpc]; rfl)) rfl rfl (by rw [hpc]; trivial)
  case h_9 stuck seen hpc =>
    cases h
    unfold recoverCas
    split
    · next hbyte => exact .recCas stuck seen hpc hbyte
    · exact .drop rfl rfl (.inl rfl) rfl rfl (by rw [hpc]; trivial)
  case h_10 victim hpc =>
    cases h
    exact .recBump victim hpc
  case h_11 hpc =>
    cases h
    exact .recOwner hpc
  case h_12 hpc =>
    cases h
    exact .recFree hpc
  case h_13 acq tok releasing ok hpc =>
    cases h
    refine .within (by rw [hpc]; rfl) rfl rfl (by rw [hpc]; rfl) ?_
    intro a t ok' hans hold hval
    cases hans
    have hok := hold ok (by rw [hpc]; rfl)
    simp only [revalidateWriteLock, Bool.and_eq_true] at hval
    rw [hok, hval.1.2, Bool.and_self]
  case h_14 acq tok releasing ok hpc =>
    cases h
    unfold revalidateDone
    simp only []
    split
    · split
      · exact .within (by rw [hpc]; rfl) rfl rfl (by rw [hpc]; rfl) (keepsAnswer_of_none rfl)
      · exact .drop rfl rfl (.inl rfl) rfl rfl (by rw [hpc]; trivial)
    · refine .within (by rw [hpc]; rfl) rfl rfl (by rw [hpc]; rfl) ?_
      intro a t ok' hans hold hval
      cases hans
      have hok := hold ok (by rw [hpc]; rfl)
      simp only [revalidateWriteLock, Bool.and_eq_true] at hval
      rw [hok, hval.2, Bool.and_self]
  case h_15 acq tok hpc =>
    cases h
    exact .relOwner acq tok _ hpc rfl
  case h_16 acq tok hpc =>
    cases h
    unfold releaseByte
    split
    · next hbyte => exact .relByte acq tok hpc hbyte
    · next hbyte => exact .relMiss acq tok hpc hbyte
  all_goals cases h

theorem lockStep_move {l : Nat × LockAct} (h : lockStep slots s l = some s') :
    LockMove slots s l.1 s' := by
  unfold lockStep at h
  simp only [] at h
  split at h
  case h_1 _ hpc | h_2 _ _ _ hpc | h_3 _ _ _ _ _ hpc =>
    cases h
    exact .drop rfl rfl (.inl rfl) rfl rfl (by rw [hpc]; trivial)
  case h_4 observed holderGen holder seen _ hpc =>
    split at h <;> cases h
    · exact .drop rfl rfl (.inr (by rw [hpc]; rfl)) rfl rfl (by rw [hpc]; trivial)
    · exact .drop rfl rfl (.inl rfl) rfl rfl (by rw [hpc]; trivial)
  case h_5 _ _ _ hpc | h_6 _ _ _ _ _ hpc =>
    cases h
    exact .drop rfl rfl (.inl rfl) rfl rfl (by rw [hpc]; trivial)
  case h_7 acq tok verdict _ hpc | h_8 acq tok verdict _ hpc =>
    cases h
    exact .within (by rw [hpc]; rfl) rfl rfl (by rw [hpc]; rfl) keepsAnswer_revGen
  case h_9 _ _ _ _ hpc =>
    cases h
    exact .drop rfl rfl (.inl rfl) rfl rfl (by rw [hpc]; trivial)
  case h_10 => exact lockAccess_move h
  all_goals cases h

theorem LockMove.pc_other {q : Nat} (h : LockMove slots s p s') (hq : q ≠ p) :
    s'.pc q = s.pc q := by
  cases h <;> exact Function.update_of_ne hq _ _

end CycloneCache.Ref

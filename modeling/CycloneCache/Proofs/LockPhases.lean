import CycloneCache.Proofs.LockAba
import CycloneCache.Proofs.LockExclusion

namespace CycloneCache.Ref

open Lib Function

def timely (slots : Nat → Option Nat) (s : LockState) (l : Nat × LockAct) : Bool :=
  match s.pc l.1 with
  | .reread acq _ _ | .taken acq _ _ => s.holder == some acq
  | .claimed acq held generation _ =>
    -- without a fix-up there is no store
    tokenOf (slots l.1) generation == held || s.byte != held || s.holder == some acq
  | .relByte acq tok => s.byte != tok.value || s.holder == some acq
  | .recChecked stuck _ => s.byte != stuck || s.holder.isSome
  | _ => true

def LockStage.acq : LockStage → Option Nat
  | .early acq _ | .granted acq _ | .released acq _ => some acq
  | _ => none

def LockStage.token : LockStage → Option (Nat × WriteLockToken)
  | .granted acq tok | .released acq tok => some (acq, tok)
  | _ => none

def LockStage.Follows (old new : LockStage) : Prop :=
  new.acq = none ∨ (new.acq = old.acq ∧ new.token = old.token)

variable {tok : WriteLockToken} {s : LockState}

theorem LockStage.acq_of_token {st : LockStage} {acq : Nat} (h : st.token = some (acq, tok)) :
    st.acq = some acq := by
  cases st <;> cases h <;> rfl

structure AcqInv (s : LockState) : Prop where
  lt : ∀ p a, (s.pc p).stage.acq = some a → a < s.wins
  grant_lt : ∀ g ∈ s.grants, g.acq < s.wins
  inj : ∀ p q a, (s.pc p).stage.acq = some a → (s.pc q).stage.acq = some a → p = q
  grant_inj : ∀ g ∈ s.grants, ∀ g' ∈ s.grants, g.acq = g'.acq → g = g'
  token : ∀ p a tok, (s.pc p).stage.token = some (a, tok) →
    ∃ g ∈ s.grants, g.proc = p ∧ g.acq = a ∧ g.tok = tok
  early : ∀ p a, (s.pc p).stage.acq = some a → (s.pc p).stage.token = none →
    ∀ g ∈ s.grants, g.acq ≠ a
  latest : ∀ p a, (s.pc p).stage.acq = some a → ∀ g ∈ s.grants, g.proc = p → g.acq ≤ a

theorem acqInv_fresh (gen₀ : Nat) : AcqInv (LockState.fresh gen₀) where
  lt := by intro p a h; cases h
  grant_lt := by intro g hg; cases hg
  inj := by intro p q a h; cases h
  grant_inj := by intro g hg; cases hg
  token := by intro p a tok h; cases h
  early := by intro p a h; cases h
  latest := by intro p a h; cases h

variable {s' : LockState}

theorem AcqInv.of_follows (hi : AcqInv s) (hst : ∀ q, (s.pc q).stage.Follows (s'.pc q).stage)
    (hwins : s'.wins = s.wins) (hgrants : s'.grants = s.grants) : AcqInv s' := by
  have hacq : ∀ q a, (s'.pc q).stage.acq = some a →
      (s.pc q).stage.acq = some a ∧ (s'.pc q).stage.token = (s.pc q).stage.token := by
    intro q a h
    rcases hst q with hnone | ⟨heq, htok⟩
    · rw [hnone] at h; cases h
    · exact ⟨heq ▸ h, htok⟩
  refine ⟨?_, ?_, ?_, ?_, ?_, ?_, ?_⟩
  · intro p a h
    rw [hwins]
    exact hi.lt p a (hacq p a h).1
  · rw [hgrants, hwins]
    exact hi.grant_lt
  · intro p q a hp hq
    exact hi.inj p q a (hacq p a hp).1 (hacq q a hq).1
  · rw [hgrants]
    exact hi.grant_inj
  · intro p a tok h
    rw [hgrants]
    rw [(hacq p a (LockStage.acq_of_token h)).2] at h
    exact hi.token p a tok h
  · intro p a h htok
    obtain ⟨hold, heq⟩ := hacq p a h
    rw [hgrants]
    exact hi.early p a hold (heq ▸ htok)
  · intro p a h
    rw [hgrants]
    exact hi.latest p a (hacq p a h).1

theorem AcqInv.win {p held : Nat} (hi : AcqInv s) (hp : (s'.pc p).stage = .early s.wins held)
    (hq : ∀ q, q ≠ p → s'.pc q = s.pc q) (hwins : s'.wins = s.wins + 1)
    (hgrants : s'.grants = s.grants) : AcqInv s' := by
  -- an acquisition is the new one, at p, or one of another process
  have hcase : ∀ q a, (s'.pc q).stage.acq = some a →
      (q = p ∧ a = s.wins) ∨ (q ≠ p ∧ (s.pc q).stage.acq = some a) := by
    intro q a h
    by_cases hqp : q = p
    · subst hqp
      rw [hp] at h
      exact .inl ⟨rfl, (Option.some.inj h).symm⟩
    · rw [hq q hqp] at h
      exact .inr ⟨hqp, h⟩
  refine ⟨?_, ?_, ?_, ?_, ?_, ?_, ?_⟩
  · intro q a h
    rw [hwins]
    rcases hcase q a h with ⟨-, rfl⟩ | ⟨-, hold⟩
    · exact Nat.lt_succ_self _
    · exact Nat.lt_succ_of_lt (hi.lt q a hold)
  · intro g hg
    rw [hwins]
    exact Nat.lt_succ_of_lt (hi.grant_lt g (hgrants ▸ hg))
  · intro q r a h h'
    rcases hcase q a h with ⟨rfl, rfl⟩ | ⟨-, hold⟩ <;>
      rcases hcase r _ h' with ⟨rfl, heq⟩ | ⟨-, hold'⟩
    · rfl
    · exact absurd (hi.lt r _ hold') (Nat.lt_irrefl _)
    · exact absurd (hi.lt q a hold) (heq ▸ Nat.lt_irrefl _)
    · exact hi.inj q r a hold hold'
  · rw [hgrants]
    exact hi.grant_inj
  · intro q a tok h
    rw [hgrants]
    by_cases hqp : q = p
    · subst hqp
      rw [hp] at h
      cases h
    · rw [hq q hqp] at h
      exact hi.token q a tok h
  · intro q a h htok g hg
    rw [hgrants] at hg
    rcases hcase q a h with ⟨-, rfl⟩ | ⟨hqp, hold⟩
    · exact Nat.ne_of_lt (hi.grant_lt g hg)
    · rw [hq q hqp] at htok
      exact hi.early q a hold htok g hg
  · intro q a h g hg hproc
    rw [hgrants] at hg
    rcases hcase q a h with ⟨-, rfl⟩ | ⟨-, hold⟩
    · exact Nat.le_of_lt (hi.grant_lt g hg)
    · exact hi.latest q a hold g hg hproc

theorem AcqInv.grant {p acq claim : Nat} (hi : AcqInv s) (hpc : s.pc p = .taken acq tok claim) :
    AcqInv (storeOwner s p acq tok claim) := by
  have hp : (s.pc p).stage.acq = some acq := by rw [hpc]; rfl
  have hearly := hi.early p acq hp (by rw [hpc]; rfl)
  -- no acquisition is started; that of p moves from early to granted
  have hacq : ∀ q a, ((storeOwner s p acq tok claim).pc q).stage.acq = some a →
      (s.pc q).stage.acq = some a ∧
        (q ≠ p → ((storeOwner s p acq tok claim).pc q).stage = (s.pc q).stage) := by
    intro q a h
    by_cases hq : q = p
    · subst hq
      simp only [storeOwner, LockState.goto, update_self] at h
      exact ⟨hp.trans h, fun hne => absurd rfl hne⟩
    · simp only [storeOwner, LockState.goto, update_of_ne hq] at h ⊢
      exact ⟨h, fun _ => trivial⟩
  refine ⟨?_, ?_, ?_, ?_, ?_, ?_, ?_⟩
  · intro q a h
    exact hi.lt q a (hacq q a h).1
  · exact List.forall_mem_cons.mpr ⟨hi.lt p acq hp, hi.grant_lt⟩
  · intro q r a h h'
    exact hi.inj q r a (hacq q a h).1 (hacq r a h').1
  · intro g hg g' hg' heq
    rcases List.mem_cons.mp hg with rfl | hg <;>
      rcases List.mem_cons.mp hg' with rfl | hg'
    · rfl
    · exact absurd heq.symm (hearly g' hg')
    · exact absurd heq (hearly g hg)
    · exact hi.grant_inj g hg g' hg' heq
  · intro q a t h
    by_cases hq : q = p
    · subst hq
      simp only [storeOwner, LockState.goto, update_self] at h
      cases h
      exact ⟨_, List.mem_cons_self, rfl, rfl, rfl⟩
    · rw [(hacq q a (LockStage.acq_of_token h)).2 hq] at h
      obtain ⟨g, hg, hrest⟩ := hi.token q a t h
      exact ⟨g, List.mem_cons_of_mem _ hg, hrest⟩
  · intro q a h htok g hg
    obtain ⟨hold, hstage⟩ := hacq q a h
    by_cases hq : q = p
    · subst hq
      simp only [storeOwner, LockState.goto, update_self] at htok
      cases htok
    · rw [hstage hq] at htok
      rcases List.mem_cons.mp hg with rfl | hg
      · intro heq
        have heq' : acq = a := heq
        subst heq'
        exact hq (hi.inj q p acq hold hp)
      · exact hi.early q a hold htok g hg
  · intro q a h g hg hproc
    have hold := (hacq q a h).1
    rcases List.mem_cons.mp hg with rfl | hg
    · have hq : p = q := hproc
      subst hq
      exact Nat.le_of_eq (Option.some.inj (hp.symm.trans hold))
    · exact hi.latest q a hold g hg hproc

inductive LockPhase where
  | free
  | acquiring (acq : Nat)
  | held (g : Grant)
  | releasing (g : Grant)
  | recovering (p : Nat) (cleared : Bool)
  deriving DecidableEq

def LockPhase.holder : LockPhase → Option Nat
  | .acquiring acq => some acq
  | .held g | .releasing g => some g.acq
  | .free | .recovering .. => none

inductive PhaseMove (s : LockState) (p : Nat) : LockPhase → LockPhase → Prop
  | acquire : PhaseMove s p .free (.acquiring s.wins)
  | grant (g : Grant) (hpc : s.pc p = .taken g.acq g.tok g.claim) (hproc : g.proc = p) :
      PhaseMove s p (.acquiring g.acq) (.held g)
  | release (g : Grant) (hpc : s.pc p = .relOwner g.acq g.tok) :
      PhaseMove s p (.held g) (.releasing g)
  | finish (g : Grant) (hpc : s.pc p = .relByte g.acq g.tok) : PhaseMove s p (.releasing g) .free
  | recover (ph : LockPhase) (stuck : Nat) (seen : Option Nat)
      (hpc : s.pc p = .recChecked stuck seen) (hbyte : s.byte = stuck) :
      PhaseMove s p ph (.recovering p false)
  | clear : PhaseMove s p (.recovering p false) (.recovering p true)
  | recovered : PhaseMove s p (.recovering p true) .free

def LockPhase.Words (s : LockState) : LockPhase → Prop
  | .free => s.byte = 0 ∧ s.owner = 0
  | .acquiring acq =>
    s.byte ≠ 0 ∧ s.owner = 0 ∧ (∀ g ∈ s.grants, g.acq ≠ acq) ∧
      ∀ p v, (s.pc p).stage = .early acq v →
        s.byte = v ∧ ∀ c, (s.pc p).claimAt = some c → c.2.1 = s.gen
  | .held g =>
    g ∈ s.grants ∧ s.byte ≠ 0 ∧ revalidateWriteLock s g.proc g.tok = true ∧
      (s.pc g.proc).stage ≠ .released g.acq g.tok
  | .releasing g =>
    g ∈ s.grants ∧ s.byte ≠ 0 ∧ s.byte = g.tok.value ∧ s.owner = 0 ∧
      (s.pc g.proc).stage = .released g.acq g.tok
  | .recovering p cleared =>
    253 < s.byte ∧ (cleared = true → s.owner = 0) ∧ (s.pc p).stage = .recovering cleared

/-- What the phase asks of a process. -/
structure Seated (ph : LockPhase) (q : Nat) (pc : LockPc) : Prop where
  recovering : ∀ c, pc.stage = .recovering c → ph = .recovering q c
  /-- No acquisition under way is younger than the one in the byte. -/
  oldest : ∀ a b, pc.stage.acq = some a → ph.holder = some b → a ≤ b
  answer : ∀ a tok ok, pc.answer = some (a, tok, ok) → ph.holder = some a → ok = true

structure Orderly (s : LockState) (ph : LockPhase) : Prop where
  acqs : AcqInv s
  holder : s.holder = ph.holder
  words : ph.Words s
  seated : ∀ q, Seated ph q (s.pc q)

theorem orderly_fresh (gen₀ : Nat) : Orderly (LockState.fresh gen₀) .free where
  acqs := acqInv_fresh gen₀
  holder := rfl
  words := ⟨rfl, rfl⟩
  seated := fun _ => ⟨nofun, nofun, nofun⟩

variable {ph : LockPhase} {pc : LockPc}

/-- The acquisition stays the one in the byte. -/
theorem Seated.phase {ph' : LockPhase} {q : Nat} (h : Seated ph q pc)
    (hholder : ph'.holder = ph.holder) (hrec : ∀ c, ph ≠ .recovering q c) : Seated ph' q pc where
  recovering := fun c hc => absurd (h.recovering c hc) (hrec c)
  oldest := fun a b ha hb => h.oldest a b ha (hholder ▸ hb)
  answer := fun a tok ok ha hb => h.answer a tok ok ha (hholder ▸ hb)

/-- Nobody has the byte. -/
theorem Seated.vacant {q : Nat} (hnone : ph.holder = none)
    (hrec : ∀ c, pc.stage = .recovering c → ph = .recovering q c) : Seated ph q pc := by
  refine ⟨hrec, fun a b _ hb => ?_, fun a tok ok _ ha => ?_⟩
  · rw [hnone] at hb
    cases hb
  · rw [hnone] at ha
    cases ha

theorem seated_step {p : Nat} (hother : ∀ q, q ≠ p → s'.pc q = s.pc q)
    (hself : Seated ph p (s'.pc p)) (hrest : ∀ q, q ≠ p → Seated ph q (s.pc q)) :
    ∀ q, Seated ph q (s'.pc q) := by
  intro q
  by_cases hq : q = p
  · exact hq ▸ hself
  · rw [hother q hq]
    exact hrest q hq

theorem stage_of_answer {a : Nat} {ok : Bool} (h : pc.answer = some (a, tok, ok)) :
    pc.stage = .granted a tok := by
  cases pc with
  | holding acq t verdict => cases verdict <;> cases h; rfl
  | revGen | revHeld => cases h; rfl
  | idle | sampled | won | reread | claimLost | claimed | taken | lost | seenGen
  | seenOwner | recChecked | recClaimed | recBumped | recCleared | relOwner
  | relByte => cases h

section

variable {slots : Nat → Option Nat} {s : LockState} {ph : LockPhase} {p : Nat}

theorem Orderly.byte_ne_zero (hi : Orderly s ph) (hne : ph ≠ .free) : s.byte ≠ 0 := by
  have hwords := hi.words
  cases ph with
  | free => exact absurd rfl hne
  | acquiring acq => exact hwords.1
  | held g | releasing g => exact hwords.2.1
  | recovering q c => exact Nat.ne_of_gt (Nat.lt_of_le_of_lt (Nat.zero_le _) hwords.1)

variable {acq : Nat} {tok : WriteLockToken} {s' : LockState}

section

variable (hi : Orderly s ph)
include hi

theorem Orderly.acquiring {v : Nat} (hst : (s.pc p).stage = .early acq v)
    (hholder : s.holder = some acq) : ph = .acquiring acq := by
  have hfresh := hi.acqs.early p acq (by rw [hst]; rfl) (by rw [hst]; rfl)
  have heq := hi.holder.symm.trans hholder
  have hwords := hi.words
  cases ph with
  | acquiring a =>
    cases heq
    rfl
  | held g | releasing g => exact absurd (Option.some.inj heq) (hfresh g hwords.1)
  | free | recovering => cases heq

theorem Orderly.granted (hst : (s.pc p).stage.token = some (acq, tok))
    (hholder : s.holder = some acq) :
    ∃ g, g.proc = p ∧ g.acq = acq ∧ g.tok = tok ∧ (ph = .held g ∨ ph = .releasing g) := by
  obtain ⟨g, hg, hproc, hacq, htok⟩ := hi.acqs.token p acq tok hst
  have heq := hi.holder.symm.trans hholder
  have hwords := hi.words
  refine ⟨g, hproc, hacq, htok, ?_⟩
  cases ph with
  | acquiring a =>
    cases heq
    exact absurd hacq (hwords.2.2.1 g hg)
  | held g' =>
    have hsame := hi.acqs.grant_inj g' hwords.1 g hg ((Option.some.inj heq).trans hacq.symm)
    exact .inl (by rw [hsame])
  | releasing g' =>
    have hsame := hi.acqs.grant_inj g' hwords.1 g hg ((Option.some.inj heq).trans hacq.symm)
    exact .inr (by rw [hsame])
  | free | recovering => cases heq

theorem Orderly.held (hst : (s.pc p).stage = .granted acq tok) (hholder : s.holder = some acq) :
    ∃ g, g.proc = p ∧ g.acq = acq ∧ g.tok = tok ∧ ph = .held g := by
  obtain ⟨g, hproc, hacq, htok, hph⟩ := hi.granted (by rw [hst]; rfl) hholder
  refine ⟨g, hproc, hacq, htok, ?_⟩
  rcases hph with rfl | rfl
  · rfl
  · have hrel := hi.words.2.2.2.2
    rw [hproc, hst] at hrel
    cases hrel

theorem Orderly.releasing (hst : (s.pc p).stage = .released acq tok) (hholder : s.holder = some acq) :
    ∃ g, g.proc = p ∧ g.acq = acq ∧ g.tok = tok ∧ ph = .releasing g := by
  obtain ⟨g, hproc, hacq, htok, hph⟩ := hi.granted (by rw [hst]; rfl) hholder
  refine ⟨g, hproc, hacq, htok, ?_⟩
  rcases hph with rfl | rfl
  · exact absurd (by rw [hproc, hst, hacq, htok]) hi.words.2.2.2
  · rfl

end

theorem stage_goto (h : pc.stage = (s.pc p).stage ∨ pc.stage = .rest) (q : Nat) :
    ((s.goto p pc).pc q).stage = (s.pc q).stage ∨
      ((s.goto p pc).pc q).stage = .rest := by
  by_cases hq : q = p
  · subst hq
    simp only [LockState.goto, update_self]
    exact h
  · simp only [LockState.goto, update_of_ne hq]
    exact .inl trivial

theorem follows_of_stage {old new : LockStage} (h : new = old ∨ new = .rest) : old.Follows new := by
  rcases h with rfl | rfl
  · exact .inr ⟨rfl, rfl⟩
  · exact .inl rfl

section

variable (hi : Orderly s ph)
include hi

theorem Orderly.quiet (hst : pc.stage = (s.pc p).stage ∨
      (pc.stage = .rest ∧ (∀ c, (s.pc p).stage ≠ .recovering c) ∧
        ∀ g, ph = .releasing g → g.proc ≠ p))
    (hclaim : pc.claimAt = none ∨ pc.claimAt = (s.pc p).claimAt) (hans : KeepsAnswer s p pc) :
    Orderly (s.goto p pc) ph := by
  have hcase := stage_goto (hst.imp_right And.left)
  have hsame : ∀ q st, st ≠ .rest → ((s.goto p pc).pc q).stage = st → (s.pc q).stage = st := by
    intro q st hne h
    rcases hcase q with heq | hrest
    · exact heq ▸ h
    · exact absurd (h.symm.trans hrest) hne
  -- a process whose stage matters to the phase keeps it
  have hkeep : ∀ q st, (s.pc q).stage = st →
      (q = p → pc.stage = (s.pc p).stage) → ((s.goto p pc).pc q).stage = st := by
    intro q st h hp
    by_cases hq : q = p
    · subst hq
      simp only [LockState.goto, update_self]
      exact (hp rfl).trans h
    · simp only [LockState.goto, update_of_ne hq]
      exact h
  have hwords := hi.words
  refine ⟨hi.acqs.of_follows (fun q => follows_of_stage (hcase q)) rfl rfl, hi.holder, ?_, ?_⟩
  · cases ph with
    | free => exact hwords
    | acquiring acq =>
      refine ⟨hwords.1, hwords.2.1, hwords.2.2.1, fun q v h => ?_⟩
      obtain ⟨hbyte, hgen⟩ := hwords.2.2.2 q v (hsame q _ (by simp) h)
      exact ⟨hbyte, fun c hc => hgen c (claimAt_goto hclaim q c hc)⟩
    | held g =>
      exact ⟨hwords.1, hwords.2.1, hwords.2.2.1, fun h => hwords.2.2.2 (hsame g.proc _ (by simp) h)⟩
    | releasing g =>
      refine ⟨hwords.1, hwords.2.1, hwords.2.2.1, hwords.2.2.2.1,
        hkeep g.proc _ hwords.2.2.2.2 fun hq => ?_⟩
      rcases hst with heq | ⟨-, -, hne⟩
      · exact heq
      · exact absurd hq (hne g rfl)
    | recovering q c =>
      refine ⟨hwords.1, hwords.2.1, hkeep q _ hwords.2.2 fun hq => ?_⟩
      rcases hst with heq | ⟨-, hne, -⟩
      · exact heq
      · exact absurd (hq ▸ hwords.2.2) (hne c)
  · have hpc : (s.goto p pc).pc p = pc := update_self ..
    have hself := hsame p
    rw [hpc] at hself
    refine seated_step (fun q hq => update_of_ne hq _ _) ?_ fun q _ => hi.seated q
    rw [hpc]
    refine ⟨fun c h => (hi.seated p).recovering c (hself _ (by simp) h), fun a b h => ?_,
      fun a tok ok h hholder => ?_⟩
    · rcases hst with heq | ⟨hrest, -⟩
      · exact (hi.seated p).oldest a b (heq ▸ h)
      · rw [hrest] at h; cases h
    · have hgranted := hself (.granted a tok) (by simp) (stage_of_answer h)
      obtain ⟨g, rfl, rfl, rfl, rfl⟩ := hi.held hgranted (hi.holder.trans hholder)
      exact hans _ _ _ h (fun ok' hok' => (hi.seated _).answer _ _ ok' hok' hholder) hwords.2.2.1

theorem Orderly.acquire_store {held : Nat} (hst : (s.pc p).stage = .early acq held)
    (hholder : s.holder = some acq) (hother : ∀ q, q ≠ p → s'.pc q = s.pc q)
    (hstage : (s'.pc p).stage = .rest ∨ (s'.pc p).stage = .early acq s'.byte)
    (hgen : ∀ c, (s'.pc p).claimAt = some c → c.2.1 = s'.gen) (hans : (s'.pc p).answer = none)
    (hbyte : s'.byte ≠ 0) (hwords : s'.owner = s.owner ∧ s'.holder = some acq ∧ s'.wins = s.wins ∧
      s'.grants = s.grants) : Orderly s' ph := by
  obtain ⟨howner, hholder', hwins, hgrants⟩ := hwords
  have hph := hi.acquiring hst hholder
  subst hph
  have hold := hi.words
  have hp : (s.pc p).stage.acq = some acq := by rw [hst]; rfl
  have hfollows : ∀ q, (s.pc q).stage.Follows (s'.pc q).stage := by
    intro q
    by_cases hq : q = p
    · subst hq
      rcases hstage with h | h <;> rw [h, hst]
      · exact .inl rfl
      · exact .inr ⟨rfl, rfl⟩
    · rw [hother q hq]
      exact .inr ⟨rfl, rfl⟩
  refine ⟨hi.acqs.of_follows hfollows hwins hgrants, hholder',
    ⟨hbyte, howner.trans hold.2.1, ?_, ?_⟩, seated_step hother ⟨?_, ?_, ?_⟩ fun q _ => hi.seated q⟩
  · rw [hgrants]
    exact hold.2.2.1
  · intro q v h
    by_cases hq : q = p
    · subst hq
      rcases hstage with h' | h' <;> rw [h'] at h <;> cases h
      exact ⟨rfl, hgen⟩
    · rw [hother q hq] at h
      exact absurd (hi.acqs.inj q p acq (by rw [h]; rfl) hp) hq
  · intro c h
    rcases hstage with h' | h' <;> rw [h'] at h <;> cases h
  · intro a b h
    rcases hfollows p with hnone | ⟨heq, -⟩
    · rw [hnone] at h; cases h
    · exact (hi.seated p).oldest a b (heq ▸ h)
  · intro a tok ok h
    rw [hans] at h
    cases h

theorem Orderly.win (hfree : s.byte = 0) (expect : Nat) : ph = .free ∧ Orderly
      { s.goto p (.won s.wins (tokenOf (slots p) expect)) with
        byte := tokenOf (slots p) expect
        holder := some s.wins
        wins := s.wins + 1 } (.acquiring s.wins) := by
  have hph : ph = .free := by
    by_contra hne
    exact hi.byte_ne_zero hne hfree
  subst hph
  have hother : ∀ q, q ≠ p → (s.goto p (.won s.wins (tokenOf (slots p) expect))).pc q = s.pc q :=
    fun q hq => update_of_ne hq _ _
  have hself : ((s.goto p (.won s.wins (tokenOf (slots p) expect))).pc p) =
      .won s.wins (tokenOf (slots p) expect) := update_self ..
  refine ⟨rfl, hi.acqs.win (p := p) (by rw [hself]; rfl) hother rfl rfl, rfl,
    ⟨?_, hi.words.2, ?_, ?_⟩, seated_step hother ?_ fun q _ => ⟨fun c h => ?_, ?_, ?_⟩⟩
  · exact Nat.ne_of_gt (tokenOf_isToken _ _).1
  · intro g hg
    exact Nat.ne_of_lt (hi.acqs.grant_lt g hg)
  · intro q v h
    by_cases hq : q = p
    · subst hq
      rw [hself] at h ⊢
      cases h
      exact ⟨rfl, by intro c hc; cases hc⟩
    · rw [hother q hq] at h
      exact absurd (hi.acqs.lt q s.wins (by rw [h]; rfl)) (Nat.lt_irrefl _)
  · show Seated _ _ ((s.goto p (.won s.wins (tokenOf (slots p) expect))).pc p)
    rw [hself]
    refine ⟨nofun, fun a b h hb => ?_, nofun⟩
    cases hb
    exact Nat.le_of_eq (Option.some.inj h).symm
  · exact absurd ((hi.seated q).recovering c h) (by simp)
  · intro a b h hb
    cases hb
    exact Nat.le_of_lt (hi.acqs.lt q a h)
  · intro a tok ok h ha
    cases ha
    have hlt := hi.acqs.lt q s.wins (by rw [stage_of_answer h]; rfl)
    exact absurd hlt (Nat.lt_irrefl _)

theorem Orderly.grant {claim : Nat} (hpc : s.pc p = .taken acq tok claim)
    (hholder : s.holder = some acq) :
    ph = .acquiring acq ∧ Orderly (storeOwner s p acq tok claim) (.held ⟨p, tok, acq, claim⟩) := by
  have hst : (s.pc p).stage = .early acq tok.value := by rw [hpc]; rfl
  have hph := hi.acquiring hst hholder
  subst hph
  obtain ⟨hbyte, hgen⟩ := hi.words.2.2.2 p _ hst
  have hgen' : tok.generation = s.gen := hgen (acq, tok.generation, claim) (by rw [hpc]; rfl)
  have hother : ∀ q, q ≠ p → (storeOwner s p acq tok claim).pc q = s.pc q :=
    fun q hq => update_of_ne hq _ _
  have hself : (storeOwner s p acq tok claim).pc p = .holding acq tok none := update_self ..
  refine ⟨rfl, hi.acqs.grant hpc, hholder, ⟨List.mem_cons_self, hi.words.1, ?_, ?_⟩,
    seated_step hother ?_ fun q _ => (hi.seated q).phase rfl (by simp)⟩
  · simp [revalidateWriteLock, storeOwner, LockState.goto, hgen', hbyte]
  · show ((storeOwner s p acq tok claim).pc p).stage ≠ _
    rw [hself]
    simp [LockPc.stage]
  · rw [hself]
    refine ⟨by simp [LockPc.stage], fun a b h hb => ?_, by simp [LockPc.answer]⟩
    exact Nat.le_of_eq ((Option.some.inj h).symm.trans (Option.some.inj hb))

theorem Orderly.vacate {ph' : LockPhase} (hother : ∀ q, q ≠ p → s'.pc q = s.pc q)
    (hself : (s'.pc p).stage.acq = none) (hnone : s'.holder = none) (hholder : ph'.holder = none)
    (hwords : ph'.Words s') (hrec : ∀ c, (s'.pc p).stage = .recovering c → ph' = .recovering p c)
    (hrest : ∀ q c, q ≠ p → (s.pc q).stage ≠ .recovering c) (hwins : s'.wins = s.wins)
    (hgrants : s'.grants = s.grants) : Orderly s' ph' := by
  refine ⟨hi.acqs.of_follows (fun q => ?_) hwins hgrants, hnone.trans hholder.symm, hwords,
    seated_step hother (.vacant hholder hrec) fun q hq =>
      .vacant hholder fun c h => absurd h (hrest q c hq)⟩
  by_cases hq : q = p
  · exact .inl (hq ▸ hself)
  · rw [hother q hq]
    exact .inr ⟨rfl, rfl⟩

theorem Orderly.recovering_alone {c : Bool} (hst : (s.pc p).stage = .recovering c) :
    ph = .recovering p c ∧ ∀ q d, q ≠ p → (s.pc q).stage ≠ .recovering d := by
  have hph := (hi.seated p).recovering c hst
  refine ⟨hph, fun q d hq h => ?_⟩
  have hph' := (hi.seated q).recovering d h
  rw [hph] at hph'
  injection hph' with hpq
  exact hq hpq.symm

end

theorem recoveryClaim_gt (observed : Nat) : 253 < recoveryClaim observed := by
  unfold recoveryClaim
  split <;> decide

section

variable (hi : Orderly s ph)
include hi

theorem Orderly.relOwner {owner : Nat} (hpc : s.pc p = .relOwner acq tok)
    (howner : owner = if s.owner = selfPid p then 0 else s.owner) :
    ∃ ph', Orderly { s.goto p (.relByte acq tok) with owner := owner } ph' ∧
      (ph' = ph ∨ PhaseMove s p ph ph') := by
  have hst : (s.pc p).stage = .granted acq tok := by rw [hpc]; rfl
  have hother : ∀ q, q ≠ p → (s.goto p (.relByte acq tok)).pc q = s.pc q :=
    fun q hq => update_of_ne hq _ _
  have hself : (s.goto p (.relByte acq tok)).pc p = .relByte acq tok := update_self ..
  have hacqs : AcqInv { s.goto p (.relByte acq tok) with owner := owner } := by
    refine hi.acqs.of_follows (fun q => ?_) rfl rfl
    by_cases hq : q = p
    · subst hq
      rw [hself, hst]
      exact .inr ⟨rfl, rfl⟩
    · rw [hother q hq]
      exact .inr ⟨rfl, rfl⟩
  have hseated : ∀ q, Seated ph q ((s.goto p (.relByte acq tok)).pc q) := by
    refine seated_step hother ?_ fun q _ => hi.seated q
    rw [hself]
    exact ⟨by simp [LockPc.stage], fun a b h => (hi.seated p).oldest a b (by rw [hst]; exact h),
      by simp [LockPc.answer]⟩
  have hzero : s.owner = 0 → owner = 0 := by
    intro h
    rw [howner, h, ite_self]
  by_cases hholder : s.holder = some acq
  · -- the holder itself: the release begins
    obtain ⟨g, rfl, rfl, rfl, rfl⟩ := hi.held hst hholder
    have hwords := hi.words
    have hval := hwords.2.2.1
    simp only [revalidateWriteLock, Bool.and_eq_true, beq_iff_eq] at hval
    refine ⟨.releasing g, ⟨hacqs, hi.holder, ⟨hwords.1, hwords.2.1, hval.1.2, ?_, ?_⟩,
      fun q => (hseated q).phase rfl (by simp)⟩, .inr (.release g hpc)⟩
    · show owner = 0
      rw [howner, if_pos hval.2]
    · show ((s.goto g.proc (.relByte g.acq g.tok)).pc g.proc).stage = _
      rw [hself]
      rfl
  · refine ⟨ph, ⟨hacqs, hi.holder, ?_, hseated⟩, .inl rfl⟩
    have hwords := hi.words
    have hheld : ∀ g, g ∈ s.grants → s.holder = some g.acq → g.proc ≠ p := by
      -- a process's latest token is the only one of its tokens in the byte
      rintro g hg hga rfl
      have hacq : (s.pc g.proc).stage.acq = some acq := by rw [hst]; rfl
      have hle := hi.acqs.latest g.proc acq hacq g hg rfl
      have hge := (hi.seated g.proc).oldest acq g.acq hacq (hi.holder.symm.trans hga)
      exact hholder (by rw [hga, Nat.le_antisymm hle hge])
    cases ph with
    | free => exact ⟨hwords.1, hzero hwords.2⟩
    | acquiring a =>
      refine ⟨hwords.1, hzero hwords.2.1, hwords.2.2.1, fun q v h => ?_⟩
      by_cases hq : q = p
      · subst hq
        rw [hself] at h
        cases h
      · rw [hother q hq] at h ⊢
        exact hwords.2.2.2 q v h
    | held g =>
      have hne := hheld g hwords.1 hi.holder
      have hval := hwords.2.2.1
      have hpid : s.owner = selfPid g.proc := by
        simp only [revalidateWriteLock, Bool.and_eq_true, beq_iff_eq] at hval
        exact hval.2
      have hsame : owner = s.owner := by
        rw [howner, if_neg]
        rw [hpid]
        simpa [selfPid] using hne
      refine ⟨hwords.1, hwords.2.1, ?_, ?_⟩
      · rw [← hval, hsame]
        rfl
      · show ((s.goto p (.relByte acq tok)).pc g.proc).stage ≠ _
        rw [hother _ hne]
        exact hwords.2.2.2
    | releasing g =>
      have hne := hheld g hwords.1 hi.holder
      refine ⟨hwords.1, hwords.2.1, hwords.2.2.1, hzero hwords.2.2.2.1, ?_⟩
      show ((s.goto p (.relByte acq tok)).pc g.proc).stage = _
      rw [hother _ hne]
      exact hwords.2.2.2.2
    | recovering q c =>
      have hne : q ≠ p := by
        rintro rfl
        have hq := hwords.2.2
        rw [hst] at hq
        cases hq
      refine ⟨hwords.1, fun hc => hzero (hwords.2.1 hc), ?_⟩
      show ((s.goto p (.relByte acq tok)).pc q).stage = _
      rw [hother _ hne]
      exact hwords.2.2

theorem Orderly.relByte (hpc : s.pc p = .relByte acq tok) (hholder : s.holder = some acq) :
    Orderly { s.goto p .idle with byte := 0, holder := none } .free ∧ PhaseMove s p ph .free := by
  have hst : (s.pc p).stage = .released acq tok := by rw [hpc]; rfl
  obtain ⟨g, rfl, rfl, rfl, rfl⟩ := hi.releasing hst hholder
  refine ⟨?_, .finish g hpc⟩
  have hself : (s.goto g.proc .idle).pc g.proc = .idle := update_self ..
  refine hi.vacate (p := g.proc) (fun q hq => update_of_ne hq _ _) ?_ rfl rfl
    ⟨rfl, hi.words.2.2.2.1⟩ ?_ ?_ rfl rfl
  · rw [hself]
    rfl
  · intro c h
    rw [hself] at h
    cases h
  · intro q c _ h
    cases (hi.seated q).recovering c h

theorem Orderly.droppable (hdrop : (s.pc p).stage.Droppable) :
    (∀ c, (s.pc p).stage ≠ .recovering c) ∧ ∀ g, ph = .releasing g → g.proc ≠ p := by
  constructor
  · intro c h
    rw [h] at hdrop
    exact hdrop
  · rintro g rfl rfl
    have hrel := hi.words.2.2.2.2
    rw [hrel] at hdrop
    exact hdrop

theorem Orderly.recover_store {c d : Bool} (hst : (s.pc p).stage = .recovering c)
    (hother : ∀ q, q ≠ p → s'.pc q = s.pc q) (hself : (s'.pc p).stage = .recovering d)
    (hbyte : s'.byte = s.byte) (howner : d = true → s'.owner = 0) (hholder : s'.holder = s.holder)
    (hwins : s'.wins = s.wins) (hgrants : s'.grants = s.grants) :
    ph = .recovering p c ∧ Orderly s' (.recovering p d) := by
  obtain ⟨rfl, halone⟩ := hi.recovering_alone hst
  refine ⟨rfl, hi.vacate hother (by rw [hself]; rfl) (hholder.trans hi.holder) rfl
    ⟨by rw [hbyte]; exact hi.words.1, howner, hself⟩ ?_ halone hwins hgrants⟩
  intro e h
  rw [hself] at h
  cases h
  rfl

end

theorem LockMove.orderly {act : LockAct} (h : LockMove slots s p s')
    (hok : timely slots s (p, act) = true) (hi : Orderly s ph) :
    ∃ ph', Orderly s' ph' ∧ (ph' = ph ∨ PhaseMove s p ph ph') := by
  have hother := fun q hq => h.pc_other (q := q) hq
  cases h with
  | stay pc hpc hans =>
    refine ⟨ph, hi.quiet (hpc.stage.imp_right fun h => ?_) hpc.claimAt hans, .inl rfl⟩
    exact ⟨h.1, hi.droppable h.2⟩
  | observe hdrop =>
    exact ⟨ph, hi.quiet (.inr ⟨rfl, hi.droppable hdrop⟩) (.inl rfl)
      (keepsAnswer_of_none rfl), .inl rfl⟩
  | win expect hpc hfree =>
    obtain ⟨rfl, hi'⟩ := @Orderly.win slots s ph p hi hfree expect
    exact ⟨_, hi', .inr .acquire⟩
  | claim acq held afterCas pc hpc hnew =>
    have hholder : s.holder = some acq := by
      simpa only [timely, hpc, beq_iff_eq] using hok
    have hst : (s.pc p).stage = .early acq held := by rw [hpc]; rfl
    have hph := hi.acquiring hst hholder
    subst hph
    have hbyte := (hi.words.2.2.2 p held hst).1
    refine ⟨_, hi.acquire_store hst hholder hother ?_ ?_ ?_ hi.words.1
      ⟨rfl, hholder, rfl, rfl⟩, .inl rfl⟩ <;>
      simp only [LockState.goto, update_self] <;> rcases hnew with rfl | rfl
    · exact .inl rfl
    · exact .inr (by rw [hbyte]; rfl)
    · intro c hc; cases hc
    · intro c hc; cases hc; rfl
    · rfl
    · rfl
  | fix acq held generation claim hpc hne hbyte =>
    have hholder : s.holder = some acq := by
      simpa [timely, hpc, hne, hbyte] using hok
    have hst : (s.pc p).stage = .early acq held := by rw [hpc]; rfl
    have hph := hi.acquiring hst hholder
    subst hph
    have hgen := (hi.words.2.2.2 p held hst).2 (acq, generation, claim) (by rw [hpc]; rfl)
    refine ⟨_, hi.acquire_store hst hholder hother ?_ ?_ ?_
      (Nat.ne_of_gt (tokenOf_isToken _ _).1) ⟨rfl, rfl, rfl, rfl⟩, .inl rfl⟩ <;>
      simp only [LockState.goto, update_self]
    · exact .inr rfl
    · intro c hc; cases hc; exact hgen
    · rfl
  | grant acq tok claim hpc =>
    have hholder : s.holder = some acq := by
      simpa only [timely, hpc, beq_iff_eq] using hok
    obtain ⟨rfl, hi'⟩ := hi.grant hpc hholder
    exact ⟨_, hi', .inr (.grant ⟨p, tok, acq, claim⟩ hpc rfl)⟩
  | recCas stuck seen hpc hbyte =>
    have hholder : s.holder ≠ none := by
      simpa [timely, hpc, hbyte, Option.isSome_iff_ne_none] using hok
    refine ⟨.recovering p false, hi.vacate hother ?_ rfl rfl
      ⟨recoveryClaim_gt stuck, by simp, ?_⟩ ?_ ?_ rfl rfl,
      .inr (.recover ph stuck seen hpc hbyte)⟩
    · simp only [LockState.goto, update_self]
      rfl
    · simp only [LockState.goto, update_self]
      rfl
    · intro c h
      simp only [LockState.goto, update_self] at h
      cases h
      rfl
    · intro q c _ h
      rw [hi.holder, (hi.seated q).recovering c h] at hholder
      exact hholder rfl
  | recBump victim hpc =>
    obtain ⟨rfl, hi'⟩ := hi.recover_store (c := false) (d := false) (by rw [hpc]; rfl) hother
      (by simp only [recoverBump, LockState.goto, update_self]; rfl) rfl
      (by simp) rfl rfl rfl
    exact ⟨_, hi', .inl rfl⟩
  | recOwner hpc =>
    obtain ⟨rfl, hi'⟩ := hi.recover_store (c := false) (d := true) (by rw [hpc]; rfl) hother
      (by simp only [LockState.goto, update_self]; rfl) rfl (fun _ => rfl) rfl rfl rfl
    exact ⟨_, hi', .inr .clear⟩
  | recFree hpc =>
    obtain ⟨rfl, halone⟩ := hi.recovering_alone (c := true) (by rw [hpc]; rfl)
    have hself : (s.goto p .idle).pc p = .idle := update_self ..
    refine ⟨.free, hi.vacate hother (by rw [hself]; rfl) rfl rfl
      ⟨rfl, hi.words.2.1 rfl⟩ ?_ halone rfl rfl, .inr .recovered⟩
    intro c h
    rw [hself] at h
    cases h
  | relOwner acq tok owner hpc howner => exact hi.relOwner hpc howner
  | relMiss acq tok hpc hbyte =>
    have hst : (s.pc p).stage = .released acq tok := by rw [hpc]; rfl
    refine ⟨ph, hi.quiet (.inr ⟨rfl, ?_, ?_⟩) (.inl rfl) (keepsAnswer_of_none rfl), .inl rfl⟩
    · intro c h
      rw [hst] at h
      cases h
    · -- the release in progress finds its own token
      rintro g rfl rfl
      have hrel := hi.words.2.2.2.2
      rw [hst] at hrel
      cases hrel
      exact hbyte hi.words.2.2.1
  | relByte acq tok hpc hbyte =>
    have hholder : s.holder = some acq := by
      simpa [timely, hpc, hbyte] using hok
    obtain ⟨hi', hmove⟩ := hi.relByte hpc hholder
    exact ⟨.free, hi', .inr hmove⟩

theorem LockMove.acq_cases {q a : Nat} (h : LockMove slots s p s')
    (ha : (s'.pc q).stage.acq = some a) : (s.pc q).stage.acq = some a ∨ a = s.wins := by
  by_cases hq : q = p
  case neg => exact .inl (h.pc_other hq ▸ ha)
  subst hq
  cases h with
  | stay pc hpc hans =>
    simp only [LockState.goto, update_self] at ha
    rcases hpc.stage with heq | ⟨hrest, -⟩
    · exact .inl (heq ▸ ha)
    · rw [hrest] at ha; cases ha
  | win =>
    simp only [LockState.goto, update_self] at ha
    exact .inr (Option.some.inj ha).symm
  | claim acq held afterCas pc hpc hnew =>
    simp only [LockState.goto, update_self] at ha
    rcases hnew with rfl | rfl <;> cases ha
    exact .inl (by rw [hpc]; rfl)
  | fix _ _ _ _ hpc | grant _ _ _ hpc | relOwner _ _ _ hpc =>
    simp only [storeOwner, LockState.goto, update_self] at ha
    cases ha
    exact .inl (by rw [hpc]; rfl)
  | observe | recCas | recBump | recOwner | recFree | relMiss | relByte =>
    simp only [recoverBump, LockState.goto, update_self] at ha
    cases ha

end

end CycloneCache.Ref

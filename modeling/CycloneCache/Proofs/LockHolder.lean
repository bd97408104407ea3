import CycloneCache.Proofs.LockPhases

namespace CycloneCache.Ref

open Lib Function

def recovers (acq : Nat) (s : LockState) (l : Nat × LockAct) : Bool :=
  match s.pc l.1 with
  | .recChecked stuck _ => s.byte == stuck && s.holder == some acq
  | _ => false

def releases (acq : Nat) (s : LockState) (l : Nat × LockAct) : Bool :=
  match s.pc l.1 with
  | .relOwner a _ => a == acq
  | _ => false

variable {p : Nat}

section

variable {slots : Nat → Option Nat} {s s' : LockState} {ph : LockPhase} {g : Grant}
  {l : Nat × LockAct} {ls : List (Nat × LockAct)}

theorem orderly_run {gen₀ : Nat}
    (hok : StepsOk (lockStep slots) (fun t l => timely slots t l = true) (LockState.fresh gen₀) ls)
    (hrun : runs (lockStep slots) (LockState.fresh gen₀) ls = some s) : ∃ ph, Orderly s ph := by
  refine @runs_inv_of_ok _ _ _ _ (fun t => ∃ ph, Orderly t ph) ?_ _ _ _ hok hrun
    ⟨.free, orderly_fresh gen₀⟩
  rintro t l t' ⟨ph, hi⟩ hl hs
  obtain ⟨ph', hi', -⟩ := (lockStep_move hs).orderly hl hi
  exact ⟨ph', hi'⟩

theorem Orderly.held_step (hi : Orderly s (.held g)) (hs : lockStep slots s l = some s')
    (hok : timely slots s l = true) (hrec : recovers g.acq s l = false)
    (hrel : releases g.acq s l = false) : Orderly s' (.held g) := by
  obtain ⟨ph', hi', rfl | hmove⟩ := (lockStep_move hs).orderly hok hi
  · exact hi'
  · cases hmove with
    | release _ hpc => simp [releases, hpc] at hrel
    | recover _ stuck seen hpc hbyte =>
      have hholder : s.holder = some g.acq := hi.holder
      simp [recovers, hpc, hbyte, hholder] at hrec

theorem idle_of_relByte {acq : Nat} {tok : WriteLockToken} {act : LockAct}
    (hpc : s.pc p = .relByte acq tok) (hs : lockStep slots s (p, act) = some s') :
    s'.pc p = .idle := by
  cases act with
  | step =>
    simp only [lockStep, lockAccess, hpc, Option.some.injEq] at hs
    subst hs
    simp only [releaseByte]
    split <;> simp only [LockState.goto, update_self]
  | acquire | recover | giveUp | revalidate | release | abandon =>
    simp [lockStep, hpc] at hs

theorem Orderly.possession_step (hi : Orderly s ph) (hs : lockStep slots s l = some s')
    (hok : timely slots s l = true) (hrec : recovers g.acq s l = false) (hg : g ∈ s.grants)
    (hold : (s.pc g.proc).stage.acq = some g.acq → s.holder = some g.acq)
    (hin : (s'.pc g.proc).stage.acq = some g.acq) : s'.holder = some g.acq := by
  have hmove := lockStep_move hs
  have hbefore : (s.pc g.proc).stage.acq = some g.acq := by
    rcases hmove.acq_cases hin with h | h
    · exact h
    · exact absurd h (Nat.ne_of_lt (hi.acqs.grant_lt g hg))
  have hholder := hold hbefore
  obtain ⟨ph', hi', rfl | hphase⟩ := hmove.orderly hok hi
  · rw [hi'.holder, ← hi.holder, hholder]
  · have hph := hi.holder.symm.trans hholder
    rw [hi'.holder]
    cases hphase with
    | grant | release => exact hph
    | finish g' hpc =>
      -- the process that stored the zero was this one, and it is done
      have hproc : g.proc = l.1 := hi.acqs.inj _ _ g.acq hbefore (by rw [hpc]; exact hph)
      rw [hproc, idle_of_relByte hpc hs] at hin
      cases hin
    | recover _ stuck seen hpc hbyte => simp [recovers, hpc, hbyte, hholder] at hrec
    | acquire | clear | recovered => cases hph

theorem held_of_taken {acq claim : Nat} {tok : WriteLockToken} (hi : Orderly s ph)
    (hpc : s.pc p = .taken acq tok claim) (hok : timely slots s (p, .step) = true)
    (hs : lockStep slots s (p, .step) = some s') : Orderly s' (.held ⟨p, tok, acq, claim⟩) := by
  have hholder : s.holder = some acq := by
    simpa only [timely, hpc, beq_iff_eq] using hok
  simp only [lockStep, lockAccess, hpc, Option.some.injEq] at hs
  subst hs
  exact (hi.grant hpc hholder).2

theorem possession_run (hok : StepsOk (lockStep slots)
      (fun t l => timely slots t l = true ∧ recovers g.acq t l = false) s ls)
    (hrun : runs (lockStep slots) s ls = some s') (hi : Orderly s (.held g)) :
    (∃ ph, Orderly s' ph) ∧ ((s'.pc g.proc).stage.acq = some g.acq → s'.holder = some g.acq) := by
  have hinv := @runs_inv_of_ok _ _ _ _ (fun t => g ∈ t.grants ∧ (∃ ph, Orderly t ph) ∧
      ((t.pc g.proc).stage.acq = some g.acq → t.holder = some g.acq)) ?_ _ _ _ hok hrun
    ⟨hi.words.1, ⟨_, hi⟩, fun _ => hi.holder⟩
  · exact hinv.2
  · rintro t l t' ⟨hg, ⟨ph, hi⟩, hold⟩ ⟨htimely, hrec⟩ hs
    have hmove := lockStep_move hs
    obtain ⟨ph', hi', -⟩ := hmove.orderly htimely hi
    exact ⟨hmove.extends.grants g hg, ⟨ph', hi'⟩, hi.possession_step hs htimely hrec hg hold⟩

theorem held_run (hok : StepsOk (lockStep slots) (fun t l => (timely slots t l = true ∧
      recovers g.acq t l = false) ∧ releases g.acq t l = false) s ls)
    (hrun : runs (lockStep slots) s ls = some s') (hi : Orderly s (.held g)) :
    Orderly s' (.held g) :=
  @runs_inv_of_ok _ _ _ _ (fun t => Orderly t (.held g))
    (fun _ _ _ hi hl hs => hi.held_step hs hl.1.1 hl.1.2 hl.2) _ _ _ hok hrun hi

theorem Orderly.owner_of_free (hi : Orderly s ph) (hfree : s.byte = 0) : s.owner = 0 := by
  have hph : ph = .free := by
    by_contra hne
    exact hi.byte_ne_zero hne hfree
  subst hph
  exact hi.words.2

end

def overtakenRun : List (Nat × LockAct) :=
  (0, .acquire) :: List.replicate 4 (0, .step) ++
  (1, .acquire) :: List.replicate 3 (1, .step) ++
  (1, .recover) :: List.replicate 4 (1, .step) ++
  (1, .acquire) :: List.replicate 4 (1, .step)

theorem slotOfToken_some {value generation sl : Nat} (h : slotOfToken value generation = some sl) :
    (2 ≤ value ∧ value ≤ 253) ∧ sl < kSlots ∧
      sl = (value - 2 + 2 * kTokenRing - plainRingIndex generation - 1) % kTokenRing := by
  unfold slotOfToken at h
  split at h
  · cases h
  · next hrange =>
    simp only [] at h
    split at h <;> cases h
    next hlt =>
    exact ⟨⟨by omega, by omega⟩, hlt, rfl⟩

theorem slot_of_slotOfToken {slot : Option Nat} {generation sl : Nat}
    (hlt : ∀ n, slot = some n → n < kSlots)
    (h : slotOfToken (tokenOf slot generation) generation = some sl) : slot = some sl := by
  obtain ⟨htoken, hsl, heq⟩ := slotOfToken_some h
  have hring : plainRingIndex generation < kTokenRing := Nat.mod_lt _ (by decide)
  cases slot with
  | none =>
    -- the plain token sits at the one ring position that is nobody's slot
    simp only [tokenOf, plainRingIndex, kTokenRing, kSlots] at heq hsl htoken
    omega
  | some n =>
    have hn := hlt n rfl
    simp only [tokenOf, slotLockToken, kTokenRing, kSlots] at heq hring hn
    congr 1
    omega

structure TokenInv (slots : Nat → Option Nat) (s : LockState) : Prop where
  taken : ∀ p acq tok claim, s.pc p = .taken acq tok claim →
    tok.value = tokenOf (slots p) tok.generation
  granted : ∀ g ∈ s.grants, g.tok.value = tokenOf (slots g.proc) g.tok.generation

variable {s : LockState}

theorem LockMove.tokenInv {slots : Nat → Option Nat} {s' : LockState} (h : LockMove slots s p s')
    (hi : TokenInv slots s) : TokenInv slots s' := by
  have hother := fun q hq => h.pc_other (q := q) hq
  constructor
  · intro q acq tok claim htaken
    by_cases hq : q = p
    case neg => exact hi.taken q acq tok claim (hother q hq ▸ htaken)
    subst hq
    cases h with
    | stay pc hpc hans =>
      simp only [LockState.goto, update_self] at htaken
      exact hpc.value acq tok claim htaken
    | claim _ _ _ pc _ hnew =>
      simp only [LockState.goto, update_self] at htaken
      rcases hnew with rfl | rfl <;> cases htaken
    | fix =>
      simp only [LockState.goto, update_self] at htaken
      cases htaken
      rfl
    | observe | win | grant | recCas | recBump | recOwner | recFree | relOwner | relMiss
    | relByte =>
      simp only [storeOwner, recoverBump, LockState.goto, update_self] at htaken
      cases htaken
  · cases h with
    | grant acq tok claim hpc =>
      exact List.forall_mem_cons.mpr ⟨hi.taken p acq tok claim hpc, hi.granted⟩
    | stay | observe | win | claim | fix | recCas | recBump | recOwner | recFree | relOwner
    | relMiss | relByte => exact hi.granted

theorem tokenInv_run {slots : Nat → Option Nat} {gen₀ : Nat} {ls : List (Nat × LockAct)}
    (hrun : runs (lockStep slots) (LockState.fresh gen₀) ls = some s) : TokenInv slots s :=
  runs_inv (fun _ _ _ hi hs => (lockStep_move hs).tokenInv hi) hrun ⟨nofun, nofun⟩

def TookBy (s : LockState) (p acq : Nat) : Prop :=
  (s.pc p).stage.acq = some acq ∨ ∃ g ∈ s.grants, g.proc = p ∧ g.acq = acq

theorem Orderly.took_unique {ph : LockPhase} {g : Grant} (hi : Orderly s ph) (hg : g ∈ s.grants)
    (h : TookBy s p g.acq) : p = g.proc := by
  rcases h with hst | ⟨g', hg', rfl, hacq⟩
  · cases htok : (s.pc p).stage.token with
    | none => exact absurd rfl (hi.acqs.early p g.acq hst htok g hg)
    | some t =>
      have hacq := @LockStage.acq_of_token t.2 _ t.1 htok
      obtain ⟨g', hg', hproc, hacq', -⟩ := hi.acqs.token p t.1 t.2 htok
      have hsame := hi.acqs.grant_inj g' hg' g hg
        (hacq'.trans (Option.some.inj (hacq.symm.trans hst)))
      rw [← hproc, hsame]
  · rw [hi.acqs.grant_inj g' hg' g hg hacq]

theorem Orderly.held_of_owner {ph : LockPhase} (hi : Orderly s ph) (howner : s.owner ≠ 0)
    (htoken : s.byte ≤ 253) : ∃ g, ph = .held g := by
  have hwords := hi.words
  cases ph with
  | held g => exact ⟨g, rfl⟩
  | free => exact absurd hwords.2 howner
  | acquiring => exact absurd hwords.2.1 howner
  | releasing => exact absurd hwords.2.2.2.1 howner
  | recovering => exact absurd hwords.1 (Nat.not_lt.mpr htoken)

/-- A live holder is never proven dead. The probe answers dead exactly when
no living process holds the slot, and every step of the run is timely: when
`write_lock_holder_proven_dead` says yes of the triple that the words show,
the process whose acquisition is in the byte is dead. -/
theorem proven_dead_is_dead {slots : Nat → Option Nat} {gen₀ : Nat} {s : LockState}
    {ls : List (Nat × LockAct)} {liveness : WriterLiveness} {alive : Nat → Prop}
    (hslots : ∀ p sl, slots p = some sl → sl < kSlots)
    (hprobe : ∀ sl, liveness.probe sl = .dead ↔ ∀ p, alive p → slots p ≠ some sl)
    (hok : StepsOk (lockStep slots) (fun t l => timely slots t l = true) (LockState.fresh gen₀) ls)
    (hrun : runs (lockStep slots) (LockState.fresh gen₀) ls = some s)
    (hdead : writeLockHolderProvenDead (some liveness) s.byte s.gen s.owner = true) :
    ∃ acq, s.holder = some acq ∧ (∃ p, TookBy s p acq) ∧ ∀ p, TookBy s p acq → ¬ alive p := by
  obtain ⟨ph, hi⟩ := orderly_run hok hrun
  simp only [writeLockHolderProvenDead] at hdead
  split at hdead
  · cases hdead
  next howner =>
  split at hdead
  · cases hdead
  next sl hsl =>
  split at hdead
  · cases hdead
  obtain ⟨g, rfl⟩ := hi.held_of_owner howner (slotOfToken_some hsl).1.2
  obtain ⟨hg, -, hval, -⟩ := hi.words
  simp only [revalidateWriteLock, Bool.and_eq_true, beq_iff_eq] at hval
  -- the words are the grant's token, which decodes to its process's slot
  rw [hval.1.1, hval.1.2, (tokenInv_run hrun).granted g hg] at hsl
  have hslot := slot_of_slotOfToken (hslots g.proc) hsl
  refine ⟨g.acq, hi.holder, ⟨g.proc, .inr ⟨g, hg, rfl, rfl⟩⟩, fun p hp halive => ?_⟩
  rw [hi.took_unique hg hp] at halive
  exact (hprobe sl).mp (beq_iff_eq.mp hdead) g.proc halive hslot

def evenSlots (p : Nat) : Option Nat :=
  if p < 5 then some (2 * p) else none

def EvenAlive (crashed : Option Nat) (p : Nat) : Prop := p < 5 ∧ crashed ≠ some p

def evenLiveness (crashed : Option Nat) : WriterLiveness where
  slotOf := some 8
  probe sl := if sl % 2 = 0 ∧ sl < 10 ∧ crashed ≠ some (sl / 2) then .alive else .dead

theorem evenSlots_some {sl : Nat} (h : evenSlots p = some sl) : p < 5 ∧ sl = 2 * p := by
  unfold evenSlots at h
  split at h
  · next hp => exact ⟨hp, (Option.some.inj h).symm⟩
  · cases h

theorem evenSlots_lt (p sl : Nat) (h : evenSlots p = some sl) : sl < kSlots := by
  obtain ⟨hp, rfl⟩ := evenSlots_some h
  simp only [kSlots]
  omega

theorem evenLiveness_probe (crashed : Option Nat) (sl : Nat) :
    (evenLiveness crashed).probe sl = .dead ↔ ∀ p, EvenAlive crashed p → evenSlots p ≠ some sl := by
  constructor
  · intro hdead p hp hsl
    obtain ⟨hlt, rfl⟩ := evenSlots_some hsl
    have hhalf : 2 * p / 2 = p := by omega
    simp only [evenLiveness] at hdead
    rw [hhalf, if_pos ⟨Nat.mul_mod_right 2 p, by omega, hp.2⟩] at hdead
    cases hdead
  · intro h
    simp only [evenLiveness]
    rw [if_neg]
    rintro ⟨heven, hlt, halive⟩
    have hhalf : sl / 2 < 5 := by omega
    refine h (sl / 2) ⟨hhalf, halive⟩ ?_
    rw [evenSlots, if_pos hhalf, Nat.mul_div_cancel' (Nat.dvd_of_mod_eq_zero heven)]

def dressedUpRun : List (Nat × LockAct) :=
  (0, .acquire) :: List.replicate 4 (0, .step) ++
  (1, .acquire) :: List.replicate 3 (1, .step) ++
  (1, .recover) :: List.replicate 4 (1, .step) ++
  [(2, .acquire), (2, .step), (0, .step)] ++
  (4, .acquire) :: List.replicate 3 (4, .step) ++
  (4, .acquire) :: List.replicate 3 (4, .step)

/-- Process 2 is alive, as all five are, and is proven dead: the PID next to
its provisional token is the overtaken process 0's. -/
theorem live_holder_proven_dead : (∀ p sl, evenSlots p = some sl → sl < kSlots) ∧
    (∀ sl, (evenLiveness none).probe sl = .dead ↔ ∀ p, EvenAlive none p → evenSlots p ≠ some sl) ∧
    ∃ s, runs (lockStep evenSlots) (LockState.fresh 0) dressedUpRun = some s ∧
      s.pc 4 = .seenOwner 9 2 1 (some 1) ∧
      s.byte = 9 ∧ s.gen = 2 ∧ s.owner = 1 ∧
      writeLockHolderProvenDead (some (evenLiveness none)) 9 2 1 = true ∧
      s.holder = some 1 ∧ TookBy s 2 1 ∧ EvenAlive none 2 := by
  refine ⟨evenSlots_lt, evenLiveness_probe none, ?_⟩
  obtain ⟨s, hrun, hpc, hbyte, hgen, howner, hdead, hholder, htook⟩ : ∃ s, runs (lockStep
      evenSlots) (LockState.fresh 0) dressedUpRun = some s ∧ s.pc 4 = .seenOwner 9 2 1 (some 1) ∧
      s.byte = 9 ∧ s.gen = 2 ∧ s.owner = 1 ∧ writeLockHolderProvenDead (some (evenLiveness none)) 9
      2 1 = true ∧ s.holder = some 1 ∧ (s.pc 2).stage.acq = some 1 := by decide +kernel
  exact ⟨s, hrun, hpc, hbyte, hgen, howner, hdead, hholder, .inl htook, by decide, nofun⟩

def crashedRun : List (Nat × LockAct) :=
  (0, .acquire) :: List.replicate 5 (0, .step) ++
  (4, .acquire) :: List.replicate 3 (4, .step)

theorem proven_dead_is_dead_crashed :
    ∃ s, runs (lockStep evenSlots) (LockState.fresh 0) crashedRun = some s ∧
      writeLockHolderProvenDead (some (evenLiveness (some 0))) s.byte s.gen s.owner = true ∧
      ∃ acq, s.holder = some acq ∧ (∃ p, TookBy s p acq) ∧
        ∀ p, TookBy s p acq → ¬ EvenAlive (some 0) p := by
  obtain ⟨s, hrun, hdead⟩ : ∃ s, runs (lockStep evenSlots) (LockState.fresh 0) crashedRun = some s ∧
      writeLockHolderProvenDead (some (evenLiveness (some 0))) s.byte s.gen s.owner := by
    decide +kernel
  exact ⟨s, hrun, hdead, proven_dead_is_dead evenSlots_lt (evenLiveness_probe (some 0))
    (by decide +kernel) hrun hdead⟩

end CycloneCache.Ref

import CycloneCache.Proofs.LockMoves

namespace CycloneCache.Ref

open Lib Function

structure ClaimInv (gen₀ : Nat) (s : LockState) : Prop where
  gen : s.gen = (gen₀ + s.bumps) % genModulus
  pending : ∀ p acq generation claim, (s.pc p).claimAt = some (acq, generation, claim) →
      generation = (gen₀ + claim) % genModulus ∧ claim ≤ s.bumps
  pending_ne : ∀ p q c d, p ≠ q → (s.pc p).claimAt = some c →
    (s.pc q).claimAt = some d → c.2.2 ≠ d.2.2
  granted : ∀ g ∈ s.grants, g.tok.generation = (gen₀ + g.claim) % genModulus ∧ g.claim ≤ s.bumps
  granted_ne : ∀ g ∈ s.grants, ∀ p c, (s.pc p).claimAt = some c → g.claim ≠ c.2.2
  granted_inj : ∀ g ∈ s.grants, ∀ g' ∈ s.grants, g.claim = g'.claim → g = g'
  claims_le : ∀ c ∈ s.claims, c.2 ≤ s.bumps
  recovered_le : ∀ r ∈ s.recovered, r.2 ≤ s.bumps

variable {gen₀ p : Nat} {s s' : LockState} {slots : Nat → Option Nat}

theorem claimInv_fresh (h : gen₀ < genModulus) : ClaimInv gen₀ (LockState.fresh gen₀) where
  gen := (Nat.mod_eq_of_lt h).symm
  pending := by intro p acq generation claim hc; cases hc
  pending_ne := by intro p q c d _ hc; cases hc
  granted := by intro g hg; cases hg
  granted_ne := by intro g hg; cases hg
  granted_inj := by intro g hg; cases hg
  claims_le := by intro c hc; cases hc
  recovered_le := by intro r hr; cases hr

theorem ClaimInv.of_inherits (hi : ClaimInv gen₀ s)
    (hpc : ∀ p c, (s'.pc p).claimAt = some c → (s.pc p).claimAt = some c) (hgen : s'.gen = s.gen)
    (hbumps : s'.bumps = s.bumps) (hgrants : s'.grants = s.grants) (hclaims : s'.claims = s.claims)
    (hrec : s'.recovered = s.recovered) : ClaimInv gen₀ s' where
  gen := by rw [hgen, hbumps]; exact hi.gen
  pending := by
    intro p acq generation claim hc
    rw [hbumps]
    exact hi.pending p acq generation claim (hpc p _ hc)
  pending_ne := by
    intro p q c d hne hc hd
    exact hi.pending_ne p q c d hne (hpc p c hc) (hpc q d hd)
  granted := by rw [hgrants, hbumps]; exact hi.granted
  granted_ne := by
    rw [hgrants]
    intro g hg p c hc
    exact hi.granted_ne g hg p c (hpc p c hc)
  granted_inj := by rw [hgrants]; exact hi.granted_inj
  claims_le := by rw [hclaims, hbumps]; exact hi.claims_le
  recovered_le := by rw [hrec, hbumps]; exact hi.recovered_le

theorem claimAt_goto {pc : LockPc} (h : pc.claimAt = none ∨ pc.claimAt = (s.pc p).claimAt) (q : Nat)
    (c : Nat × Nat × Nat) (hc : ((s.goto p pc).pc q).claimAt = some c) :
    (s.pc q).claimAt = some c := by
  simp only [LockState.goto, update_apply] at hc
  split at hc
  · next hq =>
    subst hq
    rcases h with h | h <;> rw [h] at hc
    · cases hc
    · exact hc
  · exact hc

theorem mod_succ (gen₀ n : Nat) :
    ((gen₀ + n) % genModulus + 1) % genModulus = (gen₀ + (n + 1)) % genModulus := by
  rw [Nat.mod_add_mod, Nat.add_assoc]

theorem ClaimInv.claim {acq : Nat} {pc : LockPc} (hi : ClaimInv gen₀ s) (hnew : pc.claimAt = none ∨
      pc.claimAt = some (acq, (s.gen + 1) % genModulus, s.bumps + 1)) :
    ClaimInv gen₀ { s.goto p pc with
        gen := (s.gen + 1) % genModulus
        bumps := s.bumps + 1
        claims := (acq, s.bumps + 1) :: s.claims } := by
  -- a pending claim is the new one, at process p, or an old one
  have hcase : ∀ q c, ((s.goto p pc).pc q).claimAt = some c →
      (q = p ∧ c = (acq, (s.gen + 1) % genModulus, s.bumps + 1)) ∨ (s.pc q).claimAt = some c := by
    intro q c hc
    simp only [LockState.goto, update_apply] at hc
    split at hc
    · next hq =>
      rcases hnew with h | h <;> rw [h] at hc
      · cases hc
      · exact .inl ⟨hq, (Option.some.inj hc).symm⟩
    · exact .inr hc
  refine ⟨?_, ?_, ?_, ?_, ?_, hi.granted_inj, ?_, ?_⟩
  · show (s.gen + 1) % genModulus = (gen₀ + (s.bumps + 1)) % genModulus
    rw [hi.gen, mod_succ]
  · intro q a generation claim hc
    rcases hcase q _ hc with ⟨-, h⟩ | h
    · simp only [Prod.mk.injEq] at h
      obtain ⟨-, rfl, rfl⟩ := h
      refine ⟨?_, Nat.le_refl _⟩
      rw [hi.gen, mod_succ]
    · obtain ⟨hg, hle⟩ := hi.pending q a generation claim h
      exact ⟨hg, Nat.le_succ_of_le hle⟩
  · intro q r c d hne hc hd
    rcases hcase q c hc with ⟨hq, rfl⟩ | hc' <;>
      rcases hcase r d hd with ⟨hr, rfl⟩ | hd'
    · exact absurd (hq.trans hr.symm) hne
    · exact Nat.ne_of_gt (Nat.lt_succ_of_le (hi.pending r _ _ _ hd').2)
    · exact Nat.ne_of_lt (Nat.lt_succ_of_le (hi.pending q _ _ _ hc').2)
    · exact hi.pending_ne q r c d hne hc' hd'
  · intro g hg
    exact ⟨(hi.granted g hg).1, Nat.le_succ_of_le (hi.granted g hg).2⟩
  · intro g hg q c hc
    rcases hcase q c hc with ⟨-, rfl⟩ | hc'
    · exact Nat.ne_of_lt (Nat.lt_succ_of_le (hi.granted g hg).2)
    · exact hi.granted_ne g hg q c hc'
  · refine List.forall_mem_cons.mpr ⟨Nat.le_refl _, fun c hc => ?_⟩
    exact Nat.le_succ_of_le (hi.claims_le c hc)
  · intro r hr
    exact Nat.le_succ_of_le (hi.recovered_le r hr)

theorem ClaimInv.grant {acq claim : Nat} {tok : WriteLockToken} (hi : ClaimInv gen₀ s)
    (hpc : s.pc p = .taken acq tok claim) : ClaimInv gen₀ (storeOwner s p acq tok claim) := by
  have hp : (s.pc p).claimAt = some (acq, tok.generation, claim) := by
    rw [hpc]; rfl
  -- what is still pending belongs to another process
  have hcase : ∀ q c, ((storeOwner s p acq tok claim).pc q).claimAt = some c →
      q ≠ p ∧ (s.pc q).claimAt = some c := by
    intro q c hc
    simp only [storeOwner, LockState.goto, update_apply] at hc
    split at hc
    · cases hc
    · next hq => exact ⟨hq, hc⟩
  refine ⟨hi.gen, ?_, ?_, ?_, ?_, ?_, hi.claims_le, hi.recovered_le⟩
  · intro q a generation n hc
    exact hi.pending q a generation n (hcase q _ hc).2
  · intro q r c d hne hc hd
    exact hi.pending_ne q r c d hne (hcase q c hc).2 (hcase r d hd).2
  · exact List.forall_mem_cons.mpr ⟨hi.pending p _ _ _ hp, hi.granted⟩
  · intro g hg q c hc
    obtain ⟨hq, hc'⟩ := hcase q c hc
    rcases List.mem_cons.mp hg with rfl | hg
    · exact hi.pending_ne p q _ c hq.symm hp hc'
    · exact hi.granted_ne g hg q c hc'
  · intro g hg g' hg' heq
    rcases List.mem_cons.mp hg with rfl | hg <;>
      rcases List.mem_cons.mp hg' with rfl | hg'
    · rfl
    · exact absurd heq.symm (hi.granted_ne g' hg' p _ hp)
    · exact absurd heq (hi.granted_ne g hg p _ hp)
    · exact hi.granted_inj g hg g' hg' heq

theorem ClaimInv.recover {victim : Option Nat} (hi : ClaimInv gen₀ s) :
    ClaimInv gen₀ (recoverBump s p victim) := by
  have hcase : ∀ q c, ((recoverBump s p victim).pc q).claimAt = some c →
      (s.pc q).claimAt = some c :=
    claimAt_goto (.inl rfl)
  refine ⟨?_, ?_, ?_, ?_, ?_, hi.granted_inj, ?_, ?_⟩
  · show (s.gen + 1) % genModulus = (gen₀ + (s.bumps + 1)) % genModulus
    rw [hi.gen, mod_succ]
  · intro q a generation claim hc
    obtain ⟨hg, hle⟩ := hi.pending q a generation claim (hcase q _ hc)
    exact ⟨hg, Nat.le_succ_of_le hle⟩
  · intro q r c d hne hc hd
    exact hi.pending_ne q r c d hne (hcase q c hc) (hcase r d hd)
  · intro g hg
    exact ⟨(hi.granted g hg).1, Nat.le_succ_of_le (hi.granted g hg).2⟩
  · intro g hg q c hc
    exact hi.granted_ne g hg q c (hcase q c hc)
  · intro c hc
    exact Nat.le_succ_of_le (hi.claims_le c hc)
  · intro r hr
    rcases List.mem_append.mp hr with hr | hr
    · obtain ⟨a, -, rfl⟩ := List.mem_map.mp hr
      exact Nat.le_refl _
    · exact Nat.le_succ_of_le (hi.recovered_le r hr)

theorem LockMove.claimInv (h : LockMove slots s p s') (hi : ClaimInv gen₀ s) :
    ClaimInv gen₀ s' := by
  cases h with
  | stay pc hpc =>
    exact hi.of_inherits (claimAt_goto hpc.claimAt) rfl rfl rfl rfl rfl
  | observe | win | recCas | recOwner | recFree | relOwner | relMiss | relByte =>
    exact hi.of_inherits (claimAt_goto (.inl rfl)) rfl rfl rfl rfl rfl
  | claim acq held afterCas pc hpc hnew =>
    apply hi.claim
    rcases hnew with rfl | rfl
    · exact .inl rfl
    · exact .inr rfl
  | fix acq held generation claim hpc hne hbyte =>
    exact hi.of_inherits (claimAt_goto (.inr (by rw [hpc]; rfl))) rfl rfl rfl rfl rfl
  | grant acq tok claim hpc => exact hi.grant hpc
  | recBump victim hpc => exact hi.recover

theorem claimInv_run {ls : List (Nat × LockAct)} (hi : ClaimInv gen₀ s)
    (h : runs (lockStep slots) s ls = some s') : ClaimInv gen₀ s' :=
  runs_inv (fun _ _ _ hinv hs => (lockStep_move hs).claimInv hinv) h hi

theorem ClaimInv.claim_eq_bumps {g : Grant} (hi : ClaimInv gen₀ s) (hg : g ∈ s.grants)
    (hrecent : s.bumps < g.claim + genModulus) (hgen : s.gen = g.tok.generation) :
    g.claim = s.bumps := by
  obtain ⟨htok, hle⟩ := hi.granted g hg
  rw [hi.gen, htok] at hgen
  -- both numbers lie in one window of 2^16
  have hmod : (gen₀ + s.bumps) % genModulus = (gen₀ + g.claim) % genModulus := hgen
  simp only [genModulus] at hmod hrecent
  omega

theorem gen_of_revalidate {tok : WriteLockToken} (h : revalidateWriteLock s p tok = true) :
    s.gen = tok.generation := by
  simp only [revalidateWriteLock, Bool.and_eq_true, beq_iff_eq] at h
  exact h.1.1

structure LockState.Extends (s s' : LockState) : Prop where
  bumps : s.bumps ≤ s'.bumps
  grants : ∀ g ∈ s.grants, g ∈ s'.grants

theorem LockMove.extends (h : LockMove slots s p s') : s.Extends s' := by
  cases h with
  | claim | recBump => exact ⟨Nat.le_succ _, fun _ hg => hg⟩
  | grant => exact ⟨Nat.le_refl _, fun _ hg => List.mem_cons_of_mem _ hg⟩
  | stay | observe | win | fix | recCas | recOwner | recFree | relOwner
  | relMiss | relByte => exact ⟨Nat.le_refl _, fun _ hg => hg⟩

theorem extends_run {ls : List (Nat × LockAct)} (h : runs (lockStep slots) s ls = some s') :
    s.Extends s' := by
  refine runs_inv (fun t l t' ht hl => ?_) h ⟨Nat.le_refl _, fun _ hg => hg⟩
  have hstep := (lockStep_move hl).extends
  exact ⟨Nat.le_trans ht.bumps hstep.bumps, fun g hg => hstep.grants g (ht.grants g hg)⟩

def Superseded (s : LockState) (g : Grant) : Prop :=
  (∃ k, (g.acq, k) ∈ s.recovered ∧ g.claim < k) ∨ ∃ acq k, (acq, k) ∈ s.claims ∧ g.claim < k

theorem ClaimInv.bumped_of_superseded {g : Grant} (hi : ClaimInv gen₀ s) (h : Superseded s g) :
    g.claim < s.bumps := by
  rcases h with ⟨k, hk, hlt⟩ | ⟨acq, k, hk, hlt⟩
  · exact Nat.lt_of_lt_of_le hlt (hi.recovered_le _ hk)
  · exact Nat.lt_of_lt_of_le hlt (hi.claims_le _ hk)

/-- Write-lock exclusion. In every state of every interleaving, two tokens
that both pass `revalidate_write_lock` are the same token; and a token that
has been superseded in some state passes in no later one. The first load of
`revalidate_write_lock` is the generation's, so the differing word alone
makes every later call fail, however its loads are spread out. A recovery
counts from its generation bump, which precedes its return. -/
theorem writeLock_exclusion {slots : Nat → Option Nat} {gen₀ : Nat}
    {s : LockState} {ls : List (Nat × LockAct)} (hgen : gen₀ < genModulus)
    (hrun : runs (lockStep slots) (LockState.fresh gen₀) ls = some s) :
    (∀ g ∈ s.grants, ∀ g' ∈ s.grants,
      s.bumps < g.claim + genModulus → s.bumps < g'.claim + genModulus →
      revalidateWriteLock s g.proc g.tok = true →
      revalidateWriteLock s g'.proc g'.tok = true → g = g') ∧
    (∀ g ∈ s.grants, Superseded s g → ∀ ls' s', runs (lockStep slots) s ls' = some s' →
      s'.bumps < g.claim + genModulus →
      s'.gen ≠ g.tok.generation ∧ revalidateWriteLock s' g.proc g.tok = false) := by
  have hi := claimInv_run (claimInv_fresh hgen) hrun
  constructor
  · intro g hg g' hg' hrecent hrecent' hv hv'
    have h₁ := hi.claim_eq_bumps hg hrecent (gen_of_revalidate hv)
    have h₂ := hi.claim_eq_bumps hg' hrecent' (gen_of_revalidate hv')
    exact hi.granted_inj g hg g' hg' (h₁.trans h₂.symm)
  · intro g hg hsup ls' s' hrun' hrecent
    have hi' := claimInv_run hi hrun'
    have hext := extends_run hrun'
    have hpast := Nat.lt_of_lt_of_le (hi.bumped_of_superseded hsup) hext.bumps
    have hne : s'.gen ≠ g.tok.generation := fun h =>
      absurd (hi'.claim_eq_bumps (hext.grants g hg) hrecent h) (Nat.ne_of_lt hpast)
    refine ⟨hne, ?_⟩
    by_contra hv
    exact hne (gen_of_revalidate (Bool.not_eq_false _ ▸ hv))

def recoveredRun : List (Nat × LockAct) :=
  (0, .acquire) :: List.replicate 5 (0, .step) ++
  (1, .acquire) :: List.replicate 3 (1, .step) ++
  (1, .recover) :: List.replicate 4 (1, .step)

theorem writeLock_exclusion_recovered :
    ∃ s, runs (lockStep fun _ => none) (LockState.fresh 0) recoveredRun = some s ∧
      ⟨0, ⟨1, 2⟩, 0, 1⟩ ∈ s.grants ∧ (0, 2) ∈ s.recovered ∧
      revalidateWriteLock s 0 ⟨1, 2⟩ = false := by
  obtain ⟨s, hrun, hg, hrec, hbumps⟩ : ∃ s, runs (lockStep fun _ => none) (LockState.fresh 0)
      recoveredRun = some s ∧ ⟨0, ⟨1, 2⟩, 0, 1⟩ ∈ s.grants ∧ (0, 2) ∈ s.recovered ∧ s.bumps = 2 :=
      by decide +kernel
  have hsup : Superseded s ⟨0, ⟨1, 2⟩, 0, 1⟩ := .inl ⟨2, hrec, by decide⟩
  refine ⟨s, hrun, hg, hrec, ?_⟩
  exact ((writeLock_exclusion (by decide) hrun).2 _ hg hsup [] s rfl (by rw [hbumps]; decide)).2

end CycloneCache.Ref

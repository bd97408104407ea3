import CycloneCache.Ref.ForkGate
import CycloneCache.Lib.Headcount

namespace CycloneCache.Ref.ForkGate

open Lib Function

namespace Pc

def announced : Pc → Bool
  | .look | .backOut | .leave => true
  | _ => false

def past : Pc → Bool
  | .lock | .prepared | .unpend => true
  | _ => false

def pending (pc : Pc) : Bool := pc == .quiesce || pc.past

end Pc

namespace Thread

def Counted (th : Thread) : Prop := th.depth ≠ 0 ∨ th.pc.announced = true

def Pending (th : Thread) : Prop := th.pc.pending = true

structure Ok (th : Thread) : Prop where
  depth : th.depth = th.entered.count true
  shallow : th.pc ≠ .outside → th.depth = 0

variable {th : Thread}

theorem Inside.counted (h : th.Inside) : th.Counted := by
  rcases h with h | h
  · exact .inl h
  · exact .inr (by rw [h]; rfl)

theorem Forking.past (h : th.Forking) : th.pc.past = true := by
  rcases h with h | h <;> rw [h] <;> rfl

theorem pending_of_past (h : th.pc.past = true) : th.Pending := by
  simp [Pending, Pc.pending, h]

theorem Ok.not_inside (hok : th.Ok) (h : th.pc.past = true) : ¬ th.Inside := by
  obtain ⟨pc, depth, entered⟩ := th
  rintro (hdepth | hleave)
  · refine hdepth (hok.shallow fun hout => ?_)
    cases hout
    cases h
  · cases hleave
    cases h

theorem Over.not_counted (h : th.Over) : ¬ th.Counted := by
  simp [Counted, h.1, h.2, Pc.announced]

theorem Over.not_pending (h : th.Over) : ¬ th.Pending := by
  simp [Pending, h.1, Pc.pending, Pc.past]

end Thread

section

variable {T : Type} [DecidableEq T]

structure Moved (s s' : Gate T) (t : T) (th th' : Thread) : Prop where
  threads : s'.threads = Function.update s.threads t th'
  ok : th'.Ok
  active : Tracks Thread.Counted th th' s.passesActive s'.passesActive
  pending : Tracks Thread.Pending th th' s.forksPending s'.forksPending
  inside : th'.Inside → th.Inside ∨ s.forksPending = 0
  past : th'.pc.past = true → th.pc.past = true ∨ s.passesActive = 0

theorem tracks_same {phase : Pc → Bool} {pc pc' : Pc} {n : Nat} (h : phase pc = phase pc') :
    Tracks (fun pc => phase pc = true) pc pc' n n :=
  .inl ⟨by simp only [h], rfl⟩

section

variable {s s' : Gate T} {t : T} {pc pc' : Pc} {entered : List Bool}

theorem moved_outside (hnone : entered.count true = 0)
    (hs' : s'.threads = update s.threads t ⟨pc', 0, entered⟩)
    (hactive : Tracks (fun pc => pc.announced = true) pc pc' s.passesActive s'.passesActive)
    (hpending : Tracks (fun pc => pc.pending = true) pc pc' s.forksPending s'.forksPending)
    (hleave : pc' ≠ .leave) (hpast : pc'.past = true → pc.past = true ∨ s.passesActive = 0) :
    Moved s s' t ⟨pc, 0, entered⟩ ⟨pc', 0, entered⟩ where
  threads := hs'
  ok := ⟨hnone.symm, fun _ => rfl⟩
  active := by simpa [Tracks, Thread.Counted] using hactive
  pending := by simpa [Tracks, Thread.Pending] using hpending
  inside h := by simp [Thread.Inside, hleave] at h
  past := hpast

theorem moved_put (hnone : entered.count true = 0) (hactive : pc.announced = pc'.announced)
    (hpending : pc.pending = pc'.pending) (hleave : pc' ≠ .leave)
    (hpast : pc'.past = true → pc.past = true ∨ s.passesActive = 0) :
    Moved s (s.put t ⟨pc', 0, entered⟩) t ⟨pc, 0, entered⟩ ⟨pc', 0, entered⟩ :=
  moved_outside hnone rfl (tracks_same hactive) (tracks_same hpending) hleave hpast

variable {th : Thread}

theorem moved_inside {depth : Nat} (hdepth : depth ≠ 0) (hok : th.Ok) (hin : th.Inside)
    (hpc : th.pc = .outside ∨ th.pc = .leave) :
    Moved s (s.put t th) t ⟨.outside, depth, entered⟩ th where
  threads := rfl
  ok := hok
  active := .inl ⟨iff_of_true (.inl hdepth) hin.counted, rfl⟩
  pending := by
    refine .inl ⟨iff_of_false (by simp [Thread.Pending, Pc.pending, Pc.past]) ?_, rfl⟩
    rcases hpc with hpc | hpc <;> simp [Thread.Pending, hpc, Pc.pending, Pc.past]
  inside _ := .inl (.inl hdepth)
  past h := by rcases hpc with hpc | hpc <;> simp [hpc, Pc.past] at h

theorem moved_entered {entered' : List Bool} {depth : Nat}
    (hnone : entered'.count true = depth) (hpc : pc.pending = false)
    (hactive : pc.announced = true ↔ depth ≠ 0) (hfree : depth ≠ 0 → s.forksPending = 0) :
    Moved s (s.put t ⟨.outside, depth, entered'⟩) t ⟨pc, 0, entered⟩
      ⟨.outside, depth, entered'⟩ where
  threads := rfl
  ok := ⟨hnone.symm, fun h => absurd rfl h⟩
  active := .inl ⟨by simp [Thread.Counted, hactive, show Pc.outside.announced = false from rfl], rfl⟩
  pending := .inl ⟨by simp [Thread.Pending, hpc, show Pc.outside.pending = false from rfl], rfl⟩
  inside h := .inr (hfree (by simpa [Thread.Inside] using h))
  past h := by simp [Pc.past] at h

theorem pass_moved (hok : th.Ok) (h : pass s t th = some s') : ∃ th', Moved s s' t th th' := by
  obtain ⟨pc, depth, entered⟩ := th
  unfold pass at h
  split at h
  · cases h
  · next hpc =>
    cases not_not.mp hpc
    split at h
    · next hdepth =>
      cases h
      refine ⟨_, moved_inside hdepth ⟨?_, fun hne => absurd rfl hne⟩ (.inl ?_) (.inl rfl)⟩
      · simp [show depth = entered.count true from hok.depth]
      · simp
    · next hdepth =>
      cases not_not.mp hdepth
      cases h
      exact ⟨_, moved_put hok.depth.symm rfl rfl (by decide) (nomatch ·)⟩

theorem unpass_moved (hok : th.Ok) (h : unpass s t th = some s') : ∃ th', Moved s s' t th th' := by
  obtain ⟨pc, depth, entered⟩ := th
  have hdepth : depth = entered.count true := hok.depth
  unfold unpass at h
  split at h
  · cases h
  · next hpc =>
    cases not_not.mp hpc
    simp only [] at h
    split at h
    · cases h
    · next rest =>
      -- a pass that was not entered
      cases h
      refine ⟨_, rfl, ⟨?_, hok.shallow⟩, .inl ⟨Iff.rfl, rfl⟩, .inl ⟨Iff.rfl, rfl⟩, .inl, .inl⟩
      simpa using hdepth
    · next rest =>
      rw [List.count_cons_self] at hdepth
      have hne : depth ≠ 0 := by omega
      split at h <;> cases h
      · next hlast =>
        have hzero : rest.count true = 0 := by omega
        exact ⟨_, moved_inside hne ⟨hzero.symm, fun _ => rfl⟩ (.inr rfl) (.inr rfl)⟩
      · next hmore =>
        refine ⟨_, moved_inside hne ⟨?_, fun hne' => absurd rfl hne'⟩ (.inl hmore) (.inl rfl)⟩
        simp only
        omega

theorem fork_moved (hok : th.Ok) (hzero : th.depth = 0) (h : fork s t th = some s') :
    ∃ th', Moved s s' t th th' := by
  obtain ⟨pc, depth, entered⟩ := th
  cases hzero
  unfold fork at h
  split at h
  · cases h
  · next hpc =>
    cases not_not.mp hpc
    cases h
    exact ⟨_, moved_put hok.depth.symm rfl rfl (by decide) (nomatch ·)⟩

theorem stop_moved (hok : th.Ok) (h : stop s t th = some s') : ∃ th', Moved s s' t th th' := by
  obtain ⟨pc, depth, entered⟩ := th
  unfold stop at h
  split at h
  · next hpc =>
    cases hpc
    cases (hok.shallow (by simp) : depth = 0)
    cases h
    refine ⟨_, moved_entered ?_ rfl (by simp [Pc.announced]) (absurd rfl)⟩
    rw [List.count_cons_of_ne (by decide)]
    exact hok.depth.symm
  · cases h

theorem atomicStep_moved (hok : th.Ok) (h : atomicStep s t th = some s') :
    s' = s ∨ ∃ th', Moved s s' t th th' := by
  obtain ⟨pc, depth, entered⟩ := th
  by_cases hout : pc = .outside
  · subst hout
    cases h
  cases (hok.shallow hout : depth = 0)
  have hnone : entered.count true = 0 := hok.depth.symm
  cases pc with
  | outside => exact absurd rfl hout
  | announce =>
    cases h
    exact .inr ⟨_, moved_outside hnone rfl (.inr (.inl ⟨by decide, rfl, rfl⟩))
      (tracks_same rfl) (by decide) (nomatch ·)⟩
  | look =>
    simp only [atomicStep] at h
    split at h <;> cases h
    · next hfree =>
      exact .inr ⟨_, moved_entered (by simp [hnone]) rfl (by decide) fun _ => hfree⟩
    · exact .inr ⟨_, moved_put hnone rfl rfl (by decide) (nomatch ·)⟩
  | backOut | leave =>
    cases h
    exact .inr ⟨_, moved_outside hnone rfl (.inr (.inr ⟨rfl, by decide, rfl⟩))
      (tracks_same rfl) (by decide) (nomatch ·)⟩
  | wait =>
    simp only [atomicStep] at h
    split at h <;>
    · cases h
      exact .inr ⟨_, moved_put hnone rfl rfl (by decide) (nomatch ·)⟩
  | stopCheck =>
    cases h
    exact .inr ⟨_, moved_put hnone rfl rfl (by decide) (nomatch ·)⟩
  | pend =>
    cases h
    exact .inr ⟨_, moved_outside hnone rfl (tracks_same rfl)
      (.inr (.inl ⟨by decide, rfl, rfl⟩)) (by decide) (nomatch ·)⟩
  | quiesce =>
    simp only [atomicStep] at h
    split at h
    · exact .inl (Option.some.inj h).symm
    · next hquiet =>
      cases h
      exact .inr ⟨_, moved_put hnone rfl rfl (by decide) fun _ => .inr (not_not.mp hquiet)⟩
  | lock =>
    simp only [atomicStep] at h
    split at h <;> cases h
    exact .inr ⟨_, moved_outside hnone rfl (tracks_same rfl) (tracks_same rfl) (by decide)
      fun _ => .inl rfl⟩
  | prepared =>
    cases h
    exact .inr ⟨_, moved_outside hnone rfl (tracks_same rfl) (tracks_same rfl) (by simp)
      fun _ => .inl rfl⟩
  | unpend =>
    cases h
    exact .inr ⟨_, moved_outside hnone rfl (tracks_same rfl)
      (.inr (.inr ⟨rfl, by decide, rfl⟩)) (by decide) (nomatch ·)⟩

end

end

variable {T : Type}

structure Inv (s : Gate T) : Prop where
  ok : ∀ t, (s.threads t).Ok
  active : (s.passesActive : ℕ∞) = headcount (fun _ => Thread.Counted) s.threads
  pending : (s.forksPending : ℕ∞) = headcount (fun _ => Thread.Pending) s.threads
  gated : ∀ t u, (s.threads t).pc.past = true → ¬ (s.threads u).Inside

namespace Inv

variable {s s' : Gate T}

theorem none_inside (h : Inv s) (hzero : s.passesActive = 0) (u : T) : ¬ (s.threads u).Inside := by
  intro hin
  have hcount := h.active
  rw [hzero, Nat.cast_zero] at hcount
  exact headcount_eq_zero.mp hcount.symm u hin.counted

theorem none_past (h : Inv s) (hzero : s.forksPending = 0) (t : T) :
    ¬ (s.threads t).pc.past = true := by
  intro hpast
  have hcount := h.pending
  rw [hzero, Nat.cast_zero] at hcount
  exact headcount_eq_zero.mp hcount.symm t (Thread.pending_of_past hpast)

theorem counters_over (h : Inv s) (hover : ∀ t, (s.threads t).Over) :
    s.forksPending = 0 ∧ s.passesActive = 0 := by
  have hpending := h.pending
  have hactive := h.active
  rw [headcount_eq_zero.mpr fun t => (hover t).not_pending] at hpending
  rw [headcount_eq_zero.mpr fun t => (hover t).not_counted] at hactive
  exact ⟨by exact_mod_cast hpending, by exact_mod_cast hactive⟩

theorem of_over (hok : ∀ t, (s.threads t).Ok) (hover : ∀ t, (s.threads t).Over)
    (hpending : s.forksPending = 0) (hactive : s.passesActive = 0) : Inv s where
  ok := hok
  active := by
    rw [hactive, headcount_eq_zero.mpr fun t => (hover t).not_counted]
    rfl
  pending := by
    rw [hpending, headcount_eq_zero.mpr fun t => (hover t).not_pending]
    rfl
  gated t u hpast := by
    rw [(hover t).1] at hpast
    cases hpast

variable [DecidableEq T]

theorem moved (h : Inv s) {t : T} {th : Thread} (hm : Moved s s' t (s.threads t) th) : Inv s' where
  ok := by
    rw [hm.threads]
    exact (forall_update_iff s.threads fun _ th => th.Ok).mpr ⟨hm.ok, fun u _ => h.ok u⟩
  active := by
    rw [hm.threads]
    exact hm.active.headcount_eq h.active
  pending := by
    rw [hm.threads]
    exact hm.pending.headcount_eq h.pending
  gated v u hpast hin := by
    rw [hm.threads] at hpast hin
    by_cases hv : v = t
    · subst hv
      rw [update_self] at hpast
      by_cases hu : u = v
      · subst hu
        rw [update_self] at hin
        exact hm.ok.not_inside hpast hin
      · rw [update_of_ne hu] at hin
        rcases hm.past hpast with hold | hquiet
        · exact h.gated v u hold hin
        · exact h.none_inside hquiet u hin
    · rw [update_of_ne hv] at hpast
      by_cases hu : u = t
      · subst hu
        rw [update_self] at hin
        rcases hm.inside hin with hold | hfree
        · exact h.gated v u hpast hold
        · exact h.none_past hfree v hpast
      · rw [update_of_ne hu] at hin
        exact h.gated v u hpast hin

end Inv

variable [DecidableEq T] {s : Gate T}

theorem onForkChild_inv {t : T} {th : Thread} (hok : th.Ok) (hzero : th.depth = 0) :
    Inv (onForkChild s t th) := by
  have hthreads : ∀ u, ((onForkChild s t th).threads u).Ok ∧
      ((onForkChild s t th).threads u).Over := by
    intro u
    unfold onForkChild
    by_cases hu : u = t
    · subst hu
      simp only [update_self]
      exact ⟨⟨hok.depth, fun hne => absurd rfl hne⟩, rfl, hzero⟩
    · simp only [update_of_ne hu]
      exact ⟨⟨rfl, fun _ => rfl⟩, rfl, rfl⟩
  exact Inv.of_over (fun u => (hthreads u).1) (fun u => (hthreads u).2) rfl
    (by simp [onForkChild, hzero])

theorem step_inv {s' : Gate T} {l : Act T} (h : Inv s) (hok : FromOutside s l)
    (hl : gateStep s l = some s') : Inv s' := by
  cases l with
  | pass t =>
    obtain ⟨th, hm⟩ := pass_moved (h.ok t) hl
    exact h.moved hm
  | unpass t =>
    obtain ⟨th, hm⟩ := unpass_moved (h.ok t) hl
    exact h.moved hm
  | fork t =>
    obtain ⟨th, hm⟩ := fork_moved (h.ok t) hok hl
    exact h.moved hm
  | step t =>
    rcases atomicStep_moved (h.ok t) hl with rfl | ⟨th, hm⟩
    · exact h
    · exact h.moved hm
  | stop t =>
    obtain ⟨th, hm⟩ := stop_moved (h.ok t) hl
    exact h.moved hm
  | child t =>
    simp only [gateStep] at hl
    split at hl <;> cases hl
    next hpc =>
    exact onForkChild_inv (h.ok t) ((h.ok t).shallow (by simp [hpc]))

theorem run_inv {ls : List (Act T)} (hok : StepsOk gateStep FromOutside {} ls)
    (hrun : runs gateStep {} ls = some s) : Inv s :=
  runs_inv_of_ok (fun _ _ _ h hok hl => step_inv h hok hl) hok hrun
    (Inv.of_over (fun _ => ⟨rfl, fun _ => rfl⟩) (fun _ => ⟨rfl, rfl⟩) rfl rfl)

/-- The fork gate, for any threads: while a thread forks no thread is inside a
pass, the counters go back to zero with the passes and forks that moved them,
and they are zero in a child whatever they held. -/
theorem fork_gate {s : Gate T} {ls : List (Act T)} (hok : StepsOk gateStep FromOutside {} ls)
    (hrun : runs gateStep {} ls = some s) :
    (∀ t u, (s.threads t).Forking → ¬ (s.threads u).Inside) ∧
      ((∀ t, (s.threads t).Over) → s.forksPending = 0 ∧ s.passesActive = 0) ∧
      ∀ t forks passes s',
        gateStep { s with forksPending := forks, passesActive := passes } (.child t) = some s' →
          s'.forksPending = 0 ∧ s'.passesActive = 0 := by
  have hinv := run_inv hok hrun
  refine ⟨fun t u hfork => hinv.gated t u hfork.past, hinv.counters_over,
    fun t forks passes s' hl => ?_⟩
  simp only [gateStep] at hl
  split at hl <;> cases hl
  next hpc =>
  have hzero := (hinv.ok t).shallow (by simp [hpc])
  exact ⟨rfl, by simp [onForkChild, hzero]⟩

def passThenFork : List (Act Nat) :=
  [.pass 0, .step 0, .step 0, .pass 0, .fork 1, .step 1, .step 1, .unpass 0, .unpass 0, .step 0,
    .pass 2, .step 2, .step 2, .step 2, .step 2, .stop 2, .step 1, .step 1]

theorem fork_gate_passThenFork :
    ∃ s, runs gateStep {} passThenFork = some s ∧ (s.threads 1).Forking ∧ s.forksPending = 1 ∧
      ∀ u, ¬ (s.threads u).Inside := by
  obtain ⟨s, hrun, hpc, hpending⟩ : ∃ s, runs gateStep ({} : Gate Nat) passThenFork = some s ∧
      (s.threads 1).pc = .prepared ∧ s.forksPending = 1 := by decide +kernel
  have hok : StepsOk gateStep FromOutside ({} : Gate Nat) passThenFork := by decide +kernel
  exact ⟨s, hrun, .inl hpc, hpending, fun u => (fork_gate hok hrun).1 1 u (.inl hpc)⟩

end CycloneCache.Ref.ForkGate

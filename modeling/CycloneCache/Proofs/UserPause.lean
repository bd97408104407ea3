import CycloneCache.Ref.UserPause

/-!
# When a user pause holds

The monitor resumes the pool without a look at `_paused`, and pauses it after
its exchange whatever has happened since. These two statements are the only
ones that can break the promise of `pause`, and a step of either kind breaks
it at once if it is taken in the wrong state (`Calm`); every other step keeps
the invariant. So a run keeps the promise exactly if its monitor steps are
calm.
-/

namespace CycloneCache.Ref.UserPause

open Lib

variable {c : Config} {s s' : State} {l : Label}

/-- The monitor does not resume the pool while a user pause is in force, and
does not pause it after a `resume` has taken back the shedding it announced. -/
def Calm (s : State) : Label → Prop
  | .monitor .. =>
    (s.monitor = .poolResume → ¬ s.UserPaused) ∧
      (s.monitor = .poolPause → s.user = .idle → s.paused = false → s.loadShedding = true)
  | _ => True

structure Inv (s : State) : Prop where
  user : s.UserPaused → s.poolPaused = true
  /-- With no reason left, the pool is running or about to be resumed. -/
  pool : s.user = .idle → s.paused = false → s.loadShedding = false → s.poolPaused = true →
    s.monitor = .poolResume
  pausing : s.user = .pausing → s.paused = true
  resuming : s.user = .clearing ∨ s.user = .resuming → s.paused = false

theorem Inv.pauseHolds (h : Inv s) : s.PauseHolds := by
  refine ⟨h.user, fun hsettled hpaused hshedding => ?_⟩
  by_contra hpool
  have hmonitor := h.pool hsettled.1 hpaused hshedding (Bool.of_not_eq_false hpool)
  rw [hsettled.2] at hmonitor
  cases hmonitor

theorem Inv.userStep (h : Inv s) (hstep : userStep s = some s') : Inv s' := by
  simp only [UserPause.userStep] at hstep
  split at hstep
  · cases hstep
  all_goals cases hstep
  · next hu => exact ⟨fun _ => rfl, fun _ hp => (nomatch (h.pausing hu).symm.trans hp), nofun, nofun⟩
  · next hu =>
    exact ⟨fun hp => (nomatch hp.1), nofun, nofun, fun _ => h.resuming (.inl hu)⟩
  · next hu =>
    exact ⟨fun hp => (nomatch (h.resuming (.inr hu)).symm.trans hp.2), nofun, nofun, nofun⟩

theorem Inv.monitorStep (h : Inv s) (a b : Bool) (now : Int) (hcalm : Calm s (.monitor a b now)) :
    Inv (monitorStep c s a b now) := by
  obtain ⟨hresume, hpause⟩ := hcalm
  -- a step that moves neither the pool nor the shedding flag, from where the pool is not resumed
  have hmove {cd : Bool} {t : Int} {m : Monitor} (hm : s.monitor ≠ .poolResume) :
      Inv { s with inCooldown := cd, loadDropTime := t, monitor := m } :=
    ⟨h.user, fun hu hp hs hq => absurd (h.pool hu hp hs hq) hm, h.pausing, h.resuming⟩
  cases hmon : s.monitor with simp only [UserPause.monitorStep, hmon]
  | top =>
    split <;> exact hmove (by simp [hmon])
  | exchange =>
    exact ⟨h.user, nofun, h.pausing, h.resuming⟩
  | poolPause =>
    refine ⟨fun _ => rfl, fun hu hp hs => ?_, h.pausing, h.resuming⟩
    exact nomatch (hpause hmon hu hp).symm.trans hs
  | load =>
    split
    · split
      · exact hmove (by simp [hmon])
      · split <;> exact hmove (by simp [hmon])
    · exact hmove (by simp [hmon])
  | reload =>
    exact hmove (by simp [hmon])
  | clear =>
    exact ⟨h.user, fun _ _ _ _ => rfl, h.pausing, h.resuming⟩
  | poolResume =>
    exact ⟨fun hp => absurd hp (hresume hmon), nofun, h.pausing, h.resuming⟩

theorem Inv.step (h : Inv s) (hcalm : Calm s l) (hstep : step c s l = some s') : Inv s' := by
  cases l with
  | pause =>
    simp only [UserPause.step] at hstep
    split at hstep <;> cases hstep
    exact ⟨fun hp => (nomatch hp.1), nofun, fun _ => rfl, nofun⟩
  | resume =>
    simp only [UserPause.step] at hstep
    split at hstep <;> cases hstep
    exact ⟨fun hp => (nomatch hp.1), nofun, nofun, fun _ => rfl⟩
  | user => exact h.userStep hstep
  | monitor a b now =>
    cases hstep
    exact h.monitorStep a b now hcalm

/-- A step that is not calm breaks the promise at once. -/
theorem calm_of_pauseHolds (hstep : step c s l = some s') (hs' : s'.PauseHolds) : Calm s l := by
  cases l with
  | pause | resume | user => trivial
  | monitor a b now =>
    cases hstep
    refine ⟨fun hmon hp => ?_, fun hmon hu hp => ?_⟩
    · have hpool := hs'.1
      simp only [monitorStep, hmon] at hpool
      exact nomatch hpool hp
    · by_contra hs
      have hpool := hs'.2
      simp only [monitorStep, hmon] at hpool
      exact nomatch hpool ⟨hu, rfl⟩ hp (Bool.of_not_eq_true hs)

/-- **A user pause holds in a run exactly if the monitor never resumes the
pool against it** (nor pauses the pool after a `resume` that came between its
exchange and its pause). -/
theorem user_pause_holds_iff (c : Config) (labels : List Label) :
    (∀ ls s, ls <+: labels → runs (step c) initial ls = some s → s.PauseHolds) ↔
      StepsOk (step c) Calm initial labels := by
  have hrun : ∀ (labels : List Label) (s₀ : State), Inv s₀ →
      ((∀ ls s, ls <+: labels → runs (step c) s₀ ls = some s → s.PauseHolds) ↔
        StepsOk (step c) Calm s₀ labels) := by
    intro labels
    induction labels with
    | nil =>
      intro s₀ hi
      refine ⟨fun _ => trivial, fun _ ls s hls hrun => ?_⟩
      cases List.prefix_nil.mp hls
      cases hrun
      exact hi.pauseHolds
    | cons l labels ih =>
      intro s₀ hi
      rw [runs_prefix_cons]
      constructor
      · rintro ⟨-, hall⟩
        refine ⟨?_, fun mid hmid => ?_⟩
        · cases l with
          | pause | resume | user => trivial
          | monitor a b now =>
            exact calm_of_pauseHolds rfl (hall _ rfl [] _ (List.nil_prefix) rfl)
        · have hcalm := calm_of_pauseHolds hmid (hall mid hmid [] mid List.nil_prefix rfl)
          exact (ih mid (hi.step hcalm hmid)).mp (hall mid hmid)
      · rintro ⟨hcalm, hok⟩
        refine ⟨hi.pauseHolds, fun mid hmid => ?_⟩
        exact (ih mid (hi.step hcalm hmid)).mpr (hok mid hmid)
  exact hrun labels initial ⟨nofun, nofun, nofun, nofun⟩

/-- A user pause, then a peak of the load and its cooldown: the monitor
resumes the workers that the user had paused. -/
theorem user_pause_undone :
    ¬ ∀ (c : Config) (labels : List Label) (s : State), runs (step c) initial labels = some s →
      s.PauseHolds := by
  intro h
  let peak : List Label := [.pause, .user, .monitor true false 0, .monitor true false 0,
    .monitor true false 0, .monitor false true 0, .monitor false true 0, .monitor false true 5000,
    .monitor false true 5000, .monitor false true 5000, .monitor false true 5000]
  obtain ⟨s, hrun, hs, hpaused⟩ : ∃ s, runs (step ⟨true, 5000⟩) initial peak = some s ∧
      (s.user = .idle ∧ s.paused) ∧ s.poolPaused = false := by decide +kernel
  have hpool := (h ⟨true, 5000⟩ peak s hrun).1 hs
  rw [hpaused] at hpool
  cases hpool

end CycloneCache.Ref.UserPause

import CycloneCache.Ref.AdaptivePool

/-!
# How many workers the pool has

The bounds need three facts about every step: a target that anyone holds lies
between the two bounds, a worker about to exit loaded a count above the lower
bound, and a caller about to spawn is alone under the mutex, so the count it
found below its target can only have gone down since. The exchange of an
exiting worker compares with the count it loaded; that is all the lower bound
needs, however old its target is.

That a scaling call reaches its target does depend on it. A worker that loaded
an older, lower target can leave after a call has found enough workers, and no
one replaces it (`FreshExit` excludes this step).
-/

namespace CycloneCache.Ref.AdaptivePool

open Lib

variable {c : Config} {s s' : State} {l : Label} {i w : Nat}

/-- A target between the bounds. -/
def InRange (c : Config) (t : Nat) : Prop := c.minThreads ≤ t ∧ t ≤ c.maxThreads

def Caller.Ok (c : Config) : Caller → Prop
  | .storing _ t | .locking _ t => InRange c t
  | _ => True

def Worker.Ok (c : Config) : Worker → Prop
  | .exiting n => c.minThreads < n
  | _ => True

structure Holder.Ok (c : Config) (live : Nat) (h : Holder) : Prop where
  target : InRange c h.target
  below : h.stage = .spawn → live < h.target

structure Inv (c : Config) (s : State) : Prop where
  live : s.live = total Worker.lives s.workers
  le_max : s.live ≤ c.maxThreads
  target : InRange c s.target
  callers : ∀ i, (s.callers i).Ok c
  workers : ∀ w ∈ s.workers, w.Ok c
  holder : ∀ h, s.holder = some h → h.Ok c s.live

theorem clamp_inRange (hc : c.minThreads ≤ c.maxThreads) (t : Nat) : InRange c (clamp c t) := by
  unfold clamp InRange
  split
  · omega
  · split <;> omega

theorem callers_setCaller (s : State) (i : Nat) (p : Caller) : (s.setCaller i p).callers i = p :=
  Function.update_self ..

section

variable (h : Inv c s)
include h

theorem Inv.setCaller {p : Caller} (hp : p.Ok c) : Inv c (s.setCaller i p) :=
  { h with
    callers := (Function.forall_update_iff s.callers fun _ q => q.Ok c).mpr
      ⟨hp, fun j _ => h.callers j⟩ }

theorem Inv.setWorker {a p : Worker} (ha : s.workers[w]? = some a) (hlives : p.lives = a.lives)
    (hp : p.Ok c) : Inv c (s.setWorker w p) := by
  have htotal := total_set (f := Worker.lives) (b := p) ha
  refine { h with live := ?_, workers := fun q hq => ?_ }
  · show s.live = total Worker.lives (s.workers.set w p)
    have := h.live
    omega
  · obtain hq | rfl := List.mem_or_eq_of_mem_set hq
    · exact h.workers q hq
    · exact hp

/-- A worker that is not counted any more. -/
theorem Inv.release {a : Worker} (ha : s.workers[w]? = some a) (hlives : a.lives = 1) :
    Inv c { s.setWorker w .gone with live := s.live - 1 } := by
  have htotal : total Worker.lives (s.workers.set w .gone) + a.lives =
    total Worker.lives s.workers := total_set ha
  have hlive := h.live
  refine { h with live := ?_, le_max := ?_, workers := fun q hq => ?_, holder := fun g hg => ?_ }
  · show s.live - 1 = total Worker.lives (s.workers.set w .gone)
    omega
  · show s.live - 1 ≤ _
    exact Nat.le_trans (Nat.sub_le ..) h.le_max
  · obtain hq | rfl := List.mem_or_eq_of_mem_set hq
    · exact h.workers q hq
    · trivial
  · obtain ⟨htarget, hbelow⟩ := h.holder g hg
    exact ⟨htarget, fun hs => Nat.lt_of_le_of_lt (Nat.sub_le ..) (hbelow hs)⟩

theorem Inv.workerStep (hstep : workerStep s w = some s') : Inv c s' := by
  unfold AdaptivePool.workerStep at hstep
  split at hstep
  · next ha =>
    cases hstep
    exact h.setWorker ha rfl trivial
  · next n ha =>
    cases hstep
    split
    · next hlt => exact h.setWorker ha rfl (Nat.lt_of_le_of_lt h.target.1 hlt)
    · exact h.setWorker ha rfl trivial
  · next n ha =>
    split at hstep
    · next hn =>
      subst hn
      cases hstep
      exact h.release ha rfl
    · cases hstep
      exact h.setWorker ha rfl trivial
  · cases hstep

theorem newTarget_ok (up : Bool) : (newTarget c s up).Ok c := by
  obtain ⟨hmin, hmax⟩ := h.target
  unfold newTarget
  split <;> split <;> simp only [Caller.Ok, InRange]
  all_goals omega

/-- A call leaves the mutex and ends. -/
theorem Inv.leave : Inv c { s.setCaller i .idle with holder := none } :=
  { h.setCaller (i := i) (p := .idle) trivial with holder := nofun }

theorem Inv.insideStep (hstep : insideStep s i = some s') : Inv c s' := by
  unfold AdaptivePool.insideStep at hstep
  split at hstep
  · cases hstep
  · next g hg =>
    obtain ⟨htarget, hbelow⟩ := h.holder g hg
    split at hstep
    · split at hstep <;> cases hstep
      · next hlt =>
        exact { h with holder := fun g' hg' => Option.some.inj hg' ▸ ⟨htarget, fun _ => hlt⟩ }
      · exact h.leave
    · next hstage =>
      cases hstep
      have hlt := hbelow hstage
      refine { h with live := ?_, le_max := ?_, workers := ?_, holder := ?_ }
      · show s.live + 1 = total Worker.lives (s.workers ++ [.starting])
        rw [total_concat, h.live]
        rfl
      · exact Nat.le_trans hlt htarget.2
      · intro q hq
        obtain hq | hq := List.mem_append.mp hq
        · exact h.workers q hq
        · rw [List.mem_singleton.mp hq]
          trivial
      · exact fun g' hg' => Option.some.inj hg' ▸ ⟨htarget, nofun⟩
    · split at hstep
      · next ha =>
        have hhead := h.setWorker ha (p := .head) rfl trivial
        split at hstep <;> cases hstep
        · exact { hhead with holder := fun g' hg' => Option.some.inj hg' ▸ ⟨htarget, nofun⟩ }
        · exact hhead.leave
      · cases hstep

theorem Inv.callStep {depth : Nat} (hstep : callStep c s i depth = some s') : Inv c s' := by
  unfold AdaptivePool.callStep at hstep
  have hcaller := h.callers i
  split at hstep
  · cases hstep
  · cases hstep
    split <;> exact h.setCaller trivial
  · next up _ =>
    cases hstep
    exact h.setCaller (newTarget_ok h up)
  · next up t hi =>
    rw [hi] at hcaller
    cases hstep
    have hnext : (if up then Caller.locking false t else .idle).Ok c := by
      split
      · exact hcaller
      · trivial
    exact { h.setCaller hnext with target := hcaller }
  · next again t hi =>
    rw [hi] at hcaller
    split at hstep <;> cases hstep
    exact { h.setCaller (p := .inside) trivial with
      holder := fun g hg => Option.some.inj hg ▸ ⟨hcaller, nofun⟩ }
  · exact h.insideStep hstep

end

theorem Inv.step (hc : c.minThreads ≤ c.maxThreads) (h : Inv c s) (hstep : step c s l = some s') :
    Inv c s' := by
  cases l with
  | checkScaling i depth =>
    simp only [AdaptivePool.step] at hstep
    split at hstep <;> cases hstep
    split <;> exact h.setCaller trivial
  | scaleTo i t =>
    simp only [AdaptivePool.step] at hstep
    split at hstep <;> cases hstep
    have ht := clamp_inRange hc t
    exact { h.setCaller (p := .locking true (clamp c t)) ht with target := ht }
  | call i depth => exact h.callStep hstep
  | fails i =>
    simp only [AdaptivePool.step, failStep] at hstep
    split at hstep
    · split at hstep <;> cases hstep
      next ha =>
      exact (h.release ha rfl).leave
    · cases hstep
  | worker w => exact h.workerStep hstep

theorem Started.inv (hc : c.minThreads ≤ c.maxThreads) (h : Started c s) : Inv c s where
  live := by
    have hall : ∀ ws : List Worker, (∀ w ∈ ws, w = .head ∨ ∃ n ≤ c.minThreads, w = .loaded n) →
        total Worker.lives ws = ws.length := by
      intro ws
      induction ws with
      | nil => intro _; rfl
      | cons a ws ih =>
        intro hws
        obtain ⟨ha, hrest⟩ := List.forall_mem_cons.mp hws
        have := ih hrest
        obtain rfl | ⟨n, -, rfl⟩ := ha <;> simp_all [total, Worker.lives, Nat.add_comm]
    rw [hall s.workers h.begun, h.live, h.workers]
  le_max := h.live ▸ hc
  target := ⟨Nat.le_of_eq h.target.symm, h.target ▸ hc⟩
  callers i := by
    rw [h.callers i]
    trivial
  workers w hw := by
    obtain rfl | ⟨n, -, rfl⟩ := h.begun w hw <;> trivial
  holder g hg := by
    rw [h.holder] at hg
    cases hg

/-- Only an exit lowers the count, and it loaded more than the lower bound. -/
theorem min_le_live (h : Inv c s) (hl : ∀ i, l ≠ .fails i) (hmin : c.minThreads ≤ s.live)
    (hstep : step c s l = some s') : c.minThreads ≤ s'.live := by
  cases l with
  | fails i => exact absurd rfl (hl i)
  | checkScaling i depth | scaleTo i t =>
    simp only [step] at hstep
    split at hstep <;> cases hstep
    exact hmin
  | worker w =>
    simp only [step, workerStep] at hstep
    split at hstep
    · cases hstep
      exact hmin
    · cases hstep
      exact hmin
    · next n ha =>
      have hn : c.minThreads < n := h.workers _ (List.mem_of_getElem? ha)
      split at hstep <;> cases hstep
      · exact Nat.le_sub_one_of_lt hn
      · exact hmin
    · cases hstep
  | call i depth =>
    simp only [step, callStep, insideStep] at hstep
    split at hstep
    case h_6 =>
      split at hstep
      · cases hstep
      · split at hstep
        · split at hstep <;> cases hstep <;> exact hmin
        · cases hstep
          exact Nat.le_succ_of_le hmin
        · split at hstep
          · split at hstep <;> cases hstep <;> exact hmin
          · cases hstep
    case h_5 =>
      split at hstep <;> cases hstep
      exact hmin
    all_goals cases hstep
    all_goals exact hmin

/-- Just after `start`, before any worker has run. -/
def begin (c : Config) : State :=
  ⟨c.minThreads, c.minThreads, List.replicate c.minThreads .head, fun _ => .idle, none⟩

theorem begin_started (c : Config) : Started c (begin c) :=
  ⟨rfl, rfl, List.length_replicate, fun _ hw => .inl (List.eq_of_mem_replicate hw), fun _ => rfl,
    rfl⟩

/-- A statement of the last call or of a worker. -/
def Label.AfterLast : Label → Prop
  | .call i _ => i = 0
  | .worker _ => True
  | _ => False

/-- No worker leaves, while no call is under way, on a count that the target
has caught up with since it was compared. -/
def FreshExit (s : State) : Label → Prop
  | .worker w => s.callers 0 = .idle → s.workers[w]? = some (.exiting s.live) → s.target < s.live
  | _ => True

/-- The call has returned, every worker is at its loop head, and none would
leave if it went through it again. -/
structure State.Settled (s : State) : Prop where
  caller : s.callers 0 = .idle
  workers : ∀ w ∈ s.workers, w = .head ∨ w = .gone
  done : s.live ≤ s.target

/-- The last call on its way, or done with enough workers. -/
def Scaling (t : Nat) (s : State) : Prop :=
  s.target = t ∧ (s.callers 0 = .locking true t ∨
      (s.callers 0 = .inside ∧ ∃ stage, s.holder = some ⟨true, t, stage⟩) ∨
      (s.callers 0 = .idle ∧ t ≤ s.live))

theorem Scaling.worker {t : Nat} (h : Scaling t s) (hok : FreshExit s (.worker w))
    (hstep : workerStep s w = some s') : Scaling t s' := by
  obtain ⟨rfl, hcall⟩ := h
  unfold workerStep at hstep
  split at hstep
  · cases hstep
    exact ⟨rfl, hcall⟩
  · cases hstep
    exact ⟨rfl, hcall⟩
  · next n ha =>
    split at hstep <;> cases hstep
    · next hn =>
      refine ⟨rfl, hcall.imp_right fun hcall => hcall.imp_right fun hidle => ⟨hidle.1, ?_⟩⟩
      subst hn
      exact Nat.le_sub_one_of_lt (hok hidle.1 ha)
    · exact ⟨rfl, hcall⟩
  · cases hstep

theorem Scaling.call {t depth : Nat} (h : Scaling t s) (hstep : callStep c s 0 depth = some s') :
    Scaling t s' := by
  obtain ⟨rfl, hcall | ⟨hcall, stage, hholder⟩ | ⟨hcall, -⟩⟩ := h
  · simp only [callStep, hcall] at hstep
    split at hstep <;> cases hstep
    exact ⟨rfl, .inr (.inl ⟨callers_setCaller s 0 .inside, .gate, rfl⟩)⟩
  · simp only [callStep, hcall, insideStep, hholder] at hstep
    cases stage with
    | gate =>
      simp only at hstep
      split at hstep <;> cases hstep
      · exact ⟨rfl, .inr (.inl ⟨hcall, _, rfl⟩)⟩
      · next hlive =>
        exact ⟨rfl, .inr (.inr ⟨callers_setCaller s 0 .idle, Nat.le_of_not_lt hlive⟩)⟩
    | spawn =>
      cases hstep
      exact ⟨rfl, .inr (.inl ⟨hcall, _, rfl⟩)⟩
    | start w =>
      simp only [if_true] at hstep
      split at hstep <;> cases hstep
      exact ⟨rfl, .inr (.inl ⟨hcall, _, rfl⟩)⟩
  · simp only [callStep, hcall] at hstep
    cases hstep

/-- **The last `scale_to` reaches its target** from any state, if no worker
leaves on an outdated comparison. -/
theorem scale_to_reaches {s₀ : State} {t : Nat} {ls : List Label}
    (hls : ∀ l ∈ ls, l.AfterLast) (hok : StepsOk (step c) FreshExit s₀ (.scaleTo 0 t :: ls))
    (h : runs (step c) s₀ (.scaleTo 0 t :: ls) = some s) (hdone : s.Settled) :
    s.live = clamp c t := by
  obtain ⟨mid, hcall, hrun⟩ := runs_cons_some h
  have hrest := hok.2 mid hcall
  have hmid : Scaling (clamp c t) mid := by
    simp only [step] at hcall
    split at hcall <;> cases hcall
    exact ⟨rfl, .inl (callers_setCaller s₀ 0 _)⟩
  have hstep : ∀ s l s', Scaling (clamp c t) s → FreshExit s l ∧ l.AfterLast →
      step c s l = some s' → Scaling (clamp c t) s' := by
    intro s l s' hs hl hstep
    cases l with
    | checkScaling | scaleTo | fails => exact hl.2.elim
    | call i depth =>
      obtain rfl : i = 0 := hl.2
      exact hs.call hstep
    | worker w => exact hs.worker hl.1 hstep
  obtain ⟨htarget, hend⟩ := runs_inv_of_ok hstep
    (hrest.and (stepsOk_of_forall fun l hl _ => hls l hl)) hrun hmid
  obtain hp | ⟨hp, -⟩ | ⟨-, hlive⟩ := hend
  · cases hdone.caller.symm.trans hp
  · cases hdone.caller.symm.trans hp
  · exact Nat.le_antisymm (htarget ▸ hdone.done) hlive

/-- What a run of the pool shows when it is evaluated. -/
def State.settled (s : State) : Bool :=
  s.callers 0 == .idle && s.workers.all (fun w => w == .head || w == .gone) && s.live ≤ s.target

theorem settled_iff : s.settled = true ↔ s.Settled := by
  simp only [State.settled, Bool.and_eq_true, beq_iff_eq, List.all_eq_true, Bool.or_eq_true,
    decide_eq_true_eq]
  exact ⟨fun h => ⟨h.1.1, h.1.2, h.2⟩, fun h => ⟨⟨h.caller, h.workers⟩, h.done⟩⟩

theorem scale_to_reaches_two : ∃ s, runs (step ⟨1, 4, 1, 1⟩) (begin ⟨1, 4, 1, 1⟩)
      (.scaleTo 0 2 :: List.replicate 5 (.call 0 0)) = some s ∧ s.live = 2 := by
  obtain ⟨s, hrun, hs⟩ : ∃ s, runs (step ⟨1, 4, 1, 1⟩) (begin ⟨1, 4, 1, 1⟩)
      (.scaleTo 0 2 :: List.replicate 5 (.call 0 0)) = some s ∧ s.settled := by decide +kernel
  have hcalls : ∀ l ∈ List.replicate 5 (Label.call 0 0), l = .call 0 0 :=
    fun _ => List.eq_of_mem_replicate
  refine ⟨s, hrun, scale_to_reaches (fun l hl => ?_) ⟨trivial, fun _ _ =>
    stepsOk_of_forall fun l hl _ => ?_⟩ hrun (settled_iff.mp hs)⟩
  · rw [hcalls l hl]
    rfl
  · rw [hcalls l hl]
    trivial

/-- Three workers, and the target lowered to two: one of them compares, the
target is raised to three again, where nothing is missing, and the worker
leaves. -/
theorem scale_to_misses : ∃ (before after : List Label) (s : State), (∀ l ∈ after, l.AfterLast) ∧
      runs (step ⟨1, 4, 1, 1⟩) (begin ⟨1, 4, 1, 1⟩) (before ++ .scaleTo 0 3 :: after) = some s ∧
      s.Settled ∧ s.live = 2 := by
  let before : List Label := .scaleTo 0 3 :: List.replicate 8 (.call 0 0) ++ .scaleTo 0 2 ::
    [.call 0 0, .call 0 0, .worker 0, .worker 0]
  let after : List Label := [.call 0 0, .call 0 0, .worker 0]
  obtain ⟨s, hrun, hsettled, hlive⟩ : ∃ s, runs (step ⟨1, 4, 1, 1⟩) (begin ⟨1, 4, 1, 1⟩)
      (before ++ .scaleTo 0 3 :: after) = some s ∧ s.settled ∧ s.live = 2 := by decide +kernel
  refine ⟨before, after, s, fun l hl => ?_, hrun, settled_iff.mp hsettled, hlive⟩
  simp only [after, List.mem_cons, List.not_mem_nil, or_false] at hl
  obtain rfl | rfl | rfl := hl <;> trivial

end CycloneCache.Ref.AdaptivePool

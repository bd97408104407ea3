import CycloneCache.Ref.HolderWait

namespace CycloneCache.Ref.HolderWait

theorem waiterAfter_snoc (budget cap : Nat) (calls : List Call) (call : Call) :
    waiterAfter budget cap (calls ++ [call]) = (waiterAfter budget cap calls).apply call := by
  rw [waiterAfter, List.foldl_append]
  rfl

theorem Call.time_mem_readings (call : Call) : call.time ∈ call.readings := by
  cases call with
  | wait holder now after | restart now => exact List.mem_cons_self

variable {call : Call} {calls : List Call} {after now : Nat} {holder : BitVec 64}
  {w w' : LockHolderWait} {l : Ledger} {answer : Step}

theorem Ascending.init (h : Ascending (calls ++ [call])) : Ascending calls := by
  rw [Ascending, List.flatMap_append] at h
  exact (List.pairwise_append.mp h).1

theorem Ascending.time_le {c : Call} (h : Ascending (calls ++ [call])) (hc : c ∈ calls) :
    c.time ≤ call.time := by
  rw [Ascending, List.flatMap_append] at h
  apply (List.pairwise_append.mp h).2.2
  · exact List.mem_flatMap.mpr ⟨c, hc, c.time_mem_readings⟩
  · exact List.mem_flatMap.mpr ⟨call, List.mem_singleton.mpr rfl, call.time_mem_readings⟩

def LockHolderWait.settled (w : LockHolderWait) (now : Nat) : Nat :=
  if w.started then w.changed + (now - w.firstSeen) else w.changed

inductive Effect (w : LockHolderWait) (holder : BitVec 64) (now : Nat) :
    LockHolderWait → Step → Prop
  | spin (polls : BitVec 32) (hstarted : w.started = true) (hholder : holder = w.holder) :
      Effect w holder now { w with polls := polls } .spun
  | confirm (polls : BitVec 32) (hstarted : w.started = true) (hholder : holder = w.holder)
      (hlate : w.deadline ≤ now) :
      Effect w holder now
        { w with polls := polls, confirming := true, spinUntil := now + kConfirmFor } .spun
  | expire (polls : BitVec 32) (hstarted : w.started = true) (hholder : holder = w.holder)
      (hconfirming : w.confirming = true) (huntil : w.spinUntil ≤ now) :
      Effect w holder now { w with polls := polls } .expired
  | sleep (polls sleeps : BitVec 32) (spinUntil backoff : Nat) (hstarted : w.started = true)
      (hholder : holder = w.holder) (hearly : now < w.deadline) :
      Effect w holder now
        { w with polls := polls, sleeps := sleeps, spinUntil := spinUntil, backoff := backoff }
        .slept
  | giveUp (hchanged : ¬(w.started = true ∧ holder = w.holder)) (hcap : w.cap ≠ 0)
      (hspent : w.cap ≤ w.settled now) :
      Effect w holder now { w with changed := w.settled now, started := false } .giveUp
  | turn (hchanged : ¬(w.started = true ∧ holder = w.holder))
      (hroom : ¬(w.cap ≠ 0 ∧ w.cap ≤ w.settled now)) :
      Effect w holder now { w with
          changed := w.settled now
          started := true
          confirming := false
          holder := holder
          polls := 0
          firstSeen := now
          deadline := now + w.budget
          spinUntil := now + kSpinFor
          backoff := kFirstSleep } .spun

theorem wait_effect (w : LockHolderWait) (holder : BitVec 64) (now after : Nat) :
    Effect w holder now (w.wait holder now after).1 (w.wait holder now after).2 := by
  rw [LockHolderWait.wait]
  split
  next hsame =>
    rw [Bool.and_eq_true, beq_iff_eq] at hsame
    obtain ⟨hstarted, hholder⟩ := hsame
    dsimp only
    split
    · exact .spin _ hstarted hholder
    · rw [LockHolderWait.timedWait]
      split
      · exact .spin _ hstarted hholder
      next huntil =>
        split
        next hlate =>
          split
          · exact .confirm _ hstarted hholder hlate
          next hconfirming =>
            have hconfirming : w.confirming = true := by simpa using hconfirming
            exact .expire _ hstarted hholder hconfirming (Nat.not_lt.mp huntil)
        next hearly => exact .sleep _ _ _ _ hstarted hholder (Nat.not_le.mp hearly)
  next hother =>
    rw [Bool.and_eq_true, beq_iff_eq] at hother
    have hw : (if w.started then { w with changed := w.changed + (now - w.firstSeen) } else w) =
        { w with changed := w.settled now } := by
      rw [LockHolderWait.settled]
      split <;> rfl
    rw [LockHolderWait.newHolder, hw]
    dsimp only
    split
    next hspent => exact .giveUp hother hspent.1 hspent.2
    next hroom => exact .turn hother hroom

theorem restart_eq (w : LockHolderWait) (now : Nat) :
    w.restart now = { w with changed := w.settled now, started := false } := by
  rw [LockHolderWait.restart, LockHolderWait.settled]
  split <;> rfl

structure Watched (calls : List Call) (w : LockHolderWait) : Prop where
  since : ∃ before after rest, calls = before ++ .wait w.holder w.firstSeen after :: rest ∧
      (∀ c ∈ rest, c.seen = some w.holder) ∧
      (w.confirming = true → ∃ c ∈ Call.wait w.holder w.firstSeen after :: rest,
        w.deadline ≤ c.time ∧ w.spinUntil = c.time + kConfirmFor)
  deadline : w.deadline = w.firstSeen + w.budget

theorem Watched.first (calls : List Call) (hholder : w.holder = holder) (hfirst : w.firstSeen = now)
    (hconfirming : w.confirming = false) (hdeadline : w.deadline = now + w.budget) :
    Watched (calls ++ [.wait holder now after]) w := by
  subst hholder hfirst
  refine ⟨⟨calls, after, [], rfl, nofun, fun h => ?_⟩, hdeadline⟩
  rw [hconfirming] at h
  cases h

theorem Watched.more (h : Watched calls w) (hholder : w'.holder = w.holder)
    (hfirst : w'.firstSeen = w.firstSeen) (hdeadline : w'.deadline = w.deadline)
    (hbudget : w'.budget = w.budget) (hconfirm : w'.confirming = true →
      (w.confirming = true ∧ w'.spinUntil = w.spinUntil) ∨
        (w.deadline ≤ now ∧ w'.spinUntil = now + kConfirmFor)) :
    Watched (calls ++ [.wait w.holder now after]) w' := by
  obtain ⟨⟨before, after₀, rest, rfl, hrest, hpoll⟩, hdl⟩ := h
  refine ⟨⟨before, after₀, rest ++ [.wait w.holder now after], ?_, ?_, ?_⟩, ?_⟩
  · rw [hholder, hfirst, List.append_assoc, List.cons_append]
  · rw [hholder]
    exact List.forall_mem_append.mpr ⟨hrest, List.forall_mem_singleton.mpr rfl⟩
  · intro hconfirming
    rw [hholder, hfirst, hdeadline]
    rcases hconfirm hconfirming with ⟨hbefore, hspin⟩ | ⟨hpast, hspin⟩
    · obtain ⟨c, hc, hlate, huntil⟩ := hpoll hbefore
      refine ⟨c, ?_, hlate, by rw [hspin, huntil]⟩
      rcases List.mem_cons.mp hc with rfl | hc
      · exact List.mem_cons_self
      · exact List.mem_cons_of_mem _ (List.mem_append_left _ hc)
    · refine ⟨.wait w.holder now after, ?_, hpast, hspin⟩
      exact List.mem_cons_of_mem _ (List.mem_append_right _ (List.mem_singleton.mpr rfl))
  · rw [hdeadline, hdl, hfirst, hbudget]

theorem Watched.past (h : Watched calls w) (hclock : Ascending (calls ++ [call]))
    (hconfirming : w.confirming = true) : w.deadline ≤ call.time := by
  obtain ⟨before, after, rest, rfl, -, hpoll⟩ := h.since
  obtain ⟨c, hc, hlate, -⟩ := hpoll hconfirming
  exact Nat.le_trans hlate (hclock.time_le (List.mem_append_right before hc))

structure Accounted (l : Ledger) (w : LockHolderWait) : Prop where
  /-- The holders that went took at least what the waiter counted. -/
  changed : w.changed ≤ l.gone
  present : w.started = true → l.present = some (w.holder, w.firstSeen)
  /-- Between holders nobody's time runs, except after giving up: but then the
  cap is reached for good. -/
  absent : w.started = false → l.present = none ∨ (w.cap ≠ 0 ∧ w.cap ≤ w.changed)

theorem Ledger.gone_le_note (l : Ledger) (call : Call) : l.gone ≤ (l.note call).gone := by
  rw [Ledger.note]
  split
  · exact Nat.le_refl _
  · split
    · exact Nat.le_refl _
    · exact Nat.le_add_right _ _

theorem Ledger.note_same {since : Nat} (h : l.present = some (holder, since))
    (hseen : call.seen = some holder) : l.note call = l := by
  rw [Ledger.note, h]
  exact if_pos hseen

theorem Ledger.note_other {since : Nat} (h : l.present = some (holder, since))
    (hseen : call.seen ≠ some holder) :
    l.note call =
      ⟨call.seen.map fun holder => (holder, call.time), l.gone + (call.time - since)⟩ := by
  rw [Ledger.note, h]
  exact if_neg hseen

theorem Ledger.note_absent (h : l.present = none) :
    l.note call = ⟨call.seen.map fun holder => (holder, call.time), l.gone⟩ := by
  rw [Ledger.note, h]

section

variable (h : Accounted l w)
include h

theorem Accounted.settled_le (hseen : w.started = true → call.seen ≠ some w.holder) :
    w.settled call.time ≤ (l.note call).gone := by
  rw [LockHolderWait.settled]
  split
  next hstarted =>
    rw [Ledger.note_other (h.present hstarted) (hseen hstarted)]
    exact Nat.add_le_add_right h.changed _
  next => exact Nat.le_trans h.changed (l.gone_le_note call)

theorem Accounted.same (hstarted : w.started = true) (hseen : call.seen = some w.holder)
    (hchanged : w'.changed = w.changed) (hstarted' : w'.started = true)
    (hholder : w'.holder = w.holder) (hfirst : w'.firstSeen = w.firstSeen) :
    Accounted (l.note call) w' := by
  rw [Ledger.note_same (h.present hstarted) hseen]
  refine ⟨hchanged ▸ h.changed, fun _ => ?_, fun hnot => ?_⟩
  · rw [hholder, hfirst]
    exact h.present hstarted
  · rw [hstarted'] at hnot
    cases hnot

theorem Accounted.wait (he : Effect w holder now w' answer) (after : Nat) :
    Accounted (l.note (.wait holder now after)) w' := by
  cases he with
  | spin polls hstarted hholder | confirm polls hstarted hholder hlate
  | expire polls hstarted hholder hconfirming huntil
  | sleep polls sleeps spinUntil backoff hstarted hholder hearly =>
    exact h.same hstarted (congrArg some hholder) rfl hstarted rfl rfl
  | giveUp hother hcap hspent =>
    have hseen : w.started = true → Call.seen (.wait holder now after) ≠ some w.holder :=
      fun hstarted hseen => hother ⟨hstarted, Option.some.inj hseen⟩
    have hsettled := h.settled_le hseen
    exact ⟨hsettled, nofun, fun _ => .inr ⟨hcap, hspent⟩⟩
  | turn hother hroom =>
    have hseen : w.started = true → Call.seen (.wait holder now after) ≠ some w.holder :=
      fun hstarted hseen => hother ⟨hstarted, Option.some.inj hseen⟩
    have hsettled := h.settled_le hseen
    refine ⟨hsettled, fun _ => ?_, nofun⟩
    cases hstarted : w.started with
    | true =>
      rw [Ledger.note_other (h.present hstarted) (hseen hstarted)]
      rfl
    | false =>
      rcases h.absent hstarted with habsent | ⟨hcap, hspent⟩
      · rw [Ledger.note_absent habsent]
        rfl
      · have hsettled : w.settled now = w.changed := by
          rw [LockHolderWait.settled, hstarted]
          rfl
        exact absurd ⟨hcap, hsettled ▸ hspent⟩ hroom

theorem Accounted.restart (now : Nat) : Accounted (l.note (.restart now)) (w.restart now) := by
  have hseen : w.started = true → Call.seen (.restart now) ≠ some w.holder := fun _ => nofun
  have hsettled := h.settled_le hseen
  rw [restart_eq]
  refine ⟨hsettled, nofun, fun _ => ?_⟩
  cases hstarted : w.started with
  | true =>
    left
    rw [Ledger.note_other (h.present hstarted) (hseen hstarted)]
    rfl
  | false =>
    rcases h.absent hstarted with habsent | ⟨hcap, hspent⟩
    · left
      rw [Ledger.note_absent habsent]
      rfl
    · right
      refine ⟨hcap, Nat.le_trans hspent ?_⟩
      rw [LockHolderWait.settled, hstarted]
      exact Nat.le_refl _

end

structure Inv (budget cap : Nat) (calls : List Call) (w : LockHolderWait) : Prop where
  budget : w.budget = budget
  cap : w.cap = cap
  watched : w.started = true → Watched calls w
  accounted : Accounted (calls.foldl Ledger.note ⟨none, 0⟩) w

theorem Inv.fresh (budget cap : Nat) : Inv budget cap [] (.fresh budget cap) where
  budget := rfl
  cap := rfl
  watched := nofun
  accounted := ⟨Nat.le_refl _, nofun, fun _ => .inl rfl⟩

theorem Watched.wait (h : w.started = true → Watched calls w)
    (hclock : Ascending (calls ++ [.wait holder now after])) (he : Effect w holder now w' answer)
    (hstarted' : w'.started = true) : Watched (calls ++ [.wait holder now after]) w' := by
  cases he with
  | spin polls hstarted hholder =>
    subst hholder
    exact (h hstarted).more rfl rfl rfl rfl fun hconfirming => .inl ⟨hconfirming, rfl⟩
  | confirm polls hstarted hholder hlate =>
    subst hholder
    exact (h hstarted).more rfl rfl rfl rfl fun _ => .inr ⟨hlate, rfl⟩
  | expire polls hstarted hholder hconfirming huntil =>
    subst hholder
    exact (h hstarted).more rfl rfl rfl rfl fun hconfirming => .inl ⟨hconfirming, rfl⟩
  | sleep polls sleeps spinUntil backoff hstarted hholder hearly =>
    subst hholder
    refine (h hstarted).more rfl rfl rfl rfl fun hconfirming => ?_
    have hpast : w.deadline ≤ now := (h hstarted).past hclock hconfirming
    exact absurd hearly (Nat.not_lt.mpr hpast)
  | giveUp hother hcap hspent => cases hstarted'
  | turn hother hroom => exact Watched.first calls rfl rfl rfl rfl

theorem Effect.bounds (he : Effect w holder now w' answer) :
    w'.budget = w.budget ∧ w'.cap = w.cap := by
  cases he <;> exact ⟨rfl, rfl⟩

theorem Inv.snoc {budget cap : Nat} (h : Inv budget cap calls w)
    (hclock : Ascending (calls ++ [call])) : Inv budget cap (calls ++ [call]) (w.apply call) := by
  cases call with
  | wait holder now after =>
    have he := wait_effect w holder now after
    refine ⟨he.bounds.1.trans h.budget, he.bounds.2.trans h.cap, ?_, ?_⟩
    · exact Watched.wait h.watched hclock he
    · rw [List.foldl_append]
      exact h.accounted.wait he after
  | restart now =>
    rw [LockHolderWait.apply]
    refine ⟨?_, ?_, ?_, ?_⟩
    · rw [restart_eq]
      exact h.budget
    · rw [restart_eq]
      exact h.cap
    · rw [restart_eq]
      exact nofun
    · rw [List.foldl_append]
      exact h.accounted.restart now

theorem inv_waiterAfter (budget cap : Nat) (calls : List Call) (hclock : Ascending calls) :
    Inv budget cap calls (waiterAfter budget cap calls) := by
  induction calls using List.reverseRecOn with
  | nil => exact Inv.fresh budget cap
  | append_singleton calls call ih =>
    rw [waiterAfter_snoc]
    exact (ih hclock.init).snoc hclock

/-- A holder is only declared stuck when every call has named it since one the
whole budget ago, and the poll after the budget too; the wait is only given up
when the holders that came and went took the cap between them. -/
theorem holder_budgets (budget cap : Nat) (calls : List Call) (holder : BitVec 64)
    (now after : Nat) (hclock : Ascending (calls ++ [.wait holder now after])) :
    (((waiterAfter budget cap calls).wait holder now after).2 = .expired →
      ∃ before t₀ a₀ rest, calls = before ++ .wait holder t₀ a₀ :: rest ∧
        (∀ call ∈ rest, call.seen = some holder) ∧
        ∃ call ∈ Call.wait holder t₀ a₀ :: rest,
          t₀ + budget ≤ call.time ∧ call.time + kConfirmFor ≤ now) ∧
    (((waiterAfter budget cap calls).wait holder now after).2 = .giveUp →
      cap ≠ 0 ∧ cap ≤ charged (calls ++ [.wait holder now after])) := by
  have hinv := inv_waiterAfter budget cap calls hclock.init
  have he := wait_effect (waiterAfter budget cap calls) holder now after
  have hnext := hinv.accounted.wait he after
  generalize waiterAfter budget cap calls = w at hinv he hnext ⊢
  generalize w.wait holder now after = result at he hnext ⊢
  obtain ⟨w', answer⟩ := result
  refine ⟨fun hexpired => ?_, fun hgave => ?_⟩
  · obtain rfl : answer = .expired := hexpired
    cases he with
    | expire polls hstarted hholder hconfirming huntil =>
      obtain ⟨⟨before, a₀, rest, hcalls, hrest, hpoll⟩, hdeadline⟩ := hinv.watched hstarted
      obtain ⟨call, hmem, hlate, hspin⟩ := hpoll hconfirming
      subst hholder
      refine ⟨before, w.firstSeen, a₀, rest, hcalls, hrest, call, hmem, ?_, ?_⟩
      · rw [← hinv.budget, ← hdeadline]
        exact hlate
      · rw [← hspin]
        exact huntil
  · obtain rfl : answer = .giveUp := hgave
    cases he with
    | giveUp hother hcap hspent =>
      rw [hinv.cap] at hcap hspent
      refine ⟨hcap, Nat.le_trans hspent ?_⟩
      rw [charged, List.foldl_append]
      exact hnext.changed

def pollsOfStuck : List Call :=
  .wait 7 0 0 :: (List.replicate 64 (.wait 7 200000 200000) ++
    List.replicate 63 (.wait 7 3000000 3000000))

/-- Holder 7 expires at the next poll that reads the clock, and two holders
that take 20 ns are enough for a cap of 10. -/
theorem holder_budgets_stuck :
    (∃ before t₀ a₀ rest, pollsOfStuck = before ++ .wait 7 t₀ a₀ :: rest ∧
      (∀ call ∈ rest, call.seen = some 7) ∧
      ∃ call ∈ Call.wait 7 t₀ a₀ :: rest,
        t₀ + 100000 ≤ call.time ∧ call.time + kConfirmFor ≤ 3000000) ∧
    10 ≤ charged [.wait 1 0 0, .wait 2 20 20] := by
  constructor
  · have hclock : Ascending (pollsOfStuck ++ [.wait 7 3000000 3000000]) := by
      unfold Ascending
      decide +kernel
    exact (holder_budgets 100000 0 pollsOfStuck 7 3000000 3000000 hclock).1 (by decide +kernel)
  · have hclock : Ascending ([.wait 1 0 0] ++ [.wait 2 20 20]) := by
      unfold Ascending
      decide
    exact ((holder_budgets 5 10 [.wait 1 0 0] 2 20 20 hclock).2 (by decide)).2

end CycloneCache.Ref.HolderWait

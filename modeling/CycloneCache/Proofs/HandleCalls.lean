import CycloneCache.Ref.HandleCalls

namespace CycloneCache.Ref.HandleCalls

open Lib Function

def ownCount (epoch word : Nat) : Nat := if word / 2 ^ 32 = epoch then word % 2 ^ 32 else 0

section

variable {epoch word : Nat}

theorem busy_iff : busy epoch word = true ↔ ownCount epoch word ≠ 0 := by
  have hepoch : epochOf word = epoch * 2 ^ 32 ↔ word / 2 ^ 32 = epoch := by
    unfold epochOf
    omega
  unfold busy ownCount countOf
  simp only [Bool.and_eq_true, beq_iff_eq, bne_iff_ne, hepoch]
  by_cases h : word / 2 ^ 32 = epoch
  · rw [if_pos h]
    exact and_iff_right h
  · rw [if_neg h]
    exact iff_of_false (fun hand => h hand.1) fun hne => hne rfl

theorem ownCount_countedIn (hepoch : epoch < 2 ^ 32) (hfew : ownCount epoch word + 1 < 2 ^ 32) :
    countedIn epoch word / 2 ^ 32 = epoch ∧
      ownCount epoch (countedIn epoch word) = ownCount epoch word + 1 := by
  unfold ownCount countedIn epochOf at *
  split_ifs at hfew ⊢ <;> omega

theorem ownCount_countedOut (hepoch : epoch < 2 ^ 32) (hcount : ownCount epoch word ≠ 0) :
    countedOut word / 2 ^ 32 = epoch ∧
      ownCount epoch (countedOut word) = ownCount epoch word - 1 := by
  unfold ownCount countedOut at *
  split_ifs at hcount ⊢ <;> omega

theorem ownCount_of_older (h : word / 2 ^ 32 < epoch) : ownCount epoch word = 0 := if_neg h.ne

end

def Pc.counted : Pc → Bool
  | .checkTeardown _ | .checkGeneration _ | .admitted _ | .leave => true
  | _ => false

def Pc.EpochOk (epoch : Nat) : Pc → Prop
  | .load _ e | .exchange _ e _ => e = epoch
  | _ => True

def Control.retired : Control → Bool
  | .wait | .await _ _ | .free => true
  | _ => false

section

variable {T : Type}

def Vol.Retired (s : Vol T) : Prop := s.stripes = false ∨ s.control.retired = true

def CountedOn (shardOf : T → Fin kHandleCallShards) (k : Fin kHandleCallShards) (t : T) (pc : Pc) :
    Prop :=
  shardOf t = k ∧ pc.counted = true

structure Inv (shardOf : T → Fin kHandleCallShards) (s : Vol T) : Prop where
  epoch : s.forkEpoch < 2 ^ 32
  older : ∀ k, s.shards k / 2 ^ 32 ≤ s.forkEpoch
  shard : ∀ k, (ownCount s.forkEpoch (s.shards k) : ℕ∞) = headcount (CountedOn shardOf k) s.calls
  call : ∀ t, (s.calls t).EpochOk s.forkEpoch
  waiting : s.orphaned = false → ∀ e k, s.control = .await e k → e = s.forkEpoch
  handles : ∀ g ∈ s.handles, g ≤ s.stripeGeneration
  retired : s.Retired → ∀ g ∈ s.handles, g < s.stripeGeneration
  admitted : ∀ t, (s.calls t).Admitted → ¬ s.Freed ∧ ∀ e k, s.control = .await e k → k ≤ shardOf t

theorem inv_start (shardOf : T → Fin kHandleCallShards) : Inv shardOf ({} : Vol T) where
  epoch := Nat.two_pow_pos 32
  older _ := by simp
  shard k := by
    rw [headcount_eq_zero.mpr fun t h => Bool.false_ne_true h.2]
    simp [ownCount]
  call _ := trivial
  waiting _ _ _ h := nomatch h
  handles := nofun
  retired _ := nofun
  admitted t h := nomatch h

variable {shardOf : T → Fin kHandleCallShards} {s s' : Vol T}

theorem Vol.Freed.retired (h : s.Freed) : s.Retired := by
  rcases h with h | h
  · exact .inl h
  · exact .inr (by rw [h]; rfl)

section

variable (h : Inv shardOf s)
include h

theorem Inv.busy_own {k : Fin kHandleCallShards} (hbusy : busy s.forkEpoch (s.shards k) = true) :
    ∃ t, shardOf t = k ∧ (s.calls t).counted = true := by
  by_contra hnone
  have hzero : headcount (CountedOn shardOf k) s.calls = 0 :=
    headcount_eq_zero.mpr fun t ht => hnone ⟨t, ht⟩
  rw [← h.shard k] at hzero
  exact busy_iff.mp hbusy (by exact_mod_cast hzero)

theorem Inv.ownCount_ne_zero {t : T} (hcounted : (s.calls t).counted = true) :
    ownCount s.forkEpoch (s.shards (shardOf t)) ≠ 0 := by
  intro hzero
  have hcount := h.shard (shardOf t)
  rw [hzero, Nat.cast_zero] at hcount
  exact headcount_eq_zero.mp hcount.symm t ⟨rfl, hcounted⟩

theorem Inv.not_retired {i : Nat} (hhandle : s.handles[i]? = some s.stripeGeneration) :
    ¬ s.Retired := by
  intro hretired
  exact absurd (h.retired hretired _ (List.mem_of_getElem? hhandle)) (lt_irrefl _)

theorem Inv.ownCount_lt {t : T}
    (hfew : headcount (fun u pc => shardOf u = shardOf t ∧ pc.InFlight) s.calls < 2 ^ 32)
    (hin : (s.calls t).InFlight) (hout : (s.calls t).counted = false) :
    ownCount s.forkEpoch (s.shards (shardOf t)) + 1 < 2 ^ 32 := by
  have hsub : ∀ u, CountedOn shardOf (shardOf t) u (s.calls u) →
      shardOf u = shardOf t ∧ (s.calls u).InFlight := by
    rintro u ⟨hu, hcounted⟩
    refine ⟨hu, fun hidle => ?_⟩
    rw [hidle] at hcounted
    cases hcounted
  have hnot : ¬ CountedOn shardOf (shardOf t) t (s.calls t) := by
    rintro ⟨-, hcounted⟩
    rw [hout] at hcounted
    cases hcounted
  have hle : headcount (CountedOn shardOf (shardOf t)) s.calls + 1 ≤
      headcount (fun u pc => shardOf u = shardOf t ∧ pc.InFlight) s.calls :=
    headcount_succ_le hsub ⟨rfl, hin⟩ hnot
  rw [← h.shard] at hle
  exact_mod_cast lt_of_le_of_lt hle hfew

end

end

section

variable {T : Type} [DecidableEq T] {shardOf : T → Fin kHandleCallShards} {s s' : Vol T} {t : T}

structure CallMove (shardOf : T → Fin kHandleCallShards) (s : Vol T) (t : T) (word : Nat) (pc : Pc) :
    Prop where
  older : word / 2 ^ 32 ≤ s.forkEpoch
  tracks : Tracks (fun pc => pc.counted = true) (s.calls t) pc
    (ownCount s.forkEpoch (s.shards (shardOf t))) (ownCount s.forkEpoch word)
  epoch : pc.EpochOk s.forkEpoch
  admitted : pc.Admitted → ¬ s.Retired

theorem Inv.callMove (h : Inv shardOf s) {word : Nat} {pc : Pc} (hm : CallMove shardOf s t word pc) :
    Inv shardOf ((s.setShard (shardOf t) word).put t pc) :=
  { h with
    older := (forall_update_iff s.shards fun _ word => word / 2 ^ 32 ≤ s.forkEpoch).mpr
      ⟨hm.older, fun k _ => h.older k⟩
    shard := fun k => by
      by_cases hk : k = shardOf t
      · subst hk
        simp only [Vol.put, Vol.setShard, update_self]
        refine Tracks.headcount_eq ?_ (h.shard (shardOf t))
        simpa [Tracks, CountedOn] using hm.tracks
      · simp only [Vol.put, Vol.setShard, update_of_ne hk]
        rw [headcount_stay (by simp [CountedOn, Ne.symm hk])]
        exact h.shard k
    call := (forall_update_iff s.calls fun _ pc => pc.EpochOk s.forkEpoch).mpr
      ⟨hm.epoch, fun u _ => h.call u⟩
    admitted := fun u hadm => by
      by_cases hu : u = t
      · subst hu
        simp only [Vol.put, update_self] at hadm
        have hlive := hm.admitted hadm
        refine ⟨fun hfreed => hlive hfreed.retired, fun e k hwait => absurd (.inr ?_) hlive⟩
        have hcontrol : s.control = .await e k := hwait
        rw [hcontrol]
        rfl
      · simp only [Vol.put, update_of_ne hu] at hadm
        exact h.admitted u hadm }

theorem Inv.callPut (h : Inv shardOf s) {pc : Pc} (hcounted : (s.calls t).counted = pc.counted)
    (hepoch : pc.EpochOk s.forkEpoch) (hadm : pc.Admitted → ¬ s.Retired) :
    Inv shardOf (s.put t pc) := by
  have hm : CallMove shardOf s t (s.shards (shardOf t)) pc :=
    ⟨h.older _, .inl ⟨by simp only [hcounted], rfl⟩, hepoch, hadm⟩
  have hself : s.setShard (shardOf t) (s.shards (shardOf t)) = s := by
    rw [Vol.setShard, update_eq_self]
  have hput := h.callMove hm
  rwa [hself] at hput

theorem callStep_inv (h : Inv shardOf s) (hok : Sparse shardOf s (.step t))
    (hl : callStep shardOf s t = some s') : Inv shardOf s' := by
  unfold callStep at hl
  cases hpc : s.calls t with
  | outside | admitted i =>
    rw [hpc] at hl
    cases hl
  | construct i =>
    rw [hpc] at hl
    cases hl
    exact h.callPut (by rw [hpc]; rfl) rfl nofun
  | load i epoch =>
    rw [hpc] at hl
    cases hl
    have hepoch := h.call t
    rw [hpc] at hepoch
    exact h.callPut (by rw [hpc]; rfl) hepoch nofun
  | exchange i epoch seen =>
    have hepoch := h.call t
    rw [hpc] at hl hepoch
    cases (hepoch : epoch = s.forkEpoch)
    simp only [] at hl
    split at hl <;> cases hl
    · next hseen =>
      subst hseen
      have hfew := h.ownCount_lt (hok.1 (shardOf t)) (by rw [hpc]; nofun) (by rw [hpc]; rfl)
      obtain ⟨hsame, hcount⟩ := ownCount_countedIn h.epoch hfew
      exact h.callMove ⟨hsame.le, .inr (.inl ⟨by rw [hpc]; nofun, rfl, hcount⟩), trivial, nofun⟩
    · exact h.callPut (by rw [hpc]; rfl) rfl nofun
  | checkTeardown i =>
    rw [hpc] at hl
    cases hl
    split <;> exact h.callPut (by rw [hpc]; rfl) trivial nofun
  | checkGeneration i =>
    rw [hpc] at hl
    cases hl
    split
    · next hhandle => exact h.callPut (by rw [hpc]; rfl) trivial fun _ => h.not_retired hhandle
    · exact h.callPut (by rw [hpc]; rfl) trivial nofun
  | leave =>
    rw [hpc] at hl
    cases hl
    have hcounted : (s.calls t).counted = true := by rw [hpc]; rfl
    obtain ⟨hsame, hcount⟩ := ownCount_countedOut h.epoch (h.ownCount_ne_zero hcounted)
    exact h.callMove ⟨hsame.le, .inr (.inr ⟨hcounted, nofun, hcount⟩), trivial, nofun⟩

end

section

variable {T : Type} {shardOf : T → Fin kHandleCallShards} {s s' : Vol T}

section

variable (h : Inv shardOf s)
include h

theorem Inv.advance {control : Control} {teardown fileOpen orphaned : Bool}
    (hwait : ∀ e k, control ≠ .await e k) (hretired : control.retired = true → s.Retired)
    (hfree : control ≠ .free) :
    Inv shardOf { s with
      control := control, teardown := teardown, fileOpen := fileOpen, orphaned := orphaned } :=
  { h with
    waiting := fun _ e k hc => absurd hc (hwait e k)
    retired := fun hr => h.retired (hr.elim .inl hretired)
    admitted := fun t hadm =>
      ⟨fun hfreed => (h.admitted t hadm).1 (hfreed.elim .inl fun hc => absurd hc hfree),
        fun e k hc => absurd hc (hwait e k)⟩ }

theorem Inv.await {epoch k : Nat} (hretired : s.Retired)
    (hepoch : s.orphaned = false → epoch = s.forkEpoch)
    (hadm : ∀ t, (s.calls t).Admitted → s.stripes ≠ false ∧ k ≤ shardOf t) :
    Inv shardOf { s with control := .await epoch k } :=
  { h with
    waiting := fun ho e k hc => by
      cases hc
      exact hepoch ho
    retired := fun _ => h.retired hretired
    admitted := fun t ht => by
      obtain ⟨hstripes, hle⟩ := hadm t ht
      refine ⟨fun hf => hf.elim hstripes nofun, fun e k hc => ?_⟩
      cases hc
      exact hle }

theorem awaitStep_inv {epoch k : Nat} (halive : s.orphaned = false)
    (hc : s.control = .await epoch k) (hl : (if hk : k < kHandleCallShards then
        if busy epoch (s.shards ⟨k, hk⟩) then some s
        else some { s with control := .await epoch (k + 1) }
      else some { s with control := .free }) = some s') : Inv shardOf s' := by
  have hretired : s.Retired := .inr (by rw [hc]; rfl)
  have hstripes : ∀ t, (s.calls t).Admitted → s.stripes ≠ false :=
    fun t hadm hs => (h.admitted t hadm).1 (.inl hs)
  have hepoch := h.waiting halive epoch k hc
  split at hl
  · next hk =>
    split at hl
    · exact Option.some.inj hl ▸ h
    · next hquiet =>
      cases hl
      refine h.await hretired (fun _ => hepoch) fun t hadm => ⟨hstripes t hadm, ?_⟩
      -- no admitted call is on the shard that was seen at zero
      have hle := (h.admitted t hadm).2 epoch k hc
      have hne : k ≠ shardOf t := by
        intro heq
        have hshard : (⟨k, hk⟩ : Fin kHandleCallShards) = shardOf t := Fin.ext heq
        rw [hshard, hepoch, busy_iff, not_not] at hquiet
        obtain ⟨i, hi⟩ := hadm
        exact h.ownCount_ne_zero (by rw [hi]; rfl) hquiet
      omega
  · next hk =>
    cases hl
    have hnone : ∀ t, ¬ (s.calls t).Admitted := by
      intro t hadm
      have hle := (h.admitted t hadm).2 epoch k hc
      have hlt := (shardOf t).isLt
      omega
    exact { h with
      waiting := nofun
      retired := fun _ => h.retired hretired
      admitted := fun t hadm => absurd hadm (hnone t) }

theorem controlStep_inv (halive : s.orphaned = false) (hl : controlStep s = some s') :
    Inv shardOf s' := by
  unfold controlStep at hl
  cases hc : s.control with rw [hc] at hl
  | idle | retire =>
    cases hl
  | teardown | closeFile | rearm | openFile | initLock =>
    cases hl
    exact h.advance nofun nofun nofun
  | wait =>
    cases hl
    have hretired : s.Retired := .inr (by rw [hc]; rfl)
    refine h.await hretired (fun _ => rfl) fun t hadm => ⟨?_, Nat.zero_le _⟩
    exact fun hstripes => (h.admitted t hadm).1 (.inl hstripes)
  | await epoch k =>
    exact awaitStep_inv h halive hc hl
  | free =>
    cases hl
    have hnone : ∀ t, ¬ (s.calls t).Admitted := fun t hadm => (h.admitted t hadm).1 (.inr hc)
    exact { h with
      waiting := nofun
      retired := fun _ => h.retired (.inr (by rw [hc]; rfl))
      admitted := fun t hadm => absurd hadm (hnone t) }
  | build =>
    cases hl
    exact { h with
      waiting := nofun
      retired := fun hr => hr.elim nofun nofun
      admitted := fun t hadm => ⟨fun hf => hf.elim nofun nofun, nofun⟩ }

theorem controlFail_inv (hl : controlFail s = some s') : Inv shardOf s' := by
  unfold controlFail at hl
  split at hl <;> cases hl <;> exact h.advance nofun nofun nofun

theorem retire_inv :
    Inv shardOf { s with stripeGeneration := s.stripeGeneration + 1, control := .wait } :=
  { h with
    waiting := nofun
    handles := fun g hg => (h.handles g hg).trans (Nat.le_succ _)
    retired := fun _ g hg => Nat.lt_succ_of_le (h.handles g hg)
    admitted := fun t hadm => ⟨fun hf => (h.admitted t hadm).1 (hf.elim .inl nofun), nofun⟩ }

theorem create_inv (hc : s.control = .idle) (hstripes : s.stripes = true) :
    Inv shardOf { s with handles := s.handles ++ [s.stripeGeneration] } :=
  { h with
    handles := List.forall_mem_append.mpr ⟨h.handles, List.forall_mem_singleton.mpr le_rfl⟩
    retired := fun hr => by
      rcases hr with hr | hr
      · rw [hstripes] at hr
        cases hr
      · rw [hc] at hr
        cases hr }

theorem forked_inv (hepoch : s.forkEpoch + 1 < 2 ^ 32) : Inv shardOf (forked s) := by
  have hmod : (forked s).forkEpoch = s.forkEpoch + 1 := Nat.mod_eq_of_lt hepoch
  exact { h with
    epoch := hmod ▸ hepoch
    older := fun k => hmod ▸ (h.older k).trans (Nat.le_succ _)
    shard := fun k => by
      rw [hmod, headcount_eq_zero.mpr fun t ht => Bool.false_ne_true ht.2]
      exact_mod_cast ownCount_of_older (Nat.lt_succ_of_le (h.older k))
    call := fun _ => trivial
    waiting := fun ho e k hc => by
      have hc' : s.control = .await e k := hc
      simp [forked, hc'] at ho
    admitted := nofun }

end

end

section

variable {T : Type} [DecidableEq T] {shardOf : T → Fin kHandleCallShards} {s s' : Vol T} {l : Act T}

theorem volStep_inv (h : Inv shardOf s) (hok : Sparse shardOf s l)
    (hl : volStep shardOf s l = some s') : Inv shardOf s' := by
  cases l with simp only [volStep] at hl
  | create =>
    split at hl <;> cases hl
    next hc =>
    exact create_inv h hc.1 hc.2
  | call t i =>
    split at hl <;> cases hl
    next hc =>
    exact h.callPut (by rw [hc.1]; rfl) trivial nofun
  | step t => exact callStep_inv h hok hl
  | spurious t =>
    split at hl <;> cases hl
    next i epoch seen hpc =>
    have hepoch := h.call t
    rw [hpc] at hepoch
    exact h.callPut (by rw [hpc]; rfl) hepoch nofun
  | finish t =>
    split at hl <;> cases hl
    next i hpc =>
    exact h.callPut (by rw [hpc]; rfl) trivial nofun
  | close | «open» =>
    split at hl <;> cases hl
    exact h.advance nofun nofun nofun
  | retire =>
    split at hl <;> cases hl
    exact retire_inv h
  | control =>
    split at hl
    · next halive => exact controlStep_inv h halive hl
    · cases hl
  | fail =>
    split at hl
    · exact controlFail_inv h hl
    · cases hl
  | child t =>
    split at hl <;> cases hl
    exact forked_inv h hok.2

structure Later (s s' : Vol T) : Prop where
  handles : s.handles <+: s'.handles
  generation : s.stripeGeneration ≤ s'.stripeGeneration
  admitted : ∀ t i, s'.calls t = .admitted i →
    s.calls t = .admitted i ∨ s.handles[i]? = some s.stripeGeneration

omit [DecidableEq T] in
theorem Later.handle (h : Later s s') {i g : Nat} (hg : s.handles[i]? = some g) :
    s'.handles[i]? = some g := by
  obtain ⟨new, hnew⟩ := h.handles
  rw [← hnew, List.getElem?_append_left (List.getElem?_eq_some_iff.mp hg).1]
  exact hg

theorem later_put {t : T} {pc : Pc} (hcalls : s'.calls = update s.calls t pc)
    (hhandles : s'.handles = s.handles) (hgen : s'.stripeGeneration = s.stripeGeneration)
    (hpc : ∀ i, pc = .admitted i → s.handles[i]? = some s.stripeGeneration) : Later s s' := by
  refine ⟨hhandles ▸ List.prefix_refl _, hgen.ge, fun u i hadm => ?_⟩
  rcases moved_cases hadm hcalls with ⟨-, hadm⟩ | ⟨-, hadm⟩
  · exact .inr (hpc i hadm)
  · exact .inl hadm

theorem callStep_later {t : T} (hl : callStep shardOf s t = some s') : Later s s' := by
  unfold callStep at hl
  split at hl
  · cases hl
  · cases hl
    exact later_put rfl rfl rfl nofun
  · cases hl
    exact later_put rfl rfl rfl nofun
  · split at hl <;> cases Option.some.inj hl <;> exact later_put rfl rfl rfl nofun
  · cases hl
    split <;> exact later_put rfl rfl rfl nofun
  · cases hl
    split
    · next hhandle =>
      refine later_put rfl rfl rfl fun i hi => ?_
      cases hi
      exact hhandle
    · exact later_put rfl rfl rfl nofun
  · cases hl
  · cases hl
    exact later_put rfl rfl rfl nofun

omit [DecidableEq T] in
theorem later_of_calls (hcalls : s'.calls = s.calls) (hhandles : s.handles <+: s'.handles)
    (hgen : s.stripeGeneration ≤ s'.stripeGeneration) : Later s s' :=
  ⟨hhandles, hgen, fun _ _ h => .inl (hcalls ▸ h)⟩

omit [DecidableEq T] in
theorem controlStep_keeps (hl : controlStep s = some s') :
    s'.calls = s.calls ∧ s'.handles = s.handles ∧ s'.stripeGeneration = s.stripeGeneration := by
  unfold controlStep at hl
  split at hl
  case h_5 =>
    split at hl
    · split at hl <;> cases hl <;> exact ⟨rfl, rfl, rfl⟩
    · cases hl
      exact ⟨rfl, rfl, rfl⟩
  all_goals
    cases hl
    try exact ⟨rfl, rfl, rfl⟩

omit [DecidableEq T] in
theorem controlFail_keeps (hl : controlFail s = some s') :
    s'.calls = s.calls ∧ s'.handles = s.handles ∧ s'.stripeGeneration = s.stripeGeneration := by
  unfold controlFail at hl
  split at hl <;> cases hl <;> exact ⟨rfl, rfl, rfl⟩

theorem volStep_later (hl : volStep shardOf s l = some s') : Later s s' := by
  have hkeeps : s'.calls = s.calls ∧ s'.handles = s.handles ∧
      s'.stripeGeneration = s.stripeGeneration → Later s s' :=
    fun ⟨hcalls, hhandles, hgen⟩ => later_of_calls hcalls (hhandles ▸ List.prefix_refl _) hgen.ge
  cases l with simp only [volStep] at hl
  | step t => exact callStep_later hl
  | create =>
    split at hl <;> cases hl
    exact later_of_calls rfl (List.prefix_append _ _) (le_refl _)
  | call t i | spurious t | finish t =>
    split at hl <;> cases hl
    exact later_put rfl rfl rfl nofun
  | close | «open» =>
    split at hl <;> cases hl
    exact hkeeps ⟨rfl, rfl, rfl⟩
  | retire =>
    split at hl <;> cases hl
    exact later_of_calls rfl (List.prefix_refl _) (Nat.le_succ _)
  | control =>
    split at hl
    · exact hkeeps (controlStep_keeps hl)
    · cases hl
  | fail =>
    split at hl
    · exact hkeeps (controlFail_keeps hl)
    · cases hl
  | child t =>
    split at hl <;> cases hl
    exact ⟨List.prefix_refl _, le_refl _, nofun⟩

def LeftBehind (i : Nat) (s : Vol T) : Prop := ∃ g, s.handles[i]? = some g ∧ g < s.stripeGeneration

theorem LeftBehind.step {i : Nat} (h : LeftBehind i s) (hl : volStep shardOf s l = some s') :
    LeftBehind i s' := by
  obtain ⟨g, hg, hlt⟩ := h
  have hlater := volStep_later hl
  exact ⟨g, hlater.handle hg, hlt.trans_le hlater.generation⟩

theorem LeftBehind.not_admitted {t : T} {i : Nat} (h : LeftBehind i s)
    (hl : volStep shardOf s l = some s') (hpc : s.calls t ≠ .admitted i) :
    s'.calls t ≠ .admitted i := by
  intro hadm
  obtain ⟨g, hg, hlt⟩ := h
  rcases (volStep_later hl).admitted t i hadm with hold | hcur
  · exact hpc hold
  · rw [hg] at hcur
    cases hcur
    exact lt_irrefl _ hlt

theorem leftBehind_of_retire {ls : List (Act T)} {g i : Nat} (hretire : Act.retire ∈ ls)
    (hrun : runs (volStep shardOf) s ls = some s') (hg : s.handles[i]? = some g)
    (hle : g ≤ s.stripeGeneration) : LeftBehind i s' := by
  induction ls generalizing s with
  | nil => cases hretire
  | cons l ls ih =>
    obtain ⟨mid, hl, hrest⟩ := runs_cons_some hrun
    have hlater := volStep_later hl
    rcases List.mem_cons.mp hretire with rfl | hretire
    · have hlt : g < mid.stripeGeneration := by
        simp only [volStep] at hl
        split at hl <;> cases hl
        exact Nat.lt_succ_of_le hle
      exact runs_inv (fun _ _ _ h hl => LeftBehind.step h hl) hrest ⟨g, hlater.handle hg, hlt⟩
    · exact ih hretire hrest (hlater.handle hg) (hle.trans hlater.generation)

/-- Calls through handles, and the stripes: while they are gone no admitted call
is running; a call that starts after a close with a handle from before is
refused for good; and a process waits only for calls of its own. -/
theorem handle_calls_safe {ls : List (Act T)} {s : Vol T}
    (hok : StepsOk (volStep shardOf) (Sparse shardOf) {} ls)
    (hrun : runs (volStep shardOf) {} ls = some s) :
    (s.Freed → ∀ t, ¬ (s.calls t).Admitted) ∧
      (∀ i < s.handles.length, ∀ ls₁ s₁ ls₂ s₂ t, Act.retire ∈ ls₁ →
        runs (volStep shardOf) s ls₁ = some s₁ → s₁.calls t = .outside →
        runs (volStep shardOf) s₁ ls₂ = some s₂ → s₂.calls t ≠ .admitted i) ∧
      ∀ epoch k, s.orphaned = false → s.control = .await epoch k.val →
        busy epoch (s.shards k) = true → ∃ t, shardOf t = k ∧ (s.calls t).InFlight := by
  have hinv : Inv shardOf s :=
    runs_inv_of_ok (fun _ _ _ h hok hl => volStep_inv h hok hl) hok hrun (inv_start shardOf)
  refine ⟨fun hfreed t hadm => (hinv.admitted t hadm).1 hfreed, ?_, ?_⟩
  · intro i hi ls₁ s₁ ls₂ s₂ t hretire hrun₁ hout hrun₂
    have hg := List.getElem?_eq_getElem hi
    have hleft := leftBehind_of_retire hretire hrun₁ hg (hinv.handles _ (List.getElem_mem hi))
    exact (@runs_inv _ _ _ (fun s => LeftBehind i s ∧ s.calls t ≠ .admitted i)
      (fun _ _ _ h hl => ⟨h.1.step hl, h.1.not_admitted hl h.2⟩) _ _ _ hrun₂
      ⟨hleft, by rw [hout]; nofun⟩).2
  · intro epoch k halive hcontrol hbusy
    rw [hinv.waiting halive epoch k hcontrol] at hbusy
    obtain ⟨t, ht, hcounted⟩ := hinv.busy_own hbusy
    refine ⟨t, ht, fun hout => ?_⟩
    rw [hout] at hcounted
    cases hcounted

end

theorem sparse_of_two {shardOf : Bool → Fin kHandleCallShards} {s : Vol Bool} {l : Act Bool}
    (h : s.forkEpoch + 1 < 2 ^ 32) : Sparse shardOf s l := by
  refine ⟨fun k => ?_, ?_⟩
  · calc headcount (fun t pc => shardOf t = k ∧ pc.InFlight) s.calls
        ≤ (Set.univ : Set Bool).encard := Set.encard_le_encard (Set.subset_univ _)
      _ = 2 := by rw [Set.encard_univ, ENat.card_eq_coe_fintype_card]; rfl
      _ < 2 ^ 32 := by exact_mod_cast (by decide : 2 < 2 ^ 32)
  · cases l with
    | child t => exact h
    | _ => trivial

def closedInChild : List (Act Bool) :=
  [.open, .control, .control, .control, .control, .create, .call true 0] ++
    List.replicate 5 (.step true) ++ [.child false, .close, .control, .retire] ++
    List.replicate 66 .control

def seven : Fin kHandleCallShards := ⟨7, by decide⟩

theorem handle_calls_safe_child :
    ∃ s, runs (volStep fun _ => seven) {} closedInChild = some s ∧ s.shards seven = 1 ∧ s.Freed ∧
      ∀ t, ¬ (s.calls t).Admitted := by
  obtain ⟨s, hrun, hword, hcontrol⟩ : ∃ s, runs (volStep fun _ => seven) ({} : Vol Bool)
      closedInChild = some s ∧ s.shards seven = 1 ∧ s.control = .free := by decide +kernel
  have hok : StepsOk (volStep fun _ => seven) (Sparse fun _ => seven) ({} : Vol Bool)
      closedInChild :=
    @stepsOk_of_sound _ _ _ _ _ _ (fun s _ => decide (s.forkEpoch + 1 < 2 ^ 32))
      (fun _ _ h => sparse_of_two (of_decide_eq_true h)) (by decide +kernel)
  exact ⟨s, hrun, hword, .inr hcontrol, (handle_calls_safe hok hrun).1 (.inr hcontrol)⟩

end CycloneCache.Ref.HandleCalls

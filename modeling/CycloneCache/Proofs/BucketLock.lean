import CycloneCache.Ref.Seqlock

namespace CycloneCache.Ref.Seqlock

open Lib Directories Function

theorem isOdd_ofNat (n : Nat) : isOdd (BitVec.ofNat 32 n) = decide (n % 2 = 1) := by
  have hbit : (BitVec.ofNat 32 n &&& 1#32).toNat = n % 2 := by
    rw [BitVec.toNat_and, BitVec.toNat_ofNat, BitVec.toNat_ofNat, show 1 % 2 ^ 32 = 1 from rfl,
      Nat.and_one_is_mod]
    omega
  rw [isOdd, Bool.eq_iff_iff, bne_iff_ne, decide_eq_true_iff, ← hbit]
  constructor
  · intro hne
    have hpos : (BitVec.ofNat 32 n &&& 1#32).toNat ≠ 0 := fun h => hne (BitVec.eq_of_toNat_eq h)
    omega
  · intro hone hzero
    rw [hzero] at hone
    exact absurd hone (by decide)

theorem isOdd_add_one (v : BitVec 32) : isOdd (v + 1#32) = !isOdd v := by
  have hv : isOdd v = decide (v.toNat % 2 = 1) := by
    rw [← isOdd_ofNat, BitVec.ofNat_toNat, BitVec.setWidth_eq]
  have hv' : isOdd (v + 1#32) = decide ((v.toNat + 1) % 2 = 1) := by
    rw [← isOdd_ofNat, BitVec.ofNat_add, BitVec.ofNat_toNat, BitVec.setWidth_eq]
  rw [hv, hv']
  by_cases h : v.toNat % 2 = 1
  · simp [h, show ¬(v.toNat + 1) % 2 = 1 by omega]
  · simp [h, show (v.toNat + 1) % 2 = 1 by omega]

section Moves

variable {P : Type} [DecidableEq P] {k : Kind} {s s' : State P} {p : P}

def Pc.Ok : Pc → Prop
  | .fastCas v | .claimCas v => isOdd v = false
  | .waiting v | .forceCas v => isOdd v = true
  | .holding token _ => isOdd token = false
  | _ => True

def Pc.isHolding : Pc → Bool
  | .holding .. => true
  | _ => false

structure Ordered (k : Kind) (s : State P) : Prop where
  pcs : ∀ p, (s.pc p).Ok
  free : k = .directory → s.mutex = none → isOdd s.version = false
  held : k = .directory → ∀ p, (s.pc p).isHolding = true → s.mutex = some p
  odd : k = .directory → ∀ p, s.mutex = some p → isOdd s.version = true

inductive LockMove (k : Kind) (s : State P) (p : P) (s' : State P) : Prop where
  | stay (pc : Pc) (hpc : s'.pc = update s.pc p pc) (hok : pc.Ok)
      (hold : pc.isHolding = true → s.pc p = pc) (hmutex : s'.mutex = s.mutex)
      (hversion : s'.version = s.version) (hsteps : s'.steps = s.steps)
      (hacq : s'.acquisitions = s.acquisitions) (hrec : s'.recovered = s.recovered)
      (hbucket : s'.bucket = s.bucket ∨
        ((s.pc p).isHolding = true ∧ s'.bucket.length = s.bucket.length))
  | claim (even : isOdd s.version = false)
      (hpc : s'.pc = update s.pc p (.holding s.version (s.steps + 1)))
      (hmutex : k = .directory → s.mutex = none ∧ s'.mutex = some p)
      (hversion : s'.version = s.version + 1#32) (hsteps : s'.steps = s.steps + 1)
      (hacq : s'.acquisitions = ⟨p, s.version + 1#32, s.steps + 1⟩ :: s.acquisitions)
      (hrec : s'.recovered = s.recovered) (hbucket : s'.bucket = s.bucket)
  | leave (pc : Pc) (odd : isOdd s.version = true) (hpc : s'.pc = update s.pc p pc)
      (hok : pc.Ok) (hold : pc.isHolding = false)
      (hmutex : k = .directory → s.mutex = some p ∧ s'.mutex = none)
      (hversion : s'.version = s.version + 1#32) (hsteps : s'.steps = s.steps + 1)
      (hacq : s'.acquisitions = s.acquisitions)
      (hrec : (s'.recovered = s.recovered ∧ (s.pc p).isHolding = true) ∨
        s'.recovered = s.steps :: s.recovered)
      (hbucket : s'.bucket = s.bucket)

theorem LockMove.goto {pc : Pc} (hok : pc.Ok) (hold : pc.isHolding = false) :
    LockMove k s p (s.goto p pc) :=
  .stay pc rfl hok (fun h => by simp [hold] at h) rfl rfl rfl rfl rfl (.inl rfl)

theorem LockMove.same (h : Ordered k s) (hpc : s'.pc = s.pc) (hmutex : s'.mutex = s.mutex)
    (hversion : s'.version = s.version) (hsteps : s'.steps = s.steps)
    (hacq : s'.acquisitions = s.acquisitions) (hrec : s'.recovered = s.recovered)
    (hbucket : s'.bucket = s.bucket ∨
      ((s.pc p).isHolding = true ∧ s'.bucket.length = s.bucket.length)) : LockMove k s p s' :=
  .stay (s.pc p) (by rw [update_eq_self, hpc]) (h.pcs p) (fun _ => rfl) hmutex hversion
    hsteps hacq hrec hbucket

theorem writerCas_lockMove (h : Ordered .mmap s) {spurious : Bool}
    (hs : writerCas s p spurious = some s') : LockMove .mmap s p s' := by
  have hpc := h.pcs p
  unfold writerCas at hs
  split at hs <;> cases hs
  · next v hv =>
    split
    · next heq =>
      rw [hv, ← heq] at hpc
      exact .claim hpc rfl (nomatch ·) rfl rfl rfl rfl rfl
    · exact .goto trivial rfl
  · next v hv =>
    split
    · next heq =>
      rw [hv, ← heq.1] at hpc
      exact .claim hpc rfl (nomatch ·) rfl rfl rfl rfl rfl
    · exact .goto trivial rfl
  · next v hv =>
    split
    · next heq =>
      rw [hv, ← heq] at hpc
      exact .leave .slow hpc rfl trivial rfl (nomatch ·) rfl rfl rfl (.inr rfl) rfl
    · exact .goto trivial rfl

theorem probeRead_lockMove {q : Probe} {pc : ReadPc} (hs : probeRead s p q pc = some s') :
    LockMove k s p s' := by
  cases pc with
  | phase | version curPhase | copy curPhase before i words =>
    cases hs
    exact .goto trivial rfl
  | last before =>
    cases hs
    split <;> exact .goto trivial rfl
  | check | retry => cases hs

theorem probeRecheck_lockMove (q : Probe) (curPhase : Bool) (before : BitVec 32) (i : Nat)
    (entry : PackedEntry) (more : Bool) :
    LockMove k s p (probeRecheck s p q curPhase before i entry more) := by
  unfold probeRecheck
  split
  · exact .goto trivial rfl
  · split <;> exact .goto trivial rfl

theorem probeRecover_lockMove {q : Probe} {old : Bool}
    (hs : probeRecover s p q old = some s') : LockMove .mmap s p s' := by
  unfold probeRecover at hs
  split at hs
  · cases hs
  · next hask =>
    split at hs
    · cases hs
      exact .goto trivial rfl
    · split at hs <;> cases hs
      · next heq =>
        have hodd : isOdd s.version = true := by
          rw [heq]
          simpa using (not_or.mp hask).2
        exact .leave _ hodd rfl trivial rfl (nomatch ·) rfl rfl rfl (.inr rfl) rfl
      · exact .goto trivial rfl

theorem releaseWriter_lockMove {token : BitVec 32} {claim : Nat} (h : Ordered .mmap s)
    (hpc : s.pc p = .holding token claim) : LockMove .mmap s p (releaseWriter s p token) := by
  have hok := h.pcs p
  rw [hpc] at hok
  unfold releaseWriter
  split
  · next heq =>
    have hodd : isOdd s.version = true := by
      rw [heq, isOdd_add_one, hok]
      rfl
    exact .leave .idle hodd rfl trivial rfl (nomatch ·) rfl rfl rfl (.inl ⟨rfl, by rw [hpc]; rfl⟩)
      rfl
  · exact .goto trivial rfl

theorem move_lockMove {a : Act} (h : Ordered k s) (hs : move k s p a = some s') :
    LockMove k s p s' := by
  cases a with simp only [move] at hs
  | acquire | load =>
    split at hs <;> cases hs
    cases hodd : isOdd s.version <;> exact .goto (by simp [Pc.Ok, hodd]) rfl
  | wait | probe tag filterPhase | retry | finish | die =>
    split at hs <;> cases hs
    exact .goto trivial rfl
  | giveUp =>
    split at hs <;> cases hs <;> exact .goto trivial rfl
  | expire =>
    split at hs <;> cases hs
    next v hv =>
    have hok := h.pcs p
    rw [hv] at hok
    exact .goto hok rfl
  | cas spurious =>
    cases k with
    | mmap => exact writerCas_lockMove h hs
    | directory => cases hs
  | beginBucketWrite =>
    split at hs <;> cases hs
    next _ _ hmutex =>
    exact .claim (h.free rfl hmutex) rfl (fun _ => ⟨hmutex, rfl⟩) rfl rfl rfl rfl rfl
  | write i j w =>
    split at hs <;> cases hs
    next hpc =>
    exact .same h rfl rfl rfl rfl rfl rfl (.inr ⟨by rw [hpc]; rfl, List.length_modify ..⟩)
  | endBucketWrite =>
    split at hs <;> cases hs
    next token claim hpc =>
    have hmutex := h.held rfl p (by rw [hpc]; rfl)
    exact .leave .idle (h.odd rfl p hmutex) rfl trivial rfl (fun _ => ⟨hmutex, rfl⟩) rfl rfl
      rfl (.inl ⟨rfl, by rw [hpc]; rfl⟩) rfl
  | release =>
    split at hs <;> cases hs
    next token claim hpc =>
    exact releaseWriter_lockMove h hpc
  | read =>
    split at hs
    · exact probeRead_lockMove hs
    · cases hs
  | recheck more =>
    split at hs <;> cases hs
    exact probeRecheck_lockMove ..
  | recover old =>
    split at hs
    · exact probeRecover_lockMove hs
    · cases hs
  | togglePhase =>
    cases hs
    exact .same h rfl rfl rfl rfl rfl rfl (.inl rfl)

theorem pcs_update (h : Ordered k s) {pc : Pc} (hok : pc.Ok) : ∀ q, (update s.pc p pc q).Ok :=
  (forall_update_iff s.pc fun _ pc => pc.Ok).mpr ⟨hok, fun q _ => h.pcs q⟩

theorem LockMove.ordered (h : Ordered k s) (hm : LockMove k s p s') : Ordered k s' := by
  cases hm with
  | stay pc hpc hok hold hmutex hversion =>
    refine ⟨by rw [hpc]; exact pcs_update h hok, ?_, fun hk q hq => ?_, ?_⟩
    · rw [hmutex, hversion]
      exact h.free
    · rw [hmutex]
      apply h.held hk
      rw [hpc] at hq
      by_cases hqp : q = p
      · rw [hqp, update_self] at hq
        rw [hqp, hold hq]
        exact hq
      · rwa [update_of_ne hqp] at hq
    · rw [hmutex, hversion]
      exact h.odd
  | claim even hpc hmutex hversion =>
    refine ⟨by rw [hpc]; exact pcs_update h even, fun hk hnone => ?_, fun hk q hq => ?_, ?_⟩
    · rw [(hmutex hk).2] at hnone
      cases hnone
    · rw [(hmutex hk).2]
      by_cases hqp : q = p
      · rw [hqp]
      · rw [hpc, update_of_ne hqp] at hq
        exact nomatch (h.held hk q hq).symm.trans (hmutex hk).1
    · intro _ _ _
      rw [hversion, isOdd_add_one, even]
      rfl
  | leave pc odd hpc hok hold hmutex hversion =>
    refine ⟨by rw [hpc]; exact pcs_update h hok, ?_, fun hk q hq => ?_, fun hk q hsome => ?_⟩
    · intro _ _
      rw [hversion, isOdd_add_one, odd]
      rfl
    · by_cases hqp : q = p
      · rw [hpc, hqp, update_self, hold] at hq
        cases hq
      · rw [hpc, update_of_ne hqp] at hq
        exact absurd (Option.some.inj ((h.held hk q hq).symm.trans (hmutex hk).1)) hqp
    · rw [(hmutex hk).2] at hsome
      cases hsome

structure Counted (start : Nat) (s : State P) : Prop where
  version : s.version = BitVec.ofNat 32 s.steps
  count : s.steps + s.steps % 2 = start + 2 * s.acquisitions.length
  sorted : (s.acquisitions.map Acquisition.step).Pairwise (· > ·)
  past : ∀ a ∈ s.acquisitions,
    a.step ≤ s.steps ∧ a.step % 2 = 1 ∧ a.claimed = BitVec.ofNat 32 a.step
  current : s.steps % 2 = 1 → s.steps ∈ s.acquisitions.map Acquisition.step
  holding : ∀ q token claim, s.pc q = .holding token claim →
    ⟨q, token + 1#32, claim⟩ ∈ s.acquisitions
  recovered : ∀ r ∈ s.recovered, r < s.steps

omit [DecidableEq P] in
theorem Counted.isOdd_version {start : Nat} (h : Counted start s) :
    isOdd s.version = decide (s.steps % 2 = 1) := by
  rw [h.version, isOdd_ofNat]

theorem LockMove.counted {start : Nat} (h : Counted start s) (hm : LockMove k s p s') :
    Counted start s' := by
  cases hm with
  | stay pc hpc hok hold hmutex hversion hsteps hacq hrec =>
    refine ⟨by rw [hversion, hsteps, h.version], by rw [hsteps, hacq, h.count],
      by rw [hacq]; exact h.sorted, by rw [hacq, hsteps]; exact h.past,
      by rw [hacq, hsteps]; exact h.current, fun q token claim hq => ?_,
      by rw [hrec, hsteps]; exact h.recovered⟩
    rw [hacq]
    apply h.holding
    rcases moved_cases hq hpc with ⟨rfl, rfl⟩ | ⟨-, hq⟩
    · exact hold rfl
    · exact hq
  | claim even hpc hmutex hversion hsteps hacq hrec =>
    have hparity : s.steps % 2 = 0 := by
      rw [h.isOdd_version] at even
      have := of_decide_eq_false even
      omega
    have hcount := h.count
    have hnext : s.version + 1#32 = BitVec.ofNat 32 (s.steps + 1) := by
      rw [h.version, BitVec.ofNat_add]
    refine ⟨by rw [hversion, hsteps, hnext], ?_, ?_, ?_, ?_, fun q token claim hq => ?_, ?_⟩
    · rw [hsteps, hacq, List.length_cons]
      omega
    · rw [hacq, List.map_cons, List.pairwise_cons]
      refine ⟨fun n hn => ?_, h.sorted⟩
      obtain ⟨a, ha, rfl⟩ := List.mem_map.mp hn
      exact Nat.lt_succ_of_le (h.past a ha).1
    · rw [hacq, hsteps]
      intro a ha
      obtain rfl | ha := List.mem_cons.mp ha
      · exact ⟨le_refl _, by show (s.steps + 1) % 2 = 1; omega, hnext⟩
      · exact ⟨(h.past a ha).1.trans (Nat.le_succ _), (h.past a ha).2⟩
    · rw [hacq, hsteps]
      exact fun _ => List.mem_cons_self
    · rw [hacq]
      rcases moved_cases hq hpc with ⟨rfl, hself⟩ | ⟨-, hq⟩
      · cases hself
        exact List.mem_cons_self
      · exact List.mem_cons_of_mem _ (h.holding q token claim hq)
    · rw [hrec, hsteps]
      exact fun r hr => (h.recovered r hr).trans (Nat.lt_succ_self _)
  | leave pc odd hpc hok hold hmutex hversion hsteps hacq hrec =>
    have hparity : s.steps % 2 = 1 := by
      rw [h.isOdd_version] at odd
      exact of_decide_eq_true odd
    have hcount := h.count
    refine ⟨by rw [hversion, hsteps, h.version, BitVec.ofNat_add], ?_,
      by rw [hacq]; exact h.sorted, ?_, ?_, fun q token claim hq => ?_, ?_⟩
    · rw [hsteps, hacq]
      omega
    · rw [hacq, hsteps]
      exact fun a ha => ⟨(h.past a ha).1.trans (Nat.le_succ _), (h.past a ha).2⟩
    · rw [hsteps]
      intro heven
      omega
    · rw [hacq]
      apply h.holding
      rcases moved_cases hq hpc with ⟨-, hself⟩ | ⟨-, hq⟩
      · rw [hself] at hold
        cases hold
      · exact hq
    · rw [hsteps]
      intro r hr
      obtain ⟨hsame, -⟩ | hmore := hrec
      · rw [hsame] at hr
        exact (h.recovered r hr).trans (Nat.lt_succ_self _)
      · rw [hmore] at hr
        obtain rfl | hr := List.mem_cons.mp hr
        · exact Nat.lt_succ_self _
        · exact (h.recovered r hr).trans (Nat.lt_succ_self _)

end Moves

section Runs

variable {P : Type} {k : Kind}

theorem ofNat_eq_of_near {m n : Nat} (h : BitVec.ofNat 32 m = BitVec.ofNat 32 n) (hle : m ≤ n)
    (hnear : n - m < 2 ^ 32) : m = n := by
  have hmod := congrArg BitVec.toNat h
  rw [BitVec.toNat_ofNat, BitVec.toNat_ofNat] at hmod
  omega

variable {s s' : State P} {start : Nat} {l : P × Act}

theorem Counted.owns_iff (h : Counted start s) {a : Acquisition P} (ha : a ∈ s.acquisitions) :
    s.owns a = true ↔ a.step = s.steps := by
  obtain ⟨hle, -, hclaimed⟩ := h.past a ha
  simp only [State.owns, Bool.and_eq_true, beq_iff_eq, decide_eq_true_eq]
  constructor
  · rintro ⟨hsame, hnear⟩
    rw [hclaimed, h.version] at hsame
    exact ofNat_eq_of_near hsame hle (by omega)
  · intro hstep
    rw [hclaimed, h.version, hstep]
    exact ⟨rfl, by omega⟩

theorem Counted.countP_owns (h : Counted start s) :
    s.acquisitions.countP s.owns = (s.acquisitions.map Acquisition.step).count s.steps := by
  rw [List.count_eq_countP, List.countP_map]
  apply List.countP_congr
  intro a ha
  rw [h.owns_iff ha, comp_apply, beq_iff_eq]

theorem Counted.nodup (h : Counted start s) : (s.acquisitions.map Acquisition.step).Nodup :=
  h.sorted.imp fun hgt => (Nat.ne_of_lt hgt).symm

structure LockInv (k : Kind) (start : Start) (s : State P) : Prop where
  ordered : Ordered k s
  counted : Counted start.version.toNat s

theorem lockInv_fresh (k : Kind) (start : Start) : LockInv k start (.fresh P start) := by
  have hversion : start.version = BitVec.ofNat 32 start.version.toNat := by
    rw [BitVec.ofNat_toNat, BitVec.setWidth_eq]
  have heven : start.version.toNat % 2 = 0 := by
    have := start.even
    rw [hversion, isOdd_ofNat] at this
    have := of_decide_eq_false this
    omega
  refine ⟨⟨fun _ => trivial, fun _ _ => start.even, nofun,
    nofun⟩, ⟨hversion, ?_, .nil, nofun, fun hodd => ?_,
    nofun, nofun⟩⟩
  · show start.version.toNat + start.version.toNat % 2 = start.version.toNat + 2 * 0
    omega
  · have : start.version.toNat % 2 = 1 := hodd
    omega

variable [DecidableEq P]

theorem step_move (h : step k s l = some s') :
    ∃ mid, move k s l.1 l.2 = some mid ∧ s' = { mid with clock := s.clock + 1 } := by
  obtain ⟨mid, hmid, rfl⟩ := Option.map_eq_some_iff.mp h
  exact ⟨mid, hmid, rfl⟩

theorem step_lockMove (h : Ordered k s) (hs : step k s l = some s') : LockMove k s l.1 s' := by
  obtain ⟨mid, hmid, rfl⟩ := step_move hs
  cases move_lockMove h hmid with
  | stay pc hpc hok hold hmutex hversion hsteps hacq hrec hbucket =>
    exact .stay pc hpc hok hold hmutex hversion hsteps hacq hrec hbucket
  | claim even hpc hmutex hversion hsteps hacq hrec hbucket =>
    exact .claim even hpc hmutex hversion hsteps hacq hrec hbucket
  | leave pc odd hpc hok hold hmutex hversion hsteps hacq hrec hbucket =>
    exact .leave pc odd hpc hok hold hmutex hversion hsteps hacq hrec hbucket

theorem lockInv_step {start : Start} (h : LockInv k start s) (hs : step k s l = some s') :
    LockInv k start s' :=
  have hm := step_lockMove h.ordered hs
  ⟨hm.ordered h.ordered, hm.counted h.counted⟩

theorem lockInv_runs {start : Start} {ls : List (P × Act)}
    (h : runs (step k) (.fresh P start) ls = some s) : LockInv k start s :=
  runs_inv (fun _ _ _ => lockInv_step) h (lockInv_fresh k start)

/-- The bucket version as a writer lock, over every run of acquires, releases,
deaths and recoveries: it only counts up, the claims that it could be are one at
most and exactly one if it is odd, and a holder that was recovered from does not
touch it any more. A claim counts for less than `2 ^ 31` version steps. -/
theorem bucket_writer_lock {start : Start} {s : State P} {ls : List (P × Act)}
    (h : runs (step .mmap) (.fresh P start) ls = some s) :
    (∀ l s', step .mmap s l = some s' → s'.version = s.version ∨ s'.version = s.version + 1#32) ∧
    s.acquisitions.countP s.owns ≤ 1 ∧
    (∀ p token claim s', s.pc p = .holding token claim → claim ∈ s.recovered →
      s.steps - claim < 2 ^ 31 → step .mmap s (p, .release) = some s' →
      s'.version = s.version) ∧
    (isOdd s.version = true → s.acquisitions.countP s.owns = 1) := by
  obtain ⟨hord, hcnt⟩ := lockInv_runs h
  refine ⟨fun l s' hs => ?_, ?_, fun p token claim s' hpc hrec hnear hs => ?_, fun hodd => ?_⟩
  · cases step_lockMove hord hs with
    | stay _ _ _ _ _ hversion => exact .inl hversion
    | claim _ _ _ hversion | leave _ _ _ _ _ _ hversion => exact .inr hversion
  · rw [hcnt.countP_owns]
    exact List.nodup_iff_count_le_one.mp hcnt.nodup _
  · obtain ⟨mid, hmid, rfl⟩ := step_move hs
    have hlt := hcnt.recovered claim hrec
    have hclaimed : token + 1#32 = BitVec.ofNat 32 claim :=
      (hcnt.past _ (hcnt.holding p token claim hpc)).2.2
    -- its own odd value is behind, and the version cannot be back at it yet
    have hmoved : s.version ≠ token + 1#32 := by
      intro heq
      rw [hclaimed, hcnt.version] at heq
      have := ofNat_eq_of_near heq.symm hlt.le (by omega)
      omega
    simp only [move, hpc] at hmid
    cases hmid
    simp only [releaseWriter, if_neg hmoved]
    rfl
  · rw [hcnt.isOdd_version] at hodd
    rw [hcnt.countP_owns]
    exact List.count_eq_one_of_mem hcnt.nodup (hcnt.current (of_decide_eq_true hodd))

def recoveredAlive : List (Fin 2 × Act) :=
  [(0, .acquire), (0, .cas false), (1, .acquire), (1, .load), (1, .expire), (1, .cas false),
    (1, .load), (1, .cas false)]

def emptyBucket : Start := ⟨0, rfl, List.replicate 4 .cleared, rfl⟩

theorem bucket_writer_lock_recoveredAlive :
    ∃ s, runs (step .mmap) (.fresh (Fin 2) emptyBucket) recoveredAlive = some s ∧
      isOdd s.version = true ∧ s.acquisitions.length = 2 ∧ s.acquisitions.countP s.owns = 1 := by
  obtain ⟨s, hrun, hodd, hlen⟩ : ∃ s, runs (step .mmap) (.fresh (Fin 2) emptyBucket)
      recoveredAlive = some s ∧ isOdd s.version ∧ s.acquisitions.length = 2 := by decide +kernel
  exact ⟨s, hrun, hodd, hlen, (bucket_writer_lock hrun).2.2.2 hodd⟩

end Runs

end CycloneCache.Ref.Seqlock

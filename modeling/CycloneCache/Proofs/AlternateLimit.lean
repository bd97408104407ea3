import CycloneCache.Proofs.Supersede

namespace CycloneCache.Ref

open Lib Function

variable {cfg : ChainConfig} {s s' : ChainState} {w p : Nat} {l : List Shown}

theorem setCall_setCall (s : ChainState) (p : Nat) (a b : CallPc) :
    (s.setCall p a).setCall p b = s.setCall p b := by
  simp only [ChainState.setCall, update_idem]

variable {head id len retries : Nat} {nodes : List ChainNode} {r : Except CallError Unit}
  {pc : CallPc}

theorem walk_finishes {current : Nat} (h : Walking cfg s l nodes current)
    (hend : WalkedToEnd cfg s l) :
    ∃ k nodes', nodes'.map ChainNode.shown = l ∧ (∀ c ∈ nodes', c.cls = .kCurrent) ∧
      runs (chainStep cfg) (s.setCall p (.writeWalk id len retries (cfg.snapshot s) head .kCurrent
          .kCurrent nodes current)) (List.replicate k (.step p)) =
        some (s.setCall p (writeWalkEnd cfg id len retries head .kCurrent nodes' true false)) := by
  have hstep : ∀ {nodes current}, chainStep cfg (s.setCall p (.writeWalk id len retries
      (cfg.snapshot s) head .kCurrent .kCurrent nodes current)) (.step p) =
      some (s.setCall p (writeWalkStep cfg s id len retries (cfg.snapshot s) head .kCurrent
        .kCurrent nodes current)) := by
    intro nodes current
    simp only [chainStep, callStep, setCall_calls, setCall_setCall]
    rfl
  -- on the nodes the depth limit still allows
  generalize hn : kMaxChainTraversalDepth - nodes.length = n
  induction n using Nat.strong_induction_on generalizing nodes current with
  | _ n ih =>
    rcases h.step id len retries head with ⟨nodes', next, hw, hgrow, hless, heq⟩ |
      ⟨nodes', hl, hcls, heq⟩ | ⟨-, hshort, -⟩
    · obtain ⟨k, last, hl, hcls, hrun⟩ := ih _ (by omega) hw rfl
      refine ⟨k + 1, last, hl, hcls, ?_⟩
      rw [List.replicate_succ, runs_cons, hstep, heq]
      exact hrun
    · refine ⟨1, nodes', hl, hcls, ?_⟩
      rw [List.replicate_one, runs_cons, hstep, heq]
      rfl
    · exact absurd hend hshort

theorem write_walks (hidle : s.calls p = .returned r) (hlen : kHeaderSize ≤ len)
    (hchain : VisibleChain cfg s l) (hend : WalkedToEnd cfg s l) :
    ∃ k nodes e, s.entry = some e ∧ cfg.classify e (cfg.snapshot s) = .kCurrent ∧
      nodes ≠ [] ∧ nodes.map ChainNode.shown = l ∧ (∀ c ∈ nodes, c.cls = .kCurrent) ∧
      runs (chainStep cfg) s (.write p id len :: List.replicate k (.step p)) =
        some (s.setCall p (writeWalkEnd cfg id len 0 e.offset .kCurrent nodes true false)) := by
  obtain ⟨e, he, hcls, hhead, hany⟩ := hchain.probed
  have hwalking : Walking cfg s l [] e.offset := ⟨hchain, by simp, _, rfl, .inl hhead⟩
  obtain ⟨k, nodes, hl, hnodes, hrun⟩ := @walk_finishes _ _ p _ e.offset id len 0 _ _ hwalking hend
  have hne : nodes ≠ [] := by
    rintro rfl
    exact hchain.ne_nil hl.symm
  refine ⟨k + 2, nodes, e, he, hcls, hne, hl, hnodes, ?_⟩
  have hwrite : chainStep cfg s (.write p id len) = some (s.setCall p (.writeResolve id len 0)) := by
    simp only [chainStep, hidle]
    rw [if_pos hlen]
  have hresolve : chainStep cfg (s.setCall p (.writeResolve id len 0)) (.step p) =
      some (s.setCall p (.writeProbe id len 0 (cfg.snapshot s))) := by
    simp only [chainStep, callStep, setCall_calls, setCall_setCall]
    rfl
  have hwalk : chainStep cfg (s.setCall p (.writeProbe id len 0 (cfg.snapshot s))) (.step p) =
      some (s.setCall p (.writeWalk id len 0 (cfg.snapshot s) e.offset .kCurrent .kCurrent []
        e.offset)) := by
    simp only [chainStep, callStep, setCall_calls, setCall_setCall]
    have hprobe : ∀ pc, cfg.probe (s.setCall p pc) (cfg.snapshot s) = some (e, .kCurrent) :=
      fun _ => probe_eq he hcls (by simp)
    rw [hprobe]
    exact congrArg (some <| s.setCall p ·) (if_pos hany)
  rw [runs_cons, hwrite, Option.bind_some, List.replicate_succ, runs_cons, hresolve,
    Option.bind_some, List.replicate_succ, runs_cons, hwalk, Option.bind_some, hrun]

theorem write_completes (hunlink : cfg.unlinkSupersededAlternates = true)
    (hidle : s.calls p = .returned r) (hlen : kHeaderSize ≤ len) (hchain : VisibleChain cfg s l)
    (hend : WalkedToEnd cfg s l) (hlimit : (idsOf l).card < kMaxAlternates)
    (hroom : s.cursor + len ≤ cfg.runwayEnd) :
    ∃ k s', runs (chainStep cfg) s (.write p id len :: List.replicate k (.step p)) = some s' ∧
      s'.calls p = .returned (.ok ()) ∧ s'.cursor = s.cursor + roundUp8 len := by
  obtain ⟨k, nodes, e, he, hcls, hne, hl, hnodes, hrun⟩ :=
    @write_walks _ _ p _ id len r hidle hlen hchain hend
  have hprobe : ∀ pc, cfg.probe (s.setCall p pc) (cfg.snapshot (s.setCall p pc)) =
      some (e, .kCurrent) := fun _ => probe_eq he hcls (by simp)
  have hfull := planWrite_full id len e.offset hunlink hne hnodes
  rw [hl] at hfull
  rcases hfull with ⟨hover, -⟩ | ⟨-, plan, hok, hver, hret, hplan⟩
  · omega
  · have hsize : carriedSize plan.carried = 0 := by
      rw [hplan.carried]
      rfl
    rw [writeWalkEnd, hok] at hrun
    set s₁ : ChainState := { s with cursor := s.cursor + roundUp8 len } with hs₁
    have hfill : chainStep cfg (s.setCall p (.writeFill id len 0 plan)) (.step p) =
        some (s₁.setCall p (.writePublish id len 0 plan s.cursor)) := by
      simp only [chainStep, callStep, setCall_calls, writeFillStep]
      have hfresh : recheckStale cfg (s.setCall p (.writeFill id len 0 plan)) plan = false := by
        simp only [recheckStale, hret, hver, Bool.false_eq_true, if_false]
        rw [hprobe]
        exact bne_self_eq_false _
      rw [hfresh, if_neg Bool.false_ne_true, hsize, Nat.zero_add]
      rw [if_pos (show (s.setCall p (.writeFill id len 0 plan)).cursor + len ≤ cfg.runwayEnd from
        hroom)]
      simp only [hs₁, ChainState.setCall, update_idem]
    have hpublish : ∃ s₂, chainStep cfg (s₁.setCall p (.writePublish id len 0 plan s.cursor))
        (.step p) = some s₂ ∧ s₂.calls p = .writeSplice plan.repoints ∧
        s₂.cursor = s.cursor + roundUp8 len := by
      refine ⟨writePublishStep cfg (s₁.setCall p (.writePublish id len 0 plan s.cursor)) p id len 0
        plan s.cursor, by simp only [chainStep, callStep, setCall_calls], ?_⟩
      have hview : publishViewIsCurrent cfg
          (s₁.setCall p (.writePublish id len 0 plan s.cursor)) plan = true := by
        simp only [publishViewIsCurrent, hver]
        change s.entry.any _ = true
        simp [he]
      rw [writePublishStep, hview, if_pos rfl]
      exact ⟨update_self .., rfl⟩
    obtain ⟨s₂, hpub, hcall, hcursor⟩ := hpublish
    obtain ⟨s₃, hsplice, hdone, hsame⟩ := @splice_finishes cfg s₂ p _ hcall
    refine ⟨k + (2 + plan.repoints.length + 1), s₃.setCall p (.returned (.ok ())), ?_,
      setCall_calls .., hsame.trans hcursor⟩
    rw [List.replicate_add, ← List.cons_append, runs_append, hrun, Option.bind_some,
      Nat.add_assoc, List.replicate_add, runs_append, List.replicate_succ, runs_cons, hfill,
      Option.bind_some, List.replicate_succ, runs_cons, hpub, Option.bind_some, List.replicate_zero,
      runs_nil, Option.bind_some, List.replicate_add, runs_append, hsplice, Option.bind_some,
      List.replicate_one, runs_cons]
    simp only [chainStep, callStep, hdone, Option.bind_some, runs_nil]

def Refused (cfg : ChainConfig) (p : Nat) (s : ChainState) (id len : Nat) : Prop :=
  ∃ n s', runs (chainStep cfg) s (.write p id len :: List.replicate n (.step p)) = some s' ∧
    s'.calls p = .returned (.error .tooManyAlternates)

theorem refused_iff (hunlink : cfg.unlinkSupersededAlternates = true)
    (hstart : 0 < cfg.stripe.dataStart) (hidle : s.calls p = .returned r) (hlen : kHeaderSize ≤ len)
    (hchain : VisibleChain cfg s l) (hend : WalkedToEnd cfg s l) :
    Refused cfg p s id len ↔ kMaxAlternates ≤ (idsOf l).card := by
  constructor
  · rintro ⟨n, s', hrun, hcall⟩
    obtain ⟨s₁, hwrite, hsteps⟩ := runs_cons_some hrun
    have hold : OldChain cfg True s l := ⟨hchain, fun _ => hend⟩
    have hinit : Superseding cfg id l false True s₁ (s₁.calls p) := write_superseding hold hwrite
    have hnow := hinit.run hunlink hstart hsteps
    rw [hcall] at hnow
    exact hnow.2 rfl trivial
  · intro hover
    obtain ⟨k, nodes, e, -, -, hne, hl, hnodes, hrun⟩ :=
      @write_walks _ _ p _ id len r hidle hlen hchain hend
    refine ⟨k, _, hrun, ?_⟩
    rw [setCall_calls, writeWalkEnd]
    have hfull := planWrite_full id len e.offset hunlink hne hnodes
    rw [hl] at hfull
    rcases hfull with ⟨-, herr⟩ | ⟨hunder, -⟩
    · rw [herr]
    · omega

structure NoChain (cfg : ChainConfig) (s : ChainState) : Prop where
  entry : s.entry = none ∨ ∃ e, s.entry = some e ∧ cfg.classify e (cfg.snapshot s) = .kRetained
  low : cfg.stripe.dataStart ≤ s.cursor

structure OwnChain (len : Nat) (plan : WritePlan) : Prop extends PlanReady len plan where
  newNext : plan.newNext = 0
  repoints : plan.repoints = []
  carried : plan.carried.length < kMaxAlternates

theorem NoChain.of_same (h : NoChain cfg s) (hentry : s'.entry = s.entry)
    (hcursor : s.cursor ≤ s'.cursor) : NoChain cfg s' := by
  refine ⟨?_, h.low.trans hcursor⟩
  rcases h.entry with hnone | ⟨e, he, hcls⟩
  · exact .inl (hentry.trans hnone)
  · -- the cursor plays no part in a retained class
    have hret := Stripe.admitPosition_kRetained.mp hcls
    exact .inr ⟨e, hentry.trans he, Stripe.admitPosition_kRetained.mpr hret⟩

theorem carryKept_length {budget planned kept : Nat} {ns : List ChainNode}
    (h : kept < kMaxAlternates) :
    kept + (carryKept budget planned kept ns).length < kMaxAlternates := by
  induction ns generalizing planned kept with
  | nil => exact h
  | cons n ns ih =>
    rw [carryKept]
    split
    · next hfits =>
      have := @ih (planned + roundUp8 n.len) (kept + 1) (by omega)
      rw [List.length_cons]
      omega
    · exact ih h

theorem carryRetainedChain_length (hnodup : (nodes.map ChainNode.relOffset).Nodup) :
    (carryRetainedChain cfg nodes id len).length < kMaxAlternates := by
  set kept := carryKept (cfg.carryByteBudget len) 0 0
    ((carryCandidates [id] nodes).filter (·.id == kOriginal) ++
      (carryCandidates [id] nodes).filter (·.id != kOriginal)) with hkept
  have hlimit : kept.length < kMaxAlternates := by
    have := @carryKept_length (cfg.carryByteBudget len) 0 0
      ((carryCandidates [id] nodes).filter (·.id == kOriginal) ++
        (carryCandidates [id] nodes).filter (·.id != kOriginal)) (by decide)
    rwa [Nat.zero_add] at this
  set copies := (carryCandidates [id] nodes).filter fun n =>
    n.relOffset ∈ kept && kHeaderSize ≤ n.len && cfg.stripe.inDataArea n.relOffset &&
      n.len ≤ cfg.stripe.size - n.relOffset with hcopies
  -- the copies lie at different offsets, all of them kept ones
  have hdistinct : (copies.map ChainNode.relOffset).Nodup :=
    List.Nodup.sublist ((List.filter_sublist.trans (carryCandidates_sublist _ _)).map _) hnodup
  have hsub : copies.map ChainNode.relOffset ⊆ kept := by
    intro o ho
    obtain ⟨c, hc, rfl⟩ := List.mem_map.mp ho
    have hc' := (List.mem_filter.mp hc).2
    simp only [Bool.and_eq_true, decide_eq_true_eq] at hc'
    exact hc'.1.1.1
  have hle := (hdistinct.subperm hsub).length_le
  rw [List.length_map] at hle
  change copies.reverse.length < kMaxAlternates
  rw [List.length_reverse]
  omega

def Starting (cfg : ChainConfig) (s : ChainState) : CallPc → Prop
  | .returned _ => NoChain cfg s
  | .writeResolve _ len _ => kHeaderSize ≤ len ∧ NoChain cfg s
  | .writeProbe _ len _ snap => kHeaderSize ≤ len ∧ NoChain cfg s ∧ snap = cfg.snapshot s
  | .writeWalk _ len _ _ _ headCls _ nodes _ =>
    kHeaderSize ≤ len ∧ NoChain cfg s ∧ headCls = .kRetained ∧ cfg.stripe.retain = true ∧
      (nodes.map ChainNode.relOffset).Nodup
  | .writeFill _ len _ plan => NoChain cfg s ∧ OwnChain len plan
  | .writePublish _ len _ plan base => NoChain cfg s ∧ OwnChain len plan ∧
      SlotArea cfg s base (base + (carriedSize plan.carried + len))
  | _ => False

theorem Starting.setCall (h : Starting cfg s pc) (p : Nat) :
    Starting cfg (s.setCall p pc) ((s.setCall p pc).calls p) := by
  rw [setCall_calls]
  have hsame : NoChain cfg s → NoChain cfg (s.setCall p pc) := fun h =>
    h.of_same rfl le_rfl
  cases pc with
  | returned => exact hsame h
  | writeResolve => exact ⟨h.1, hsame h.2⟩
  | writeProbe | writeWalk => exact ⟨h.1, hsame h.2.1, h.2.2⟩
  | writeFill => exact ⟨hsame h.1, h.2⟩
  | writePublish => exact ⟨hsame h.1, h.2.1, h.2.2.low, h.2.2.fits, h.2.2.size⟩
  | writeSplice | removeResolve | removeProbe | removeWalk | removeStore => exact h

section

variable (hlen : kHeaderSize ≤ len)
include hlen

theorem starting_retry (h : NoChain cfg s) : Starting cfg s (retryWrite id len retries) := by
  unfold retryWrite
  split
  · exact h
  · exact ⟨hlen, h⟩

theorem OwnChain.of_fresh (seen : Option Nat) : OwnChain len ⟨none, false, seen, 0, [], []⟩ :=
  ⟨.of_no_carry hlen rfl, rfl, rfl, Nat.succ_pos _⟩

theorem starting_walkEnd {fullyWalked truncated : Bool} (h : NoChain cfg s)
    (hret : cfg.stripe.retain = true) (hnodup : (nodes.map ChainNode.relOffset).Nodup) :
    Starting cfg s (writeWalkEnd cfg id len retries head .kRetained nodes fullyWalked truncated) := by
  have hplan : planWrite cfg id len head .kRetained nodes fullyWalked truncated =
      .ok ⟨some head, true, some head, 0, carryRetainedChain cfg nodes id len, []⟩ := by
    simp only [planWrite, hret, beq_self_eq_true, Bool.and_true, Bool.not_true, Bool.and_false,
      Bool.false_eq_true, if_false, if_true, Bool.false_and]
  rw [writeWalkEnd, hplan]
  exact ⟨h, carryRetainedChain_ready hlen hnodup rfl, rfl, rfl, carryRetainedChain_length hnodup⟩

theorem starting_walk {current : Nat} {snap : StripeSnapshot} {cls : AdmitClass} (h : NoChain cfg s)
    (hret : cfg.stripe.retain = true) (hnodup : (nodes.map ChainNode.relOffset).Nodup) :
    Starting cfg s (writeWalkStep cfg s id len retries snap head .kRetained cls nodes current) := by
  refine writeWalkStep_cases (fun _ _ => starting_walkEnd hlen h hret hnodup)
    fun n _ _ hfresh => ?_
  have hnodup' := nodup_snoc hnodup hfresh
  exact ⟨starting_walkEnd hlen h hret hnodup', hlen, h, rfl, hret, hnodup'⟩

end

def WithinLimit (cfg : ChainConfig) (s : ChainState) : Prop :=
  ∃ l, VisibleChain cfg s l ∧ (idsOf l).card ≤ kMaxAlternates

theorem idsOf_card_le (l : List Shown) : (idsOf l).card ≤ l.length := by
  rw [idsOf]
  exact (List.toFinset_card_le _).trans_eq (List.length_map _)

theorem withinLimit_cons {head : Shown} {front : List Shown}
    (hchain : VisibleChain cfg s (head :: front)) (hsub : front ⊆ l)
    (hroom : (idsOf l).card < kMaxAlternates ∨ front = []) : WithinLimit cfg s := by
  refine ⟨head :: front, hchain, ?_⟩
  rcases hroom with hlt | rfl
  · have hcons : idsOf (head :: front) = Insert.insert head.id (idsOf front) := by
      simp only [idsOf, List.map_cons, List.toFinset_cons]
    rw [hcons]
    have hins := Finset.card_insert_le head.id (idsOf front)
    have hle := Finset.card_le_card (idsOf_mono hsub)
    omega
  · exact (idsOf_card_le [head]).trans (Nat.succ_le_of_lt (Nat.succ_pos _))

theorem OwnChain.published {base : Nat} {plan : WritePlan} {calls : Nat → CallPc}
    (h : OwnChain len plan) (hstart : 0 < cfg.stripe.dataStart)
    (harea : SlotArea cfg s base (base + (carriedSize plan.carried + len))) :
    WithinLimit cfg
      (published s (cfg.snapshot s).pass id len plan base (cfg.snapshot s).phase calls) := by
  have hpub := (Segment.nil (s := s)).publish id calls hstart h.toPlanReady harea nofun
    (fun _ => h.newNext) (fun _ => rfl)
  refine ⟨_, hpub, (idsOf_card_le _).trans ?_⟩
  have hcopies : (layCarried (cfg.snapshot s).pass base 0 plan.carried).length =
      plan.carried.length := by
    have := congrArg List.length (@layCarried_bodies (cfg.snapshot s).pass base 0 plan.carried)
    rwa [List.length_map, List.length_map] at this
  have := h.carried
  simp only [List.length_cons, List.append_nil, List.length_map, List.length_reverse, hcopies]
  omega

def Limited (cfg : ChainConfig) (p : Nat) (s : ChainState) : Prop :=
  Starting cfg s (s.calls p) ∨
    WithinLimit cfg s ∧ (s.calls p = .writeSplice [] ∨ ∃ r, s.calls p = .returned r) ∨
    ∃ w l, (idsOf l).card ≤ kMaxAlternates ∧ Superseding cfg w l false False s (s.calls p)

theorem WithinLimit.of_same (h : WithinLimit cfg s) (hdocs : s'.docs = s.docs)
    (hentry : s'.entry = s.entry) (hcursor : s.cursor ≤ s'.cursor) : WithinLimit cfg s' := by
  obtain ⟨l, hchain, hcard⟩ := h
  exact ⟨l, hchain.of_same hdocs hentry hcursor, hcard⟩

theorem Superseding.withinLimit {strict : Bool} {walked : Prop}
    (h : Superseding cfg w l strict walked s pc) (hcard : (idsOf l).card ≤ kMaxAlternates) :
    WithinLimit cfg s := by
  cases pc with
  | returned r =>
    match r, h with
    | .ok (), ⟨head, front, hchain, _, hreduced, hroom⟩ =>
      exact withinLimit_cons hchain hreduced.sub.subset hroom
    | .error e, h => exact ⟨l, h.1.toVisibleChain, hcard⟩
  | writeResolve => exact ⟨l, h.2.2.toVisibleChain, hcard⟩
  | writeProbe => exact ⟨l, h.2.2.2.toVisibleChain, hcard⟩
  | writeWalk =>
    obtain ⟨-, -, -, -, -, hold, -⟩ := h
    exact ⟨l, hold.toVisibleChain, hcard⟩
  | writeFill | writePublish => exact ⟨l, h.2.2.1.toVisibleChain, hcard⟩
  | writeSplice rs =>
    obtain ⟨head, gone, front, back, hs⟩ := h
    refine withinLimit_cons (l := l) hs.chain ?_ hs.room
    rw [hs.split]
    exact (hs.sub.append (List.Sublist.refl _)).subset
  | removeResolve | removeProbe | removeWalk | removeStore => exact h.elim

theorem Starting.noChain (h : Starting cfg s pc) : NoChain cfg s := by
  cases pc with
  | returned => exact h
  | writeResolve => exact h.2
  | writeProbe | writeWalk => exact h.2.1
  | writeFill | writePublish => exact h.1
  | writeSplice | removeResolve | removeProbe | removeWalk | removeStore => exact h.elim

theorem Limited.withinLimit (h : Limited cfg p s) : NoChain cfg s ∨ WithinLimit cfg s := by
  rcases h with h | ⟨h, -⟩ | ⟨w, l, hcard, h⟩
  · exact .inl h.noChain
  · exact .inr h
  · exact .inr (h.withinLimit hcard)

theorem Starting.step (hstart : 0 < cfg.stripe.dataStart) (h : Starting cfg s (s.calls p))
    (hstep : callStep cfg s p = some s') : Limited cfg p s' := by
  unfold callStep at hstep
  cases hpc : s.calls p with
  | returned r =>
    rw [hpc] at hstep
    cases hstep
  | removeResolve | removeProbe | removeWalk | removeStore | writeSplice =>
    rw [hpc] at h
    exact h.elim
  | writeResolve id len retries =>
    rw [hpc] at h hstep
    cases hstep
    refine .inl (Starting.setCall ?_ p)
    exact ⟨h.1, h.2, rfl⟩
  | writeProbe id len retries snap =>
    rw [hpc] at h hstep
    obtain ⟨hlen, hno, rfl⟩ := h
    cases hstep
    refine .inl (Starting.setCall ?_ p)
    rcases hno.entry with hnone | ⟨e, he, hcls⟩
    · have hprobe : cfg.probe s (cfg.snapshot s) = none := by
        simp only [ChainConfig.probe, hnone]
      rw [hprobe]
      exact ⟨hno, .of_fresh hlen none⟩
    · simp only [probe_eq he hcls (by simp)]
      split
      · exact ⟨hlen, hno, rfl, (Stripe.admitPosition_kRetained.mp hcls).2.2.1, List.nodup_nil⟩
      · exact ⟨hno, .of_fresh hlen (some e.offset)⟩
  | writeWalk id len retries snap head headCls cls nodes current =>
    rw [hpc] at h hstep
    obtain ⟨hlen, hno, rfl, hret, hnodup⟩ := h
    cases hstep
    exact .inl ((starting_walk hlen hno hret hnodup).setCall p)
  | writeFill id len retries plan =>
    rw [hpc] at h hstep
    obtain ⟨hno, hown⟩ := h
    simp only [writeFillStep] at hstep
    split at hstep
    · cases hstep
      exact .inl ((starting_retry hown.header hno).setCall p)
    · split at hstep <;> cases hstep
      next hroom =>
      refine .inl (Starting.setCall ?_ p)
      have hround := le_roundUp8 (carriedSize plan.carried + len)
      refine ⟨hno.of_same rfl (Nat.le_add_right _ _), hown, hno.low, ?_,
        hroom.trans (runwayEnd_le_size cfg)⟩
      exact Nat.add_le_add_left hround s.cursor
  | writePublish id len retries plan base =>
    rw [hpc] at h hstep
    obtain ⟨hno, hown, harea⟩ := h
    cases hstep
    unfold writePublishStep
    split
    · refine .inr (.inl ⟨hown.published hstart harea, .inl ?_⟩)
      simp only [update_self, hown.repoints]
    · exact .inl ((starting_retry hown.header hno).setCall p)

theorem Splicing.skip {r : PendingRepoint} {rs : List PendingRepoint} {head : Shown}
    {gone front : List Shown} {back : List ChainNode}
    (h : Splicing cfg s w l false (r :: rs) head gone front back) :
    ∃ gone front back, Splicing cfg s w l false rs head gone front back := by
  obtain ⟨hchain, hhead, hl, hsub, hkeeps, -, hkeeper, htodo, hroom⟩ := h
  cases back with
  | nil => cases htodo
  | cons keeper ns =>
    obtain ⟨skipped, k, cut, rest, heq, -, -, -, hrest, -, hrs⟩ :=
      @planRepoints_cons w keeper [] ns r rs (hkeeper keeper rfl) nofun htodo.symm
    rw [List.nil_append] at heq
    have hshown : (keeper :: ns).map ChainNode.shown =
        (skipped ++ k :: cut).map ChainNode.shown ++ rest.map ChainNode.shown := by
      rw [heq, ← List.map_append, List.append_assoc, List.cons_append]
    rw [hshown, ← List.append_assoc] at hchain hl hroom
    refine ⟨_, _, rest, hchain, hhead, hl, hsub.append (List.Sublist.refl _), ?_, nofun, hrest,
      hrs, hroom⟩
    intro hdepth
    rw [List.filter_append]
    exact (hkeeps hdepth).append List.filter_sublist

theorem Limited.step (hunlink : cfg.unlinkSupersededAlternates = true)
    (hstart : 0 < cfg.stripe.dataStart) (h : Limited cfg p s)
    (hstep : callStep cfg s p = some s') : Limited cfg p s' := by
  rcases h with h | ⟨h, hpc | ⟨r, hpc⟩⟩ | ⟨w, l, hcard, h⟩
  · exact h.step hstart hstep
  · rw [callStep, hpc] at hstep
    cases hstep
    exact .inr (.inl ⟨h.of_same rfl rfl le_rfl, .inr ⟨_, setCall_calls ..⟩⟩)
  · rw [callStep, hpc] at hstep
    cases hstep
  · exact .inr (.inr ⟨w, l, hcard, h.step hunlink hstart hstep⟩)

section

variable (h : Limited cfg p s)
include h

theorem Limited.of_returned (r : Except CallError Unit) :
    Limited cfg p (s.setCall p (.returned r)) := by
  rcases h.withinLimit with hno | hwithin
  · have hret : Starting cfg s (.returned r) := hno
    exact .inl (hret.setCall p)
  · exact .inr (.inl ⟨hwithin.of_same rfl rfl le_rfl, .inr ⟨r, setCall_calls ..⟩⟩)

theorem Limited.not_removing {attempt : Nat} {plan : RemovePlan}
    (hpc : s.calls p = .removeStore id attempt plan) : False := by
  rw [Limited, hpc] at h
  rcases h with h | ⟨-, hpc | ⟨r, hpc⟩⟩ | ⟨w, l, -, h⟩
  · exact h
  · cases hpc
  · cases hpc
  · exact h

theorem Limited.busy (hstep : busyStep s p = some s') : Limited cfg p s' := by
  unfold busyStep at hstep
  split at hstep
  · next hpc => exact (h.not_removing hpc).elim
  · next hpc => exact (h.not_removing hpc).elim
  · cases hstep
    exact h.of_returned _
  · next r rs hpc =>
    cases hstep
    rw [Limited, hpc] at h
    rcases h with h | ⟨-, hpc | ⟨r, hpc⟩⟩ | ⟨w, l, hcard, head, gone, front, back, hs⟩
    · exact h.elim
    · cases hpc
    · cases hpc
    · obtain ⟨gone', front', back', hs'⟩ := hs.skip
      refine .inr (.inr ⟨w, l, hcard, Superseding.setCall ?_ p⟩)
      exact ⟨head, gone', front', back', hs'⟩
  · cases hstep

theorem Limited.write (hstep : chainStep cfg s (.write p id len) = some s') : Limited cfg p s' := by
  have hwithin := h.withinLimit
  rcases hwithin with hno | ⟨l, hchain, hcard⟩
  · simp only [chainStep] at hstep
    split at hstep
    · split at hstep <;> cases hstep
      next hlen =>
      refine .inl (Starting.setCall ?_ p)
      exact ⟨hlen, hno⟩
    · cases hstep
  · have hold : OldChain cfg False s l := ⟨hchain, False.elim⟩
    exact .inr (.inr ⟨id, l, hcard, write_superseding hold hstep⟩)

end

def SoleWriter (p : Nat) : ChainAct → Prop
  | .write q _ _ => q = p
  | .step q => q = p
  | .busy q => q = p
  | .remove _ _ => False

instance (p : Nat) : DecidablePred (SoleWriter p)
  | .write q _ _ => inferInstanceAs (Decidable (q = p))
  | .step q => inferInstanceAs (Decidable (q = p))
  | .busy q => inferInstanceAs (Decidable (q = p))
  | .remove _ _ => inferInstanceAs (Decidable False)

theorem Limited.chainStep {a : ChainAct} (hunlink : cfg.unlinkSupersededAlternates = true)
    (hstart : 0 < cfg.stripe.dataStart) (hsole : SoleWriter p a) (h : Limited cfg p s)
    (hstep : chainStep cfg s a = some s') : Limited cfg p s' := by
  cases a with
  | remove q id => exact hsole.elim
  | write q id len =>
    obtain rfl : q = p := hsole
    exact h.write hstep
  | step q =>
    obtain rfl : q = p := hsole
    exact h.step hunlink hstart hstep
  | busy q =>
    obtain rfl : q = p := hsole
    exact h.busy hstep

/-- However often the alternates of a key are written, from a key without a
chain of this pass on: its chain shows at most `kMaxAlternates` ids. A write
that is refused for their number would have brought one too many, unless the
key holds as many as it may and the written id is one of them. -/
theorem alternate_limit {cfg : ChainConfig} {s s' : ChainState} {p : Nat}
    {r : Except CallError Unit} {ls : List ChainAct}
    (hunlink : cfg.unlinkSupersededAlternates = true) (hstart : 0 < cfg.stripe.dataStart)
    (hno : NoChain cfg s) (hidle : s.calls p = .returned r) (hsole : ∀ a ∈ ls, SoleWriter p a)
    (hrun : runs (chainStep cfg) s ls = some s') :
    (NoChain cfg s' ∨ WithinLimit cfg s') ∧
    ∀ l r id len, s'.calls p = .returned r → VisibleChain cfg s' l → WalkedToEnd cfg s' l →
      kHeaderSize ≤ len →
      ((Refused cfg p s' id len → kMaxAlternates < (Insert.insert id (idsOf l)).card) ↔
        ¬ (id ∈ idsOf l ∧ (idsOf l).card = kMaxAlternates)) := by
  constructor
  · let inv : ChainState → Prop := Limited cfg p
    have hinit : inv s := by
      refine .inl ?_
      rw [hidle]
      exact hno
    have hinv : inv s' := by
      refine runs_inv_mem ?_ hrun hinit
      intro a ha s₁ s₂ hi hstep
      exact Limited.chainStep hunlink hstart (hsole a ha) hi hstep
    exact hinv.withinLimit
  · intro l r id len hidle' hchain hend hlen
    rw [refused_iff hunlink hstart hidle' hlen hchain hend]
    by_cases hmem : id ∈ idsOf l
    · rw [Finset.insert_eq_of_mem hmem]
      constructor
      · rintro himp ⟨-, heq⟩
        have := himp heq.ge
        omega
      · intro hnot hle
        have hne : (idsOf l).card ≠ kMaxAlternates := fun heq => hnot ⟨hmem, heq⟩
        omega
    · rw [Finset.card_insert_of_notMem hmem]
      constructor
      · rintro - ⟨hin, -⟩
        exact hmem hin
      · intro _ hle
        omega

def wideStripe : Stripe where
  offset := 0
  dataStart := 8
  size := 16392
  chunks := 1
  chunkSize := 16384
  retain := false
  start_lt := by decide
  start_aligned := (smallStripe true).start_aligned
  chunks_pos := Nat.one_pos
  chunks_le := by decide
  covered := by decide
  flush_one := by
    intro _
    rfl

def wideChain : ChainConfig := ⟨wideStripe, 0, true, 0⟩

def freshKey : ChainState where
  docs := fun _ => none
  entry := none
  cursor := 8
  calls := fun _ => .returned (.ok ())
  removed := []
  bodies := 0

theorem freshKey_noChain : NoChain wideChain freshKey := ⟨.inl rfl, by decide⟩

theorem visibleChain_single {n : Shown} {d : AltDoc} (hstart : 0 < cfg.stripe.dataStart)
    (hn : Shows cfg s n) (hd : s.docs n.offset = some d) (hlink : d.nextAlternateOffset = 0)
    (hentry : s.entry = some ⟨n.offset, (cfg.snapshot s).phase⟩) : VisibleChain cfg s [n] :=
  ⟨Segment.nil.cons hstart hn hd hlink nofun, _, hentry, classify_of_shows hn, rfl⟩

theorem freshKey_written :
    ∃ s, runs (chainStep wideChain) freshKey (.write 0 0 132 :: List.replicate 5 (.step 0)) =
        some s ∧ s.calls 0 = .returned (.ok ()) ∧ VisibleChain wideChain s [⟨8, 0, 0⟩] ∧
      s.cursor = 144 := by
  obtain ⟨s, hrun, hidle, hdoc, hentry, hcursor⟩ : ∃ s, runs (chainStep wideChain) freshKey (.write
      0 0 132 :: List.replicate 5 (.step 0)) = some s ∧ s.calls 0 = .returned (.ok ()) ∧ s.docs 8 =
      some ⟨0, 0, 132, 0, 0⟩ ∧ s.entry = some ⟨8, false⟩ ∧ s.cursor = 144 := by decide +kernel
  refine ⟨s, hrun, hidle, ?_, hcursor⟩
  refine visibleChain_single (by decide) ⟨⟨_, hdoc, rfl, rfl, by decide⟩, by decide, ?_⟩ hdoc rfl
    hentry
  simp only [ChainConfig.snapshot, Stripe.snapshot, hcursor]
  decide

theorem freshKey_filled {k : Nat} (hk : k < kMaxAlternates) :
    ∃ ls s l, (∀ a ∈ ls, SoleWriter 0 a) ∧ runs (chainStep wideChain) freshKey ls = some s ∧
      s.calls 0 = .returned (.ok ()) ∧ VisibleChain wideChain s l ∧
      idsOf l = Finset.range (k + 1) ∧ l.length = k + 1 ∧ s.cursor = 144 + 136 * k := by
  induction k with
  | zero =>
    obtain ⟨s, hrun, hidle, hchain, hcursor⟩ := freshKey_written
    exact ⟨_, s, _, by decide, hrun, hidle, hchain, rfl, rfl, hcursor⟩
  | succ k ih =>
    obtain ⟨ls, s, l, hsole, hrun, hidle, hchain, hids, hlen, hcursor⟩ := ih (by omega)
    have hend : WalkedToEnd wideChain s l := by
      refine .inl ?_
      simp only [kMaxChainTraversalDepth]
      omega
    simp only [kMaxAlternates] at hk
    have hroom : s.cursor + 132 ≤ wideChain.runwayEnd := by
      rw [show wideChain.runwayEnd = 16392 from rfl]
      omega
    obtain ⟨n, s', hwrite, hidle', hcursor'⟩ := @write_completes _ _ 0 l (k + 1) 132 _ rfl hidle
      (by decide) hchain hend (by rw [hids, Finset.card_range, kMaxAlternates]; omega) hroom
    -- no copy of the new id is on the chain, so all of it stays
    obtain ⟨s₁, hfirst, hsteps⟩ := runs_cons_some hwrite
    have hold : OldChain wideChain False s l := ⟨hchain, False.elim⟩
    have hinit : Superseding wideChain (k + 1) l false False s₁ (s₁.calls 0) :=
      write_superseding hold hfirst
    have hnow := hinit.run rfl (by decide) hsteps
    rw [hidle'] at hnow
    obtain ⟨head, front, hchain', hhead, hreduced, -⟩ := hnow
    have hfilter : l.filter (·.id != k + 1) = l := by
      refine List.filter_eq_self.mpr fun m hm => bne_iff_ne.mpr fun hid => ?_
      have hmem : m.id ∈ idsOf l := List.mem_toFinset.mpr (List.mem_map_of_mem hm)
      rw [hids, Finset.mem_range] at hmem
      omega
    have hkeeps := hreduced.keeps (by simp only [kMaxChainTraversalDepth, kMaxAlternates]; omega)
    rw [hfilter] at hkeeps
    obtain rfl : front = l := hreduced.sub.antisymm hkeeps
    refine ⟨ls ++ .write 0 (k + 1) 132 :: List.replicate n (.step 0), s', head :: front, ?_, ?_,
      hidle', hchain', ?_, ?_, ?_⟩
    · intro a ha
      rcases List.mem_append.mp ha with ha | ha
      · exact hsole a ha
      · rcases List.mem_cons.mp ha with rfl | ha
        · exact rfl
        · rw [List.eq_of_mem_replicate ha]
          exact rfl
    · rw [runs_append, hrun]
      exact hwrite
    · have hcons : idsOf (head :: front) = Insert.insert head.id (idsOf front) := by
        simp only [idsOf, List.map_cons, List.toFinset_cons]
      rw [hcons, hhead.id, hids]
      exact Finset.range_add_one.symm
    · rw [List.length_cons, hlen]
    · rw [hcursor', hcursor, show roundUp8 132 = 136 from rfl]
      omega

/-- One write to a fresh key. -/
theorem alternate_limit_freshKey :
    ∃ s', runs (chainStep wideChain) freshKey (.write 0 0 132 :: List.replicate 5 (.step 0)) =
        some s' ∧
      (NoChain wideChain s' ∨ WithinLimit wideChain s') ∧
      ((Refused wideChain 0 s' 0 132 → kMaxAlternates < (Insert.insert 0 (idsOf [⟨8, 0, 0⟩])).card) ↔
        ¬ (0 ∈ idsOf [⟨8, 0, 0⟩] ∧ (idsOf [⟨8, 0, 0⟩]).card = kMaxAlternates)) := by
  obtain ⟨s', hrun, hidle, hchain, -⟩ := freshKey_written
  have hlimit := alternate_limit rfl (by decide) freshKey_noChain rfl
    (by decide : ∀ a ∈ ChainAct.write 0 0 132 :: List.replicate 5 (.step 0), SoleWriter 0 a) hrun
  exact ⟨s', hrun, hlimit.1, hlimit.2 _ _ 0 132 hidle hchain (.inl (by decide)) (by decide)⟩

/-- A key with `kMaxAlternates` alternates refuses one that it holds. -/
theorem full_key_refuses :
    ∃ ls s l, (∀ a ∈ ls, SoleWriter 0 a) ∧ runs (chainStep wideChain) freshKey ls = some s ∧
      s.calls 0 = .returned (.ok ()) ∧ VisibleChain wideChain s l ∧ WalkedToEnd wideChain s l ∧
      5 ∈ idsOf l ∧ Refused wideChain 0 s 5 132 ∧
      ¬ kMaxAlternates < (Insert.insert 5 (idsOf l)).card := by
  obtain ⟨ls, s, l, hsole, hrun, hidle, hchain, hids, hlen, -⟩ := @freshKey_filled 63 (by decide)
  have hend : WalkedToEnd wideChain s l := by
    refine .inl ?_
    rw [hlen]
    decide
  have hmem : 5 ∈ idsOf l := by
    rw [hids]
    decide
  refine ⟨ls, s, l, hsole, hrun, hidle, hchain, hend, hmem, ?_, ?_⟩
  · refine (refused_iff rfl (by decide) hidle (by decide) hchain hend).mpr ?_
    rw [hids, Finset.card_range]
    decide
  · rw [Finset.insert_eq_of_mem hmem, hids, Finset.card_range]
    decide

end CycloneCache.Ref

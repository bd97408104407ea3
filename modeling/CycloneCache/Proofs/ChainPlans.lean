import CycloneCache.Proofs.VolumeCalls

namespace CycloneCache.Ref.Volume

open Lib

theorem makeLink_lt (rel serial : Nat) : Document.makeLink rel serial < 2 ^ 64 := by
  simp only [Document.makeLink, Document.kLinkSerialShift]
  split <;> omega

theorem linkOffset_makeLink {rel : Nat} (h : rel < 2 ^ 48) (serial : Nat) :
    Document.linkOffset (Document.makeLink rel serial) = rel := by
  simp only [Document.linkOffset, Document.makeLink, Document.kLinkSerialShift]
  split <;> omega

structure LinkOk (s : State) (pass link : Nat) : Prop where
  names : LinkNames s pass link
  lt : link < 2 ^ 64

theorem linkOk_zero (s : State) (pass : Nat) : LinkOk s pass 0 := ⟨.inl rfl, Nat.two_pow_pos 64⟩

theorem LinkOk.mono {s s' : State} {pass link : Nat} (h : LinkOk s pass link)
    (hsub : ∀ r ∈ s.laid, r ∈ s'.laid) : LinkOk s' pass link := ⟨h.names.mono hsub, h.lt⟩

variable {key : CacheKey}

section

variable {env : Env} {s : State} {cls : AdmitClass}

theorem OnLog.linkOk (h : VolumeOk env s) (hsize : env.stripe.size ≤ 2 ^ 48) {rel : Nat}
    (hon : OnLog env s cls rel) (serial : Nat) :
    LinkOk s (Stripe.expectedPass cls (env.snapshot s)) (Document.makeLink rel serial) := by
  obtain ⟨r, hr, rfl, hpass, -⟩ := hon
  have hp := h.log.placed r hr
  have hlen := hp.ok.header_le
  have hstop := hp.stop_le
  simp only [Record.stop, kHeaderSize] at hlen hstop
  refine ⟨.inr ⟨r, hr, hpass, ?_⟩, makeLink_lt _ _⟩
  rw [linkOffset_makeLink (by omega)]

structure NodeOk (env : Env) (s : State) (cls : AdmitClass) (n : AltNode) : Prop where
  onLog : OnLog env s cls n.node.relOffset
  cls_eq : n.node.cls = cls
  link : LinkOk s (Stripe.expectedPass cls (env.snapshot s)) n.link

theorem walkChain_nodes (h : VolumeOk env s) (hsize : env.stripe.size ≤ 2 ^ 48) {fuel current : Nat}
    {nodes : List AltNode} {followed : Option Nat} (hnodes : ∀ n ∈ nodes, NodeOk env s cls n)
    (hon : OnLog env s cls current) :
    ∀ n ∈ (env.walkChain s.bytes (env.snapshot s) fuel nodes current cls followed).nodes,
      NodeOk env s cls n := by
  induction fuel generalizing nodes current followed with
  | zero => exact hnodes
  | succ fuel ih =>
    unfold Env.walkChain
    simp only []
    split
    · exact hnodes
    · split
      · exact hnodes
      · split
        · exact hnodes
        · have hnodes' : ∀ n ∈ nodes ++ [(⟨⟨current, Document.linkOffset
              (Document.deserialize s.bytes current).nextAlternateOffset,
              (Document.deserialize s.bytes current).len,
              (Document.deserialize s.bytes current).alternateId, cls, 0⟩,
              Document.makeLink current
                (Document.deserialize s.bytes current).fillSerial⟩ : AltNode)],
              NodeOk env s cls n := by
            refine List.forall_mem_append.mpr ⟨hnodes, List.forall_mem_singleton.mpr ?_⟩
            exact ⟨hon, rfl, hon.linkOk h hsize _⟩
          split
          · exact hnodes'
          · next hgo =>
            rw [not_or] at hgo
            obtain ⟨hcls, hnext, -⟩ := onLog_hop h hon rfl hgo.2
            rw [hcls]
            exact ih hnodes' hnext

theorem linkTo_ok {pass : Nat} {nodes : List AltNode} {headLink : Nat}
    (hnodes : ∀ n ∈ nodes, LinkOk s pass n.link) (hhead : LinkOk s pass headLink)
    (rel : Nat) : LinkOk s pass (linkTo nodes headLink rel) := by
  unfold linkTo
  split
  · exact linkOk_zero s pass
  · cases hfind : nodes.find? (·.node.relOffset == rel) with
    | none => exact hhead
    | some n => exact hnodes n (List.mem_of_find?_eq_some hfind)

theorem heads_sound :
    ∀ hd ∈ env.heads s key, ∃ e, (e, hd.cls) ∈ env.probe s key ∧ e.offset = hd.rel ∧
      (hd.live = true → Leads env s.bytes (env.snapshot s) key e hd.cls) := by
  -- the fold has seen the entries of `shown`
  suffices hfold : ∀ (cs shown : List (DirEntry × AdmitClass)) (heads : List HeadCandidate),
      (∀ hd ∈ heads, ∃ e, (e, hd.cls) ∈ shown ∧ e.offset = hd.rel ∧
        (hd.live = true → Leads env s.bytes (env.snapshot s) key e hd.cls)) →
      ∀ hd ∈ cs.foldl (env.headStep s.bytes (env.snapshot s) key) heads,
        ∃ e, (e, hd.cls) ∈ shown ++ cs ∧ e.offset = hd.rel ∧
          (hd.live = true → Leads env s.bytes (env.snapshot s) key e hd.cls) from
    hfold (env.probe s key) [] [] fun _ hd => absurd hd List.not_mem_nil
  intro cs
  induction cs with
  | nil =>
    intro shown heads hheads
    rw [List.append_nil]
    exact hheads
  | cons c cs ih =>
    intro shown heads hheads
    rw [List.foldl_cons, List.append_cons]
    refine ih _ _ ?_
    have hold : ∀ hd ∈ heads, ∃ e, (e, hd.cls) ∈ shown ++ [c] ∧ e.offset = hd.rel ∧
        (hd.live = true → Leads env s.bytes (env.snapshot s) key e hd.cls) := by
      intro hd hhd
      obtain ⟨e, he, hrest⟩ := hheads hd hhd
      exact ⟨e, List.mem_append_left _ he, hrest⟩
    unfold Env.headStep
    simp only []
    split
    · exact hold
    · split
      · exact hold
      · next hvalid =>
        split
        · exact hold
        · next hkey =>
          refine List.forall_mem_append.mpr ⟨hold, List.forall_mem_singleton.mpr ?_⟩
          refine ⟨c.1, List.mem_append_right _ (List.mem_singleton.mpr rfl), rfl, ?_⟩
          intro hlive
          simp only [Bool.or_eq_true, Bool.not_eq_true', not_or, Bool.not_eq_false]
            at hvalid
          simp only [Bool.and_eq_true] at hlive
          exact ⟨hvalid.2, hlive.1, hlive.2, not_not.mp hkey⟩

theorem heads_complete {e : DirEntry} (hc : (e, cls) ∈ env.probe s key)
    (hleads : Leads env s.bytes (env.snapshot s) key e cls) :
    ∃ hd ∈ env.heads s key, hd.rel = e.offset := by
  have hmap := mapRegion_of_probe hc
  -- a candidate stays one, and the entry's own step finds or adds it
  have hkeep : ∀ (heads : List HeadCandidate) c, (∃ hd ∈ heads, hd.rel = e.offset) →
      ∃ hd ∈ env.headStep s.bytes (env.snapshot s) key heads c, hd.rel = e.offset := by
    rintro heads c ⟨hd, hhd, hrel⟩
    unfold Env.headStep
    simp only []
    split
    · exact ⟨hd, hhd, hrel⟩
    · split
      · exact ⟨hd, hhd, hrel⟩
      · split
        · exact ⟨hd, hhd, hrel⟩
        · exact ⟨hd, List.mem_append_left _ hhd, hrel⟩
  have hadd : ∀ heads : List HeadCandidate,
      ∃ hd ∈ env.headStep s.bytes (env.snapshot s) key heads (e, cls), hd.rel = e.offset := by
    intro heads
    unfold Env.headStep
    simp only [hmap, hleads.valid, Bool.not_true, Bool.or_self, Bool.false_eq_true, if_false,
      hleads.key, ne_eq, not_true_eq_false]
    split
    · next hany =>
      obtain ⟨hd, hhd, hrel⟩ := List.any_eq_true.mp hany
      exact ⟨hd, hhd, beq_iff_eq.mp hrel⟩
    · exact ⟨_, List.mem_append_right _ (List.mem_singleton.mpr rfl), rfl⟩
  suffices hfold : ∀ (cs : List (DirEntry × AdmitClass)) (heads : List HeadCandidate),
      ((e, cls) ∈ cs ∨ ∃ hd ∈ heads, hd.rel = e.offset) →
      ∃ hd ∈ cs.foldl (env.headStep s.bytes (env.snapshot s) key) heads, hd.rel = e.offset from
    hfold (env.probe s key) [] (.inl hc)
  intro cs
  induction cs with
  | nil =>
    rintro heads (hmem | hdone)
    · cases hmem
    · exact hdone
  | cons c cs ih =>
    rintro heads (hmem | hdone)
    · rcases List.mem_cons.mp hmem with rfl | hmem
      · exact ih _ (.inr (hadd heads))
      · exact ih _ (.inl hmem)
    · exact ih _ (.inr (hkeep heads c hdone))

end

theorem electHead_mem {heads : List HeadCandidate} {h : HeadCandidate}
    (helect : electHead heads = some h) : h ∈ heads ∧ h.live = true := by
  suffices hfold : ∀ (hs : List HeadCandidate) (elected : Option HeadCandidate),
      (∀ e, elected = some e → e ∈ heads ∧ e.live = true) → (∀ e ∈ hs, e ∈ heads) →
      ∀ e, hs.foldl (fun elected h =>
        if h.live && elected.all (fun e => h.cls == .kCurrent && e.cls != .kCurrent) then some h
        else elected) elected = some e → e ∈ heads ∧ e.live = true from
    hfold heads none (by intro _ he; cases he) (fun _ he => he) h helect
  intro hs
  induction hs with
  | nil => exact fun elected hel _ e he => hel e he
  | cons hd hs ih =>
    intro elected hel hsub
    rw [List.foldl_cons]
    refine ih _ ?_ fun e he => hsub e (List.mem_cons_of_mem _ he)
    intro e he
    rcases ite_eq_iff.mp he with ⟨hlive, he⟩ | ⟨-, he⟩
    · cases he
      rw [Bool.and_eq_true] at hlive
      exact ⟨hsub hd List.mem_cons_self, hlive.1⟩
    · exact hel e he

structure RepointOk (env : Env) (s : State) (p : PendingRepoint × Nat) : Prop where
  pred : ∃ q ∈ s.laid, q.start = p.1.predRel ∧ q.pass = env.stripe.passOf s.gen
  link : LinkOk s (env.stripe.passOf s.gen) p.2

structure PlanOk (env : Env) (s : State) (key : CacheKey) (plan : AltPlan) : Prop where
  next : LinkOk s (env.stripe.passOf s.gen) plan.nextLink
  repoints : ∀ p ∈ plan.repoints, RepointOk env s p
  carried : ∀ n ∈ plan.carried, env.carryOk s key n = true
  carry : plan.carryForward = true → plan.nextLink = 0 ∧ plan.repoints = []

variable {fullyWalked : Bool} {nodes : List ChainNode} {writeId : Nat}

theorem planRepoints_pred {keeper : ChainNode} {run : Nat} :
    ∀ p ∈ planRepoints writeId fullyWalked keeper run nodes,
      ∃ n ∈ keeper :: nodes, n.relOffset = p.predRel := by
  induction nodes generalizing keeper run with
  | nil =>
    intro p hp
    unfold planRepoints at hp
    split at hp
    · rw [List.mem_singleton.mp hp]
      exact ⟨keeper, List.mem_cons_self, rfl⟩
    · cases hp
  | cons n ns ih =>
    have hlater : ∀ p ∈ planRepoints writeId fullyWalked n 0 ns,
        ∃ m ∈ keeper :: n :: ns, m.relOffset = p.predRel := by
      intro p hp
      obtain ⟨m, hm, hrel⟩ := ih p hp
      exact ⟨m, List.mem_cons_of_mem _ hm, hrel⟩
    intro p hp
    unfold planRepoints at hp
    split at hp
    · obtain ⟨m, hm, hrel⟩ := ih p hp
      rcases List.mem_cons.mp hm with rfl | hm
      · exact ⟨m, List.mem_cons_self, hrel⟩
      · exact ⟨m, List.mem_cons_of_mem _ (List.mem_cons_of_mem _ hm), hrel⟩
    · split at hp
      · rcases List.mem_cons.mp hp with rfl | hp
        · exact ⟨keeper, List.mem_cons_self, rfl⟩
        · exact hlater p hp
      · exact hlater p hp

theorem planUnlink_pred {head : Nat} : ∀ p ∈ (planUnlink writeId fullyWalked head nodes).2,
      ∃ n ∈ nodes, n.relOffset = p.predRel := by
  unfold planUnlink
  split
  · intro p hp
    cases hp
  · next keeper rest hdrop =>
    intro p hp
    obtain ⟨n, hn, hrel⟩ := planRepoints_pred p hp
    rw [← hdrop] at hn
    exact ⟨n, (List.dropWhile_sublist _).subset hn, hrel⟩

theorem planWrite_cases {cfg : ChainConfig} {newDocSize head : Nat} {headCls : AdmitClass}
    {truncated : Bool} {p : WritePlan}
    (h : planWrite cfg writeId newDocSize head headCls nodes fullyWalked truncated = .ok p) :
    ((cfg.stripe.retain && headCls == .kRetained) = true → p.newNext = 0 ∧ p.repoints = []) ∧
      ∀ r ∈ p.repoints, ∃ n ∈ nodes, n.relOffset = r.predRel := by
  unfold planWrite at h
  simp only [] at h
  split at h
  · cases h
  · split at h
    · cases h
    · split at h
      · cases h
        exact ⟨fun _ => ⟨rfl, rfl⟩, fun _ hr => absurd hr List.not_mem_nil⟩
      · next hcarry =>
        refine ⟨fun hc => absurd hc hcarry, ?_⟩
        split at h
        · cases h
          exact fun _ hr => absurd hr List.not_mem_nil
        · split at h <;> cases h
          · exact planUnlink_pred
          · exact fun _ hr => absurd hr List.not_mem_nil

section

variable {env : Env} {s : State}

theorem current_of_probe {e : DirEntry} {cls : AdmitClass} (hc : (e, cls) ∈ env.probe s key)
    (hcarry : (env.stripe.retain && cls == .kRetained) = false) : cls = .kCurrent := by
  obtain ⟨-, -, -, hadm, hne⟩ := mem_probeEach.mp hc
  cases cls with
  | kReject => exact absurd rfl hne
  | kCurrent => rfl
  | kRetained =>
    simp [(Stripe.admitPosition_kRetained.mp hadm).2.2.1] at hcarry

variable {docSize : Nat} {plan : AltPlan} {w : AlternateWrite}

theorem planHead_ok (h : VolumeOk env s) (hsize : env.stripe.size ≤ 2 ^ 48)
    (hno : NoImpostor env s w.key) {hd : HeadCandidate}
    (hhead : electHead (env.heads s w.key) = some hd) {plan' : AltPlan}
    (hplan : env.planHead s w docSize hd plan = .ok plan') : PlanOk env s w.key plan' := by
  obtain ⟨hmem, hlive⟩ := electHead_mem hhead
  obtain ⟨e, hprobe, hoff, hleads⟩ := heads_sound hd hmem
  have hon : OnLog env s hd.cls hd.rel := hoff ▸ onLog_head h hno hprobe (hleads hlive)
  unfold Env.planHead at hplan
  simp only [] at hplan
  generalize hwalk : env.walkChain s.bytes (env.snapshot s) kMaxChainTraversalDepth []
    hd.rel hd.cls none = walk at hplan
  have hnodes : ∀ n ∈ walk.nodes, NodeOk env s hd.cls n := by
    rw [← hwalk]
    exact walkChain_nodes h hsize (fun _ hn => absurd hn List.not_mem_nil) hon
  have hlink : ∀ rel, LinkOk s (Stripe.expectedPass hd.cls (env.snapshot s))
      (linkTo walk.nodes (Document.makeLink hd.rel hd.serial) rel) :=
    linkTo_ok (fun n hn => (hnodes n hn).link) (hon.linkOk h hsize _)
  split at hplan <;> cases hplan
  next p hp =>
  obtain ⟨hcarry, hpred⟩ := planWrite_cases hp
  have hcarried : ∀ n ∈ env.carriedNodes s w.key walk.nodes p.carried,
      env.carryOk s w.key n = true := by
    intro n hn
    unfold Env.carriedNodes at hn
    split at hn
    · cases hn
    · exact (List.mem_filter.mp hn).2
  cases hclass : env.stripe.retain && hd.cls == .kRetained with
  | true =>
    obtain ⟨hnext, hrep⟩ := hcarry hclass
    refine ⟨?_, ?_, hcarried, fun _ => ⟨?_, ?_⟩⟩
    · rw [hnext]
      exact linkOk_zero s _
    · rw [hrep]
      exact fun _ hq => absurd hq List.not_mem_nil
    · rw [hnext]
      rfl
    · rw [hrep]
      rfl
  | false =>
    have hcur : hd.cls = .kCurrent := current_of_probe hprobe hclass
    rw [hcur] at hlink hnodes
    refine ⟨hlink _, ?_, hcarried, fun hc => absurd hc Bool.false_ne_true⟩
    intro q hq
    obtain ⟨r, hr, rfl⟩ := List.mem_map.mp hq
    obtain ⟨n, hn, hrel⟩ := hpred r hr
    obtain ⟨m, hm, rfl⟩ := List.mem_map.mp hn
    obtain ⟨rec, hrec, hstart, hpass, -⟩ := (hnodes m hm).onLog
    exact ⟨⟨rec, hrec, hstart.trans hrel, hpass⟩, hlink _⟩

theorem planAlternate_ok (h : VolumeOk env s) (hsize : env.stripe.size ≤ 2 ^ 48)
    (hno : NoImpostor env s w.key) (hplan : env.planAlternate s w docSize = .ok plan) :
    PlanOk env s w.key plan := by
  unfold Env.planAlternate at hplan
  simp only [] at hplan
  cases hhead : electHead (env.heads s w.key) with rw [hhead] at hplan
  | none =>
    cases hplan
    exact ⟨linkOk_zero s _, fun _ hq => absurd hq List.not_mem_nil,
      fun _ hn => absurd hn List.not_mem_nil, fun hc => absurd hc Bool.false_ne_true⟩
  | some hd =>
    exact planHead_ok h hsize hno hhead hplan

theorem planAlternate_fields (hplan : env.planAlternate s w docSize = .ok plan) :
    plan.head = electHead (env.heads s w.key) ∧ plan.clears = ((env.heads s w.key).filter fun h =>
        (electHead (env.heads s w.key)).all (·.rel != h.rel)).map HeadCandidate.rel := by
  unfold Env.planAlternate at hplan
  simp only [] at hplan
  split at hplan
  · cases hplan
    exact ⟨rfl, rfl⟩
  · next hd hhead =>
    unfold Env.planHead at hplan
    simp only [] at hplan
    split at hplan <;> cases hplan
    exact ⟨rfl, rfl⟩

theorem planAlternate_decides (hplan : env.planAlternate s w docSize = .ok plan) {e : DirEntry}
    {cls : AdmitClass} (hc : (e, cls) ∈ env.probe s w.key)
    (hleads : Leads env s.bytes (env.snapshot s) w.key e cls) :
    plan.head.map HeadCandidate.rel = some e.offset ∨ e.offset ∈ plan.clears := by
  obtain ⟨hhead, hclears⟩ := planAlternate_fields hplan
  obtain ⟨hd, hhd, hrel⟩ := heads_complete hc hleads
  rw [hhead, hclears]
  cases helect : electHead (env.heads s w.key) with
  | none => exact .inr (List.mem_map.mpr ⟨hd, List.mem_filter.mpr ⟨hhd, rfl⟩, hrel⟩)
  | some h =>
    by_cases hsame : h.rel = hd.rel
    · exact .inl (by rw [Option.map_some, hsame, hrel])
    · refine .inr (List.mem_map.mpr ⟨hd, List.mem_filter.mpr ⟨hhd, ?_⟩, hrel⟩)
      rw [Option.all_some]
      exact bne_iff_ne.mpr hsame

end

end CycloneCache.Ref.Volume

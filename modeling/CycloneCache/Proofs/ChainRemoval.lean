import CycloneCache.Proofs.ChainMemory

namespace CycloneCache.Ref

open Lib Function

def RemoveCurrent (s : ChainState) : RemovePlan → Prop
  | .dropEntry head _ => ∀ e, s.entry = some e → e.offset = head
  | .republish head successor =>
    (∃ e, s.entry = some e ∧ e.offset = head) → hops s.docs 1 head = successor ∧ successor ≠ 0
  | .repoint pred _ target targetNext =>
    s.OnChain pred ∧ hops s.docs 1 pred = target ∧ target ≠ 0 ∧ hops s.docs 2 pred = targetNext

def PlanCurrent (cfg : ChainConfig) (s : ChainState) : ChainAct → Prop
  | .step p =>
    match s.calls p with
    | .removeStore _ _ plan => RemoveCurrent s plan
    | .writePublish _ _ _ plan _ => publishViewIsCurrent cfg s plan = true → PublishCurrent s plan
    | .writeSplice (r :: _) => hops s.docs (r.shadowCount + 1) r.predRel = r.newNext
    | _ => True
  | _ => True

variable {cfg : ChainConfig} {s : ChainState}

theorem carryCandidates_sublist (seen : List Nat) (nodes : List ChainNode) :
    (carryCandidates seen nodes).Sublist nodes := by
  induction nodes generalizing seen with
  | nil => exact List.Sublist.slnil
  | cons n ns ih =>
    rw [carryCandidates]
    split
    · exact (ih seen).cons n
    · exact (ih (n.id :: seen)).cons_cons n

variable {id len head p retries : Nat} {nodes : List ChainNode} {plan : WritePlan}
  {fullyWalked : Bool} {headCls cls : AdmitClass} {pc : CallPc} {s' : ChainState}
  {snap : StripeSnapshot}

theorem carryRetainedChain_ready (hlen : kHeaderSize ≤ len)
    (hnodup : (nodes.map ChainNode.relOffset).Nodup)
    (hc : plan.carried = carryRetainedChain cfg nodes id len) : PlanReady len plan := by
  refine ⟨?_, hlen, ?_⟩
  · intro c hmem
    rw [hc, carryRetainedChain, List.mem_reverse, List.mem_filter] at hmem
    simp only [Bool.and_eq_true, decide_eq_true_eq] at hmem
    exact hmem.2.1.1.2
  · rw [hc, carryRetainedChain, List.map_reverse, List.nodup_reverse]
    exact List.Nodup.sublist
      ((List.filter_sublist.trans (carryCandidates_sublist _ _)).map _) hnodup

theorem PlanReady.of_no_carry (hlen : kHeaderSize ≤ len) (hc : plan.carried = []) :
    PlanReady len plan := by
  refine ⟨?_, hlen, ?_⟩
  · intro c hmem
    rw [hc] at hmem
    cases hmem
  · rw [hc]
    exact List.nodup_nil

theorem planUnlink_below {c : Nat} (hhead : head < c)
    (hnodes : ∀ n ∈ nodes, n.cls = .kCurrent → n.relOffset < c) :
    (planUnlink id fullyWalked head nodes).1 = 0 ∨
      (planUnlink id fullyWalked head nodes).1 < c := by
  unfold planUnlink
  split
  · simp only
    split
    · exact .inl rfl
    · exact .inr hhead
  · next keeper rest hdrop =>
    simp only
    split
    · next hcls =>
      refine .inr (hnodes keeper ?_ hcls)
      apply (List.dropWhile_sublist (·.id == id)).mem
      rw [hdrop]
      exact List.mem_cons_self
    · exact .inr hhead

theorem planWrite_ready {c : Nat} {truncated : Bool}
    (h : planWrite cfg id len head headCls nodes fullyWalked truncated = .ok plan)
    (hlen : kHeaderSize ≤ len) (hnodup : (nodes.map ChainNode.relOffset).Nodup)
    (hhead : (headCls = .kRetained ∧ cfg.stripe.retain = true) ∨ head < c)
    (hnodes : ∀ n ∈ nodes, n.cls = .kCurrent → n.relOffset < c) :
    PlanReady len plan ∧ (plan.newNext = 0 ∨ plan.newNext < c) := by
  simp only [planWrite] at h
  split at h
  · cases h
  · split at h
    · cases h
    · split at h
      · cases h
        exact ⟨carryRetainedChain_ready hlen hnodup rfl, .inl rfl⟩
      · next hcarry =>
        -- not retained, so the head is behind the cursor
        have hlow : head < c := by
          rcases hhead with ⟨hcls, hret⟩ | hlow
          · rw [hcls, hret] at hcarry
            exact absurd rfl hcarry
          · exact hlow
        split at h
        · cases h
          exact ⟨.of_no_carry hlen rfl, .inl rfl⟩
        · split at h <;> cases h
          · exact ⟨.of_no_carry hlen rfl, planUnlink_below hlow hnodes⟩
          · exact ⟨.of_no_carry hlen rfl, .inr hlow⟩

def CallOk (cfg : ChainConfig) (s : ChainState) : CallPc → Prop
  | .writeResolve _ len _ => kHeaderSize ≤ len
  | .writeProbe _ len _ snap => kHeaderSize ≤ len ∧ snap.cursorRel ≤ s.cursor
  | .writeWalk _ len _ snap head headCls cls nodes current =>
    kHeaderSize ≤ len ∧ snap.cursorRel ≤ s.cursor ∧ (nodes.map ChainNode.relOffset).Nodup ∧
      ((headCls = .kRetained ∧ cfg.stripe.retain = true) ∨ head < s.cursor) ∧
      (cls = .kCurrent → current < s.cursor) ∧
      ∀ n ∈ nodes, n.cls = .kCurrent → n.relOffset < s.cursor
  | .writeFill _ len _ plan => PlanReady len plan ∧ (plan.newNext = 0 ∨ plan.newNext < s.cursor)
  | .writePublish _ len _ plan base => SlotReady s len plan base
  | _ => True

def slotOf : CallPc → Option (Nat × Nat)
  | .writePublish _ len _ plan base => some (base, base + (carriedSize plan.carried + len))
  | _ => none

structure ChainInv (cfg : ChainConfig) (s : ChainState) : Prop where
  mem : MemInv cfg s
  calls : ∀ p, CallOk cfg s (s.calls p)
  apart : ∀ p q a b, p ≠ q → slotOf (s.calls p) = some a → slotOf (s.calls q) = some b →
    a.2 ≤ b.1 ∨ b.2 ≤ a.1

theorem CallOk.mono (h : CallOk cfg s pc) (hcursor : s.cursor ≤ s'.cursor)
    (hfree : ∀ a, slotOf pc = some a → ∀ o, a.1 ≤ o → o < a.2 → s.docs o = none →
      s'.docs o = none) : CallOk cfg s' pc := by
  cases pc with
  | returned | removeResolve | removeProbe | removeWalk | removeStore | writeSplice => trivial
  | writeResolve => exact h
  | writeProbe => exact ⟨h.1, le_trans h.2 hcursor⟩
  | writeWalk id len retries snap head headCls cls nodes current =>
    obtain ⟨hlen, hsnap, hnd, hhead, hcur, hnodes⟩ := h
    refine ⟨hlen, le_trans hsnap hcursor, hnd, ?_, ?_, ?_⟩
    · exact hhead.imp_right fun h => lt_of_lt_of_le h hcursor
    · exact fun hc => lt_of_lt_of_le (hcur hc) hcursor
    · exact fun n hn hc => lt_of_lt_of_le (hnodes n hn hc) hcursor
  | writeFill id len retries plan =>
    exact ⟨h.1, h.2.imp_right fun h => lt_of_lt_of_le h hcursor⟩
  | writePublish id len retries plan base =>
    refine ⟨h.toPlanReady, ?_, le_trans h.fits hcursor, h.below⟩
    intro o hle hlt
    exact hfree _ rfl o hle hlt (h.free o hle hlt)

theorem ChainInv.of_step (hi : ChainInv cfg s) (hmem : MemInv cfg s')
    (hcalls : s'.calls = update s.calls p pc) (hcursor : s.cursor ≤ s'.cursor)
    (hnew : ∀ o, s.docs o = none → s'.docs o ≠ none →
      ∃ a, slotOf (s.calls p) = some a ∧ a.1 ≤ o ∧ o < a.2) (hpc : CallOk cfg s' pc)
    (hslot : ∀ a, slotOf pc = some a → ∀ q b, slotOf (s.calls q) = some b → b.2 ≤ a.1) :
    ChainInv cfg s' := by
  refine ⟨hmem, ?_, ?_⟩
  · intro q
    rw [hcalls]
    by_cases hq : q = p
    · rw [hq, update_self]
      exact hpc
    · rw [update_of_ne hq]
      refine (hi.calls q).mono hcursor ?_
      intro b hb o hle hlt hnone
      by_contra hsome
      obtain ⟨a, ha, hale, halt⟩ := hnew o hnone hsome
      have := hi.apart q p b a hq hb ha
      omega
  · intro q r a b hne ha hb
    rw [hcalls] at ha hb
    by_cases hq : q = p
    · rw [hq, update_self] at ha
      rw [update_of_ne (fun h => hne (hq.trans h.symm))] at hb
      exact .inr (hslot a ha r b hb)
    · rw [update_of_ne hq] at ha
      by_cases hr : r = p
      · rw [hr, update_self] at hb
        exact .inl (hslot b hb q a ha)
      · rw [update_of_ne hr] at hb
        exact hi.apart q r a b hne ha hb

def Slotless (cfg : ChainConfig) (s : ChainState) (pc : CallPc) : Prop :=
  CallOk cfg s pc ∧ slotOf pc = none

theorem ChainInv.setCall (hi : ChainInv cfg s) (hpc : Slotless cfg s pc) :
    ChainInv cfg (s.setCall p pc) := by
  refine hi.of_step (hi.mem.of_same rfl rfl le_rfl rfl rfl) rfl le_rfl
    (fun o hnone hsome => absurd hnone hsome) ?_ ?_
  · exact hpc.1.mono le_rfl (fun _ _ _ _ _ h => h)
  · intro a ha
    rw [hpc.2] at ha
    cases ha

theorem callOk_retryRemove (cfg : ChainConfig) (s : ChainState) (id attempt : Nat) :
    Slotless cfg s (retryRemove id attempt) := by
  unfold retryRemove
  split <;> exact ⟨trivial, rfl⟩

theorem callOk_retryWrite (cfg : ChainConfig) (s : ChainState) (id retries : Nat)
    (hlen : kHeaderSize ≤ len) : Slotless cfg s (retryWrite id len retries) := by
  unfold retryWrite
  split
  · exact ⟨trivial, rfl⟩
  · exact ⟨hlen, rfl⟩

theorem callOk_removeWalkStep {attempt depth current : Nat} {pred : Nat × Nat} :
    Slotless cfg s (removeWalkStep cfg s id attempt snap head cls depth current pred) := by
  unfold removeWalkStep
  repeat' split
  all_goals exact ⟨trivial, rfl⟩

theorem callOk_writeWalkEnd {truncated : Bool} (hlen : kHeaderSize ≤ len)
    (hnodup : (nodes.map ChainNode.relOffset).Nodup)
    (hhead : (headCls = .kRetained ∧ cfg.stripe.retain = true) ∨ head < s.cursor)
    (hnodes : ∀ n ∈ nodes, n.cls = .kCurrent → n.relOffset < s.cursor) :
    Slotless cfg s
      (writeWalkEnd cfg id len retries head headCls nodes fullyWalked truncated) := by
  unfold writeWalkEnd
  split
  · exact ⟨trivial, rfl⟩
  · next plan hplan => exact ⟨planWrite_ready hplan hlen hnodup hhead hnodes, rfl⟩

theorem nodup_snoc {n : ChainNode} (h : (nodes.map ChainNode.relOffset).Nodup)
    (hn : n.relOffset ∉ nodes.map ChainNode.relOffset) :
    ((nodes ++ [n]).map ChainNode.relOffset).Nodup := by
  rw [List.map_append, List.map_singleton, ← List.concat_eq_append]
  exact h.concat hn

/-- A walk ends with the nodes it has, or takes one more and ends or goes on. -/
theorem writeWalkStep_cases {P : CallPc → Prop} {current : Nat} (hend : ∀ fullyWalked truncated,
      P (writeWalkEnd cfg id len retries head headCls nodes fullyWalked truncated))
    (hnode : ∀ n : ChainNode, n.relOffset = current → n.cls = cls →
      n.relOffset ∉ nodes.map ChainNode.relOffset →
      P (writeWalkEnd cfg id len retries head headCls (nodes ++ [n]) true false) ∧
      P (.writeWalk id len retries snap head headCls
        (cfg.stripe.admitHop n.nextRel current cls snap) (nodes ++ [n]) n.nextRel)) :
    P (writeWalkStep cfg s id len retries snap head headCls cls nodes current) := by
  unfold writeWalkStep
  split
  · exact hend _ _
  next hfresh =>
  split
  · exact hend _ _
  next d hd =>
  obtain ⟨hstop, hgo⟩ := hnode ⟨current, d.nextAlternateOffset, d.len, d.alternateId, cls, d.body⟩
    rfl rfl fun hmem => hfresh (.inr hmem)
  simp only
  split
  · exact hend _ _
  · split
    · exact hstop
    · exact hgo

theorem callOk_writeWalkStep {current : Nat}
    (h : CallOk cfg s (.writeWalk id len retries snap head headCls cls nodes current)) :
    Slotless cfg s (writeWalkStep cfg s id len retries snap head headCls cls nodes current) := by
  obtain ⟨hlen, hsnap, hnd, hhead, hcur, hnodes⟩ := h
  refine writeWalkStep_cases (fun _ _ => callOk_writeWalkEnd hlen hnd hhead hnodes)
    fun n hrel hcls hfresh => ?_
  have hnd' := nodup_snoc hnd hfresh
  have hnodes' : ∀ m ∈ nodes ++ [n], m.cls = .kCurrent → m.relOffset < s.cursor := by
    intro m hm hc
    rcases List.mem_append.mp hm with hm | hm
    · exact hnodes m hm hc
    · rw [List.mem_singleton.mp hm] at hc ⊢
      rw [hrel]
      exact hcur (hcls.symm.trans hc)
  refine ⟨callOk_writeWalkEnd hlen hnd' hhead hnodes',
    ⟨hlen, hsnap, hnd', hhead, fun hc => ?_, hnodes'⟩, rfl⟩
  exact lt_of_lt_of_le (Stripe.admitHop_kCurrent.mp hc).2.2.2.2 hsnap

theorem repointChainLink_some {pred predId newNext : Nat}
    (h : repointChainLink cfg s pred predId newNext = some s') :
    s' = s.storeLink pred newNext ∧ ∃ d, s.docs pred = some d := by
  unfold repointChainLink at h
  split at h
  · cases h
  · next d hd =>
    split at h <;> cases h
    exact ⟨rfl, d, hd⟩

section

variable (hi : ChainInv cfg s)
include hi

theorem ChainInv.removeStore {attempt : Nat} {plan : RemovePlan} (hcur : RemoveCurrent s plan) :
    ChainInv cfg (removeStoreStep cfg s p id attempt plan) := by
  have hretry := callOk_retryRemove cfg s id attempt
  cases plan with
  | dropEntry head target =>
    exact hi.of_step (hi.mem.dropEntry hcur) rfl le_rfl
      (fun o hn hs => absurd hn hs) trivial (fun a ha => by cases ha)
  | republish head successor =>
    unfold removeStoreStep
    simp only
    split
    · next hany =>
      obtain ⟨e, he, hoff⟩ := (Option.any_eq_true _ _).mp hany
      have hhead : e.offset = head := by simpa using hoff
      obtain ⟨hhop, hne⟩ := hcur ⟨e, he, hhead⟩
      exact hi.of_step (hi.mem.republish he hhead (linkOf_of_hops hhop hne)) rfl
        le_rfl (fun o hn hs => absurd hn hs) trivial (fun a ha => by cases ha)
    · exact hi.setCall hretry
  | repoint pred predId target targetNext =>
    unfold removeStoreStep
    simp only
    split
    · next s' hs' =>
      obtain ⟨rfl, d, hd⟩ := repointChainLink_some hs'
      obtain ⟨hon, ht, hne, hnext⟩ := hcur
      refine hi.of_step (hi.mem.unlink hd hon ht hne hnext) rfl le_rfl ?_ trivial
        (fun a ha => by cases ha)
      intro o hnone hsome
      exact absurd hnone (docs_storeLink_ne_none.mp hsome)
    · exact hi.setCall hretry

theorem ChainInv.writeFill (hpc : CallOk cfg s (.writeFill id len retries plan))
    (h : writeFillStep cfg s p id len retries plan = some s') : ChainInv cfg s' := by
  obtain ⟨hready, hbelow⟩ := hpc
  simp only [writeFillStep] at h
  split at h
  · cases h
    exact hi.setCall (callOk_retryWrite cfg s id retries hready.header)
  · split at h <;> cases h
    next hfits =>
    have hround := le_roundUp8 (carriedSize plan.carried + len)
    refine hi.of_step (hi.mem.of_same rfl rfl (Nat.le_add_right _ _) rfl rfl) rfl
      (Nat.le_add_right _ _) (fun o hn hs => absurd hn hs) ?_ ?_
    · refine ⟨hready, ?_, Nat.add_le_add_left hround _, hbelow⟩
      intro o hle hlt
      by_contra hdoc
      rcases hi.mem.placed o hdoc with h | h <;> omega
    · intro a ha q b hb
      cases ha
      have hq := hi.calls q
      cases hcq : s.calls q with
      | writePublish id' len' retries' plan' base' =>
        rw [hcq] at hq hb
        cases hb
        exact hq.fits
      | _ =>
        rw [hcq] at hb
        cases hb

theorem ChainInv.writePublish {base : Nat}
    (hpc : s.calls p = .writePublish id len retries plan base)
    (hcur : publishViewIsCurrent cfg s plan = true → PublishCurrent s plan) :
    ChainInv cfg (writePublishStep cfg s p id len retries plan base) := by
  have hready : SlotReady s len plan base := by
    have := hi.calls p
    rw [hpc] at this
    exact this
  unfold writePublishStep
  split
  · next hview =>
    refine hi.of_step (hi.mem.publish hready (hcur hview)) rfl le_rfl ?_ trivial
      (fun a ha => by cases ha)
    intro o hnone hsome
    refine ⟨_, by rw [hpc]; rfl, ?_⟩
    obtain ⟨d, hd⟩ := Option.ne_none_iff_exists'.mp hsome
    rcases place_cases (slotDocs_nodup hready.carry) hd with hmem | ⟨-, hold⟩
    · have hin := mem_slotDocs hready.carry hready.header hmem
      exact ⟨hin.1, hin.2.1⟩
    · rw [hnone] at hold
      cases hold
  · exact hi.setCall (callOk_retryWrite cfg s id retries hready.header)

theorem ChainInv.writeSplice {r : PendingRepoint} {rs : List PendingRepoint}
    (hcur : hops s.docs (r.shadowCount + 1) r.predRel = r.newNext) :
    ChainInv cfg (((repointChainLink cfg s r.predRel r.predId r.newNext).getD s).setCall p
      (.writeSplice rs)) := by
  cases hlink : repointChainLink cfg s r.predRel r.predId r.newNext with
  | none => exact hi.setCall ⟨trivial, rfl⟩
  | some s' =>
    obtain ⟨rfl, d, hd⟩ := repointChainLink_some hlink
    have hmem := hi.mem.storeLink hd hcur
    refine hi.of_step (hmem.of_same rfl rfl le_rfl rfl rfl) rfl le_rfl ?_
      trivial (fun a ha => by cases ha)
    intro o hnone hsome
    exact absurd hnone (docs_storeLink_ne_none.mp hsome)

end

theorem probe_spec {e : HeadEntry} (h : cfg.probe s snap = some (e, cls)) :
    (cls = .kRetained ∧ cfg.stripe.retain = true) ∨
      (cls = .kCurrent ∧ e.offset < snap.cursorRel) := by
  unfold ChainConfig.probe at h
  split at h
  · cases h
  · split at h <;> cases h
    next hrej =>
    cases hcls : cfg.classify e snap with
    | kReject => exact absurd hcls hrej
    | kCurrent => exact .inr ⟨rfl, (Stripe.admitPosition_kCurrent.mp hcls).2.2⟩
    | kRetained => exact .inl ⟨rfl, (Stripe.admitPosition_kRetained.mp hcls).2.2.1⟩

theorem callStep_inv (hi : ChainInv cfg s) (hcur : PlanCurrent cfg s (.step p))
    (h : callStep cfg s p = some s') : ChainInv cfg s' := by
  have hpc := hi.calls p
  have hsnap : (cfg.snapshot s).cursorRel ≤ s.cursor := Nat.min_le_left _ _
  simp only [PlanCurrent] at hcur
  unfold callStep at h
  split at h
  · cases h
  · cases h
    exact hi.setCall ⟨trivial, rfl⟩
  · cases h
    split
    · exact hi.setCall ⟨trivial, rfl⟩
    · split <;> exact hi.setCall ⟨trivial, rfl⟩
  · cases h
    exact hi.setCall callOk_removeWalkStep
  · next hc =>
    cases h
    rw [hc] at hcur
    exact hi.removeStore hcur
  · next hc =>
    cases h
    rw [hc] at hpc
    exact hi.setCall ⟨⟨hpc, hsnap⟩, rfl⟩
  · next id len retries snap hc =>
    cases h
    rw [hc] at hpc
    obtain ⟨hlen, hle⟩ := hpc
    split
    · exact hi.setCall ⟨⟨.of_no_carry hlen rfl, .inl rfl⟩, rfl⟩
    · next e cls hprobe =>
      split
      · refine hi.setCall ⟨⟨hlen, hle, List.nodup_nil, ?_, ?_, ?_⟩, rfl⟩
        · rcases probe_spec hprobe with hret | ⟨-, hlt⟩
          · exact .inl hret
          · exact .inr (lt_of_lt_of_le hlt hle)
        · intro hcls
          rcases probe_spec hprobe with ⟨hret, -⟩ | ⟨-, hlt⟩
          · rw [hret] at hcls
            cases hcls
          · exact lt_of_lt_of_le hlt hle
        · intro n hn
          cases hn
      · exact hi.setCall ⟨⟨.of_no_carry hlen rfl, .inl rfl⟩, rfl⟩
  · next hc =>
    cases h
    rw [hc] at hpc
    exact hi.setCall (callOk_writeWalkStep hpc)
  · next hc =>
    rw [hc] at hpc
    exact hi.writeFill hpc h
  · next hc =>
    cases h
    rw [hc] at hcur
    exact hi.writePublish hc hcur
  · cases h
    exact hi.setCall ⟨trivial, rfl⟩
  · next hc =>
    cases h
    rw [hc] at hcur
    exact hi.writeSplice hcur

theorem busyStep_inv (hi : ChainInv cfg s) (h : busyStep s p = some s') : ChainInv cfg s' := by
  unfold busyStep at h
  split at h <;> cases h
  · next id attempt _ _ _ _ _ =>
    exact hi.setCall (callOk_retryRemove cfg s id attempt)
  · exact hi.setCall ⟨trivial, rfl⟩
  · exact hi.setCall ⟨trivial, rfl⟩
  · exact hi.setCall ⟨trivial, rfl⟩

theorem chainStep_inv (hi : ChainInv cfg s) {l : ChainAct} (hcur : PlanCurrent cfg s l)
    (h : chainStep cfg s l = some s') : ChainInv cfg s' := by
  cases l with
  | remove p id =>
    simp only [chainStep] at h
    split at h <;> cases h
    exact hi.setCall ⟨trivial, rfl⟩
  | write p id len =>
    simp only [chainStep] at h
    split at h
    · split at h <;> cases h
      next hlen =>
      exact hi.setCall ⟨hlen, rfl⟩
    · cases h
  | step p => exact callStep_inv hi hcur h
  | busy p => exact busyStep_inv hi h

structure ChainAtRest (cfg : ChainConfig) (s : ChainState) : Prop where
  down : ∀ x y, linkOf s.docs x = some y → y < x
  closed : ∀ x y, linkOf s.docs x = some y → s.docs y ≠ none
  entry : ∀ e, s.entry = some e → s.docs e.offset ≠ none
  placed : ∀ o, s.docs o ≠ none → o < s.cursor ∨ cfg.runwayEnd ≤ o
  bodies : ∀ o d, s.docs o = some d → d.body < s.bodies
  distinct : ∀ o o' d d', s.docs o = some d → s.docs o' = some d' → d.body = d'.body → o = o'
  idle : ∀ p, s.calls p = .returned (.ok ())
  removed : s.removed = []

theorem ChainAtRest.inv (h : ChainAtRest cfg s) : ChainInv cfg s where
  mem :=
    { down := h.down
      closed := h.closed
      entry := h.entry
      placed := h.placed
      bodies := h.bodies
      reported := by
        rw [h.removed]
        intro b hb
        cases hb
      distinct := fun o o' d d' _ _ => h.distinct o o' d d'
      gone := by
        rw [h.removed]
        intro b hb
        cases hb }
  calls := by
    intro p
    rw [h.idle p]
    trivial
  apart := by
    intro p q a b _ ha
    rw [h.idle p] at ha
    cases ha

/-- Whatever calls run on the chain, in any interleaving: as long as every
store finds its plan current, no document that a removal has reported removed
is on the chain. -/
theorem removed_stays_removed {cfg : ChainConfig} {s s' : ChainState} {ls : List ChainAct}
    (hrest : ChainAtRest cfg s) (hok : StepsOk (chainStep cfg) (PlanCurrent cfg) s ls)
    (hrun : runs (chainStep cfg) s ls = some s') :
    ∀ b ∈ s'.removed, ∀ o d, s'.OnChain o → s'.docs o = some d → d.body ≠ b := by
  let inv : ChainState → Prop := ChainInv cfg
  have hinv : inv s' :=
    runs_inv_of_ok (fun s l s' hi hcur h => chainStep_inv hi hcur h) hok hrun hrest.inv
  exact hinv.mem.gone

theorem onChain_of_mem_chain {o : Nat} (h : o ∈ s.chain) : s.OnChain o := by
  simp only [ChainState.chain] at h
  split at h
  · cases h
  · next e he => exact ⟨e, he, reach_of_mem_walk h⟩

def planCurrentCheck (s : ChainState) : ChainAct → Bool
  | .step p =>
    match s.calls p with
    | .removeStore _ _ (.dropEntry head _) => s.entry.all (·.offset == head)
    | .removeStore _ _ (.republish head successor) =>
      hops s.docs 1 head == successor && successor != 0
    | .removeStore _ _ (.repoint pred _ target targetNext) =>
      s.chain.contains pred && hops s.docs 1 pred == target && target != 0 &&
        hops s.docs 2 pred == targetNext
    | .writePublish _ _ _ plan _ =>
      plan.carried.isEmpty && (plan.newNext == 0 || s.chain.contains plan.newNext)
    | .writeSplice (r :: _) => hops s.docs (r.shadowCount + 1) r.predRel == r.newNext
    | _ => true
  | _ => true

theorem planCurrent_of_check {l : ChainAct} (h : planCurrentCheck s l = true) :
    PlanCurrent cfg s l := by
  cases l with
  | remove | write | busy => trivial
  | step p =>
    simp only [planCurrentCheck] at h
    simp only [PlanCurrent]
    split
    · next plan hc =>
      rw [hc] at h
      cases plan with
      | dropEntry head target =>
        intro e he
        rw [he] at h
        simpa using h
      | republish head successor =>
        intro _
        simpa using h
      | repoint pred predId target targetNext =>
        simp only [Bool.and_eq_true, List.contains_iff_mem, beq_iff_eq, bne_iff_ne] at h
        exact ⟨onChain_of_mem_chain h.1.1.1, h.1.1.2, h.1.2, h.2⟩
    · next plan _ hc =>
      rw [hc] at h
      simp only [Bool.and_eq_true, Bool.or_eq_true, List.contains_iff_mem, beq_iff_eq,
        List.isEmpty_iff] at h
      refine fun _ => ⟨fun _ => h.2.imp_right onChain_of_mem_chain, ?_⟩
      intro c hmem
      rw [h.1] at hmem
      cases hmem
    · next hc =>
      rw [hc] at h
      simpa using h
    · trivial

def chainOf (slot : List (Nat × AltDoc)) (head cursor : Nat) : ChainState where
  docs := place (fun _ => none) slot
  entry := some ⟨head, false⟩
  cursor := cursor
  calls := fun _ => .returned (.ok ())
  removed := []
  bodies := slot.length

theorem chainOf_atRest {slot : List (Nat × AltDoc)} {cursor : Nat}
    (hkeys : (slot.map Prod.fst).Nodup) (hbodies : (slot.map fun x => x.2.body).Nodup)
    (hhead : head ∈ slot.map Prod.fst) (hdocs : ∀ x ∈ slot, x.1 < cursor ∧ x.2.body < slot.length ∧
      (x.2.nextAlternateOffset = 0 ∨ x.2.nextAlternateOffset < x.1 ∧
        x.2.nextAlternateOffset ∈ slot.map Prod.fst)) :
    ChainAtRest cfg (chainOf slot head cursor) := by
  have hmem : ∀ {o d}, (chainOf slot head cursor).docs o = some d → (o, d) ∈ slot := by
    intro o d hd
    rcases place_cases hkeys hd with h | ⟨-, h⟩
    · exact h
    · cases h
  have hkey : ∀ {o}, o ∈ slot.map Prod.fst → (chainOf slot head cursor).docs o ≠ none := by
    intro o ho
    obtain ⟨⟨o', d⟩, hd, rfl⟩ := List.mem_map.mp ho
    change place (fun _ => none) slot o' ≠ none
    rw [place_of_mem hkeys hd]
    exact Option.some_ne_none d
  have hlink : ∀ {x y}, linkOf (chainOf slot head cursor).docs x = some y →
      y < x ∧ y ∈ slot.map Prod.fst := by
    intro x y hl
    rcases linkOf_place hkeys hl with ⟨d, hd, rfl, hne⟩ | ⟨-, h⟩
    · rcases (hdocs _ hd).2.2 with hz | hlow
      · exact absurd hz hne
      · exact hlow
    · cases h
  constructor
  · exact fun x y hl => (hlink hl).1
  · exact fun x y hl => hkey (hlink hl).2
  · intro e he
    cases he
    exact hkey hhead
  · intro o ho
    obtain ⟨d, hd⟩ := Option.ne_none_iff_exists'.mp ho
    exact .inl (hdocs _ (hmem hd)).1
  · exact fun o d hd => (hdocs _ (hmem hd)).2.1
  · intro o o' d d' hd hd' heq
    exact congrArg Prod.fst (List.inj_on_of_nodup_map hbodies (hmem hd) (hmem hd') heq)
  · exact fun p => rfl
  · rfl

def fourAlternates : ChainState :=
  chainOf [(8, ⟨3, 0, 132, 0, 0⟩), (144, ⟨2, 8, 132, 0, 1⟩), (280, ⟨1, 144, 132, 0, 2⟩),
    (416, ⟨0, 280, 132, 0, 3⟩)] 416 552

def smallChain : ChainConfig := ⟨smallStripe false, 0, true, 0⟩

theorem fourAlternates_atRest : ChainAtRest smallChain fourAlternates :=
  chainOf_atRest (by decide) (by decide) (by decide) (by decide)

/-- Alternate 1 is planned away, its successor 2 is removed, and the plan is
stored: 2 is linked again after its removal returned. -/
theorem removed_neighbour_returns : ∃ s', ChainAtRest smallChain fourAlternates ∧
      runs (chainStep smallChain) fourAlternates
        ([.remove 0 1, .step 0, .step 0, .step 0, .step 0, .remove 1 2] ++
          List.replicate 6 (.step 1) ++ [.step 0]) = some s' ∧
      s'.calls 0 = .returned (.ok ()) ∧ s'.calls 1 = .returned (.ok ()) ∧
      ∃ b ∈ s'.removed, ∃ o d, s'.OnChain o ∧ s'.docs o = some d ∧ d.body = b := by
  obtain ⟨s', hrun, hret, hret', hmem, hon, hdoc⟩ : ∃ s', runs (chainStep smallChain)
      fourAlternates ([.remove 0 1, .step 0, .step 0, .step 0, .step 0, .remove 1 2] ++
      List.replicate 6 (.step 1) ++ [.step 0]) = some s' ∧ s'.calls 0 = .returned (.ok ()) ∧
      s'.calls 1 = .returned (.ok ()) ∧ 1 ∈ s'.removed ∧ 144 ∈ s'.chain ∧ s'.docs 144 = some ⟨2, 8,
      132, 0, 1⟩ := by decide +kernel
  exact ⟨s', fourAlternates_atRest, hrun, hret, hret', 1, hmem, 144, _, onChain_of_mem_chain hon,
    hdoc, rfl⟩

/-- The same removals one after the other, then a write that splices. -/
theorem removed_stays_removed_in_turn : ∃ s', runs (chainStep smallChain) fourAlternates
        (.remove 0 1 :: List.replicate 5 (.step 0) ++ .remove 1 2 ::
          List.replicate 5 (.step 1) ++ .write 0 3 132 :: List.replicate 8 (.step 0)) =
        some s' ∧ s'.removed = [1, 2] ∧
      ∀ b ∈ s'.removed, ∀ o d, s'.OnChain o → s'.docs o = some d → d.body ≠ b := by
  obtain ⟨s', hrun, hremoved⟩ : ∃ s', runs (chainStep smallChain) fourAlternates
      (.remove 0 1 :: List.replicate 5 (.step 0) ++ .remove 1 2 :: List.replicate 5 (.step 1) ++
        .write 0 3 132 :: List.replicate 8 (.step 0)) = some s' ∧ s'.removed = [1, 2] := by
    decide +kernel
  exact ⟨s', hrun, hremoved, removed_stays_removed fourAlternates_atRest
    (stepsOk_of_sound (fun _ _ h => planCurrent_of_check h) (by decide +kernel)) hrun⟩

end CycloneCache.Ref

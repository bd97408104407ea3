import CycloneCache.Proofs.VisibleChain
import Mathlib.Data.List.TakeWhile

namespace CycloneCache.Ref

open Lib

variable {cfg : ChainConfig} {s s' : ChainState} {w : Nat}

def remaining (w : Nat) : List ChainNode → List PendingRepoint
  | [] => []
  | keeper :: ns => planRepoints w true keeper 0 ns

theorem planRepoints_cons {keeper : ChainNode} {pend ns : List ChainNode} {r : PendingRepoint}
    {rs : List PendingRepoint} (hk : keeper.id ≠ w) (hpend : ∀ c ∈ pend, c.id = w)
    (h : planRepoints w true keeper pend.length ns = r :: rs) :
    ∃ skipped k cut rest, keeper :: (pend ++ ns) = skipped ++ k :: (cut ++ rest) ∧
      (∀ c ∈ skipped, c.id ≠ w) ∧ k.id ≠ w ∧ (∀ c ∈ cut, c.id = w) ∧
      (∀ c ∈ rest.head?, c.id ≠ w) ∧
      r = ⟨k.relOffset, (rest.map ChainNode.relOffset).head?.getD 0, k.id, cut.length⟩ ∧
      rs = remaining w rest := by
  induction ns generalizing keeper pend with rw [planRepoints] at h
  | nil =>
    split at h
    · obtain ⟨rfl, rfl⟩ := List.cons.inj h
      exact ⟨[], keeper, pend, [], by simp, nofun, hk, hpend, nofun, rfl, rfl⟩
    · cases h
  | cons n ns ih =>
    split at h
    · next hn =>
      -- one more superseded node in the run
      rw [show pend.length + 1 = (pend ++ [n]).length by simp] at h
      obtain ⟨skipped, k, cut, rest, heq, hrest⟩ := ih hk
        (List.forall_mem_append.mpr ⟨hpend, List.forall_mem_singleton.mpr hn⟩) h
      rw [List.append_assoc, List.singleton_append] at heq
      exact ⟨skipped, k, cut, rest, heq, hrest⟩
    · next hn =>
      split at h
      · obtain ⟨rfl, rfl⟩ := List.cons.inj h
        refine ⟨[], keeper, pend, n :: ns, rfl, nofun, hk, hpend, ?_, rfl, rfl⟩
        intro c hc
        cases hc
        exact hn
      · next hrun =>
        -- no run: the store is further on
        obtain rfl : pend = [] := by
          cases pend with
          | nil => rfl
          | cons c cs => exact absurd (Nat.succ_pos _) hrun
        obtain ⟨skipped, k, cut, rest, heq, hskip, hrest⟩ := @ih n [] hn nofun h
        refine ⟨keeper :: skipped, k, cut, rest, ?_, ?_, hrest⟩
        · rw [List.nil_append, List.cons_append, ← heq, List.nil_append]
        · rintro c (_ | ⟨_, hc⟩)
          · exact hk
          · exact hskip c hc

theorem planRepoints_nil {keeper : ChainNode} {run : Nat} {ns : List ChainNode}
    (h : planRepoints w true keeper run ns = []) : run = 0 ∧ ∀ c ∈ ns, c.id ≠ w := by
  induction ns generalizing keeper run with rw [planRepoints] at h
  | nil =>
    split at h
    · cases h
    · next hrun =>
      refine ⟨?_, nofun⟩
      simpa using hrun
  | cons n ns ih =>
    split at h
    · have := (ih h).1
      omega
    · next hn =>
      split at h
      · cases h
      · next hrun =>
        refine ⟨by omega, ?_⟩
        rintro c (_ | ⟨_, hc⟩)
        · exact hn
        · exact (ih h).2 c hc

theorem remaining_nil {back : List ChainNode} (h : remaining w back = [])
    (hhead : ∀ c ∈ back.head?, c.id ≠ w) : ∀ c ∈ back, c.id ≠ w := by
  cases back with
  | nil => nofun
  | cons k ns =>
    rintro c (_ | ⟨_, hc⟩)
    · exact hhead k rfl
    · exact (planRepoints_nil h).2 c hc

def idsOf (l : List Shown) : Finset Nat := (l.map Shown.id).toFinset

theorem nodup_eraseDups (l : List Nat) : l.eraseDups.Nodup := by
  generalize hn : l.length = n
  induction n using Nat.strong_induction_on generalizing l with
  | _ n ih =>
    cases l with
    | nil => exact List.nodup_nil
    | cons a l =>
      rw [List.eraseDups_cons, List.nodup_cons]
      refine ⟨?_, ih _ ?_ _ rfl⟩
      · simp
      · have := List.length_filter_le (fun b => !b == a) l
        rw [List.length_cons] at hn
        omega

theorem eraseDups_length (l : List Nat) : l.eraseDups.length = l.toFinset.card := by
  rw [← List.toFinset_card_of_nodup (nodup_eraseDups l)]
  congr 1
  ext x
  rw [List.mem_toFinset, List.mem_toFinset, List.mem_eraseDups]

variable {l : List Shown} {nodes : List ChainNode}

theorem idsOf_mono {l' : List Shown} (h : l' ⊆ l) : idsOf l' ⊆ idsOf l := by
  intro x hx
  simp only [idsOf, List.mem_toFinset, List.mem_map] at hx ⊢
  obtain ⟨n, hn, rfl⟩ := hx
  exact ⟨n, h hn, rfl⟩

def EndsClean (cfg : ChainConfig) (s : ChainState) (l : List Shown) : Prop :=
  ∀ n ∈ l.getLast?, ∀ d, s.docs n.offset = some d →
    cfg.stripe.admitHop d.nextAlternateOffset n.offset .kCurrent (cfg.snapshot s) = .kReject

def WalkedToEnd (cfg : ChainConfig) (s : ChainState) (l : List Shown) : Prop :=
  l.length < kMaxChainTraversalDepth ∨ l.length = kMaxChainTraversalDepth ∧ EndsClean cfg s l

structure Walking (cfg : ChainConfig) (s : ChainState) (l : List Shown)
    (nodes : List ChainNode) (current : Nat) : Prop where
  chain : VisibleChain cfg s l
  cls : ∀ c ∈ nodes, c.cls = .kCurrent
  seen : ∃ ahead, l = nodes.map ChainNode.shown ++ ahead ∧
    ((ahead.map Shown.offset).head? = some current ∨
      ahead = [] ∧ (∃ d, s.docs current = some d ∧ cfg.stamped d = false) ∧ ¬ EndsClean cfg s l)

theorem Walking.not_seen {current : Nat} (h : Walking cfg s l nodes current) :
    current ∉ nodes.map (·.relOffset) := by
  obtain ⟨hchain, -, ahead, hl, hat⟩ := h
  intro hmem
  obtain ⟨c, hc, rfl⟩ := List.mem_map.mp hmem
  have hc' : c.shown ∈ nodes.map ChainNode.shown := List.mem_map_of_mem hc
  rcases hat with hat | ⟨-, ⟨d, hd, hst⟩, -⟩
  · cases ahead with
    | nil => cases hat
    | cons m ahead =>
      have hsorted := hchain.sorted
      rw [hl] at hsorted
      have hlt : m.offset < c.relOffset :=
        (List.pairwise_append.mp hsorted).2.2 c.shown hc' m List.mem_cons_self
      have heq : m.offset = c.relOffset := Option.some.inj hat
      omega
  · -- the document past the end is of another pass
    obtain ⟨d', hd', -, -, hst'⟩ :=
      (hchain.shown c.shown (by rw [hl]; exact List.mem_append_left _ hc')).doc
    rw [show s.docs c.shown.offset = some d from hd] at hd'
    cases hd'
    rw [hst] at hst'
    cases hst'

theorem nothing_ahead {ahead : List Shown} (h : (ahead.map Shown.offset).head? = none) :
    ahead = [] := by
  rwa [List.head?_eq_none_iff, List.map_eq_nil_iff] at h

theorem Walking.step {current : Nat} (h : Walking cfg s l nodes current) (id len retries head : Nat) :
    let pc := writeWalkStep cfg s id len retries (cfg.snapshot s) head .kCurrent .kCurrent nodes
      current
    (∃ nodes' next, Walking cfg s l nodes' next ∧ nodes'.length = nodes.length + 1 ∧
      nodes.length < kMaxChainTraversalDepth ∧
      pc = .writeWalk id len retries (cfg.snapshot s) head .kCurrent .kCurrent nodes' next) ∨
    (∃ nodes', nodes'.map ChainNode.shown = l ∧ (∀ c ∈ nodes', c.cls = .kCurrent) ∧
      pc = writeWalkEnd cfg id len retries head .kCurrent nodes' true false) ∨
    (kMaxChainTraversalDepth ≤ nodes.length ∧ ¬ WalkedToEnd cfg s l ∧
      (∃ ahead, l = nodes.map ChainNode.shown ++ ahead) ∧
      pc = writeWalkEnd cfg id len retries head .kCurrent nodes false true) := by
  intro pc
  have hfresh := h.not_seen
  obtain ⟨hchain, hcls, ahead, hl, hat⟩ := h
  have hlen : l.length = nodes.length + ahead.length := by
    rw [hl, List.length_append, List.length_map]
  by_cases hdepth : kMaxChainTraversalDepth ≤ nodes.length
  · refine .inr (.inr ⟨hdepth, ?_, ⟨ahead, hl⟩, ?_⟩)
    · rintro (hlt | ⟨heq, hclean⟩)
      · omega
      · rcases hat with hat | ⟨-, -, hdirty⟩
        · cases ahead with
          | nil => cases hat
          | cons m ahead =>
            rw [List.length_cons] at hlen
            omega
        · exact hdirty hclean
    · exact if_pos (.inl hdepth)
  · have hgo : ¬ (nodes.length ≥ kMaxChainTraversalDepth ∨ current ∈ nodes.map (·.relOffset)) := by
      rintro (h | h)
      · exact hdepth h
      · exact hfresh h
    simp only [pc, writeWalkStep, if_neg hgo]
    rcases hat with hat | ⟨rfl, ⟨d, hd, hst⟩, -⟩
    · cases ahead with
      | nil => cases hat
      | cons m ahead =>
        obtain rfl : m.offset = current := Option.some.inj hat
        have hm : m ∈ l := by
          rw [hl]
          exact List.mem_append_right _ List.mem_cons_self
        obtain ⟨d, hd, hid, hbody, hst⟩ := (hchain.shown m hm).doc
        have hst' : cfg.stripe.stampAdmits (cfg.snapshot s) .kCurrent d.writeSerial = true := hst
        set c : ChainNode := ⟨m.offset, d.nextAlternateOffset, d.len, d.alternateId, .kCurrent,
          d.body⟩ with hc
        have hshown : c.shown = m := by
          simp only [hc, ChainNode.shown, hid, hbody]
        have hl' : l = (nodes ++ [c]).map ChainNode.shown ++ ahead := by
          rw [hl, List.map_append, List.map_singleton, hshown, List.append_assoc,
            List.singleton_append]
        have hcls' : ∀ c' ∈ nodes ++ [c], c'.cls = .kCurrent := by
          exact List.forall_mem_append.mpr ⟨hcls, List.forall_mem_singleton.mpr rfl⟩
        have hnext : cfg.visibleNext s m.offset = (ahead.map Shown.offset).head? := by
          have hseg := hchain.toSegment
          rw [hl] at hseg
          exact ((hseg.suffix _).path.2.head?_eq).symm
        simp only [ChainConfig.visibleNext, hd, Option.bind_some] at hnext
        simp only [hd, hst', Bool.not_true, Bool.false_eq_true, if_false]
        by_cases hstop : d.nextAlternateOffset = 0 ∨
            cfg.stripe.admitHop d.nextAlternateOffset m.offset .kCurrent (cfg.snapshot s) = .kReject
        · rw [if_pos hstop]
          rw [ChainConfig.hop, if_pos hstop] at hnext
          obtain rfl := nothing_ahead hnext.symm
          rw [List.append_nil] at hl'
          exact .inr (.inl ⟨nodes ++ [c], hl'.symm, hcls', rfl⟩)
        · rw [if_neg hstop]
          rw [not_or] at hstop
          refine .inl ⟨nodes ++ [c], d.nextAlternateOffset, ⟨hchain, hcls', ahead, hl', ?_⟩,
            by simp, by omega, ?_⟩
          · rw [ChainConfig.hop, if_neg (not_or.mpr hstop)] at hnext
            have hmapped := hchain.mapped m hm d hd hstop.1 hstop.2
            obtain ⟨d', hd'⟩ := Option.ne_none_iff_exists'.mp hmapped
            rw [hd', Option.any_some] at hnext
            cases hs : cfg.stamped d' with
            | true =>
              rw [hs, if_pos rfl] at hnext
              exact .inl hnext.symm
            | false =>
              rw [hs, if_neg Bool.false_ne_true] at hnext
              obtain rfl := nothing_ahead hnext.symm
              refine .inr ⟨rfl, ⟨d', hd', hs⟩, fun hclean => hstop.2 ?_⟩
              refine hclean m ?_ d hd
              rw [hl]
              simp
          · rw [admitHop_kCurrent_eq hstop.2]
    · have hst' : cfg.stripe.stampAdmits (cfg.snapshot s) .kCurrent d.writeSerial = false := hst
      simp only [hd, hst', Bool.not_false, if_true]
      rw [List.append_nil] at hl
      exact .inr (.inl ⟨nodes, hl.symm, hcls, rfl⟩)

structure PlanFor (w : Nat) (l : List Shown) (plan : WritePlan) : Prop where
  carried : plan.carried = []
  split : ∃ gone back, l = gone ++ back.map ChainNode.shown ∧
    (l.length ≤ kMaxChainTraversalDepth → ∀ n ∈ gone, n.id = w) ∧
    (∀ c ∈ back.head?, c.id ≠ w) ∧
    plan.newNext = (back.map ChainNode.relOffset).head?.getD 0 ∧
    plan.repoints = remaining w back ∧
    ((idsOf l).card < kMaxAlternates ∨ back = [])

theorem idsOf_nodes (nodes : List ChainNode) :
    idsOf (nodes.map ChainNode.shown) = (nodes.map (·.id)).toFinset := by
  rw [idsOf, List.map_map]
  rfl

theorem not_retained (cfg : ChainConfig) :
    (cfg.stripe.retain && AdmitClass.kCurrent == AdmitClass.kRetained) = false := by
  rw [show (AdmitClass.kCurrent == AdmitClass.kRetained) = false from rfl, Bool.and_false]

theorem planWrite_full (w len head : Nat) (hunlink : cfg.unlinkSupersededAlternates = true)
    (hne : nodes ≠ []) (hcls : ∀ c ∈ nodes, c.cls = .kCurrent) :
    kMaxAlternates ≤ (idsOf (nodes.map ChainNode.shown)).card ∧
        planWrite cfg w len head .kCurrent nodes true false = .error .tooManyAlternates ∨
      (idsOf (nodes.map ChainNode.shown)).card < kMaxAlternates ∧
        ∃ plan, planWrite cfg w len head .kCurrent nodes true false = .ok plan ∧
          plan.verified = some head ∧ plan.retained = false ∧
          PlanFor w (nodes.map ChainNode.shown) plan := by
  simp only [planWrite, not_retained, hunlink, Bool.false_and, Bool.not_false, Bool.true_and,
    Bool.false_eq_true, if_false, if_true, decide_eq_true_eq, eraseDups_length]
  rw [← idsOf_nodes]
  by_cases hlimit : (idsOf (nodes.map ChainNode.shown)).card ≥ kMaxAlternates
  · rw [if_pos hlimit]
    exact .inl ⟨hlimit, rfl⟩
  · rw [if_neg hlimit]
    refine .inr ⟨Nat.lt_of_not_le hlimit, _, rfl, rfl, rfl, rfl,
      (nodes.takeWhile (·.id == w)).map ChainNode.shown, nodes.dropWhile (·.id == w), ?_, ?_, ?_, ?_, ?_, .inl (Nat.lt_of_not_le hlimit)⟩
    · rw [← List.map_append, List.takeWhile_append_dropWhile]
    · intro _ n hn
      obtain ⟨c, hc, rfl⟩ := List.mem_map.mp hn
      have := List.mem_takeWhile_imp hc
      exact eq_of_beq this
    · intro c hc
      have := List.head?_dropWhile_not (p := (·.id == w)) nodes
      rw [Option.mem_def.mp hc] at this
      simpa using this
    · rw [planUnlink]
      cases hback : nodes.dropWhile (·.id == w) with
      | nil => simp [hne]
      | cons keeper rest =>
        have hk : keeper ∈ nodes := by
          apply (List.dropWhile_sublist (·.id == w)).mem
          rw [hback]
          exact List.mem_cons_self
        simp [hcls keeper hk]
    · rw [planUnlink]
      cases nodes.dropWhile (·.id == w) with
      | nil => rfl
      | cons keeper rest => rfl

theorem planWrite_truncated (cfg : ChainConfig) (w len head : Nat) (ahead : List Shown)
    (hdepth : kMaxChainTraversalDepth ≤ nodes.length) :
    match planWrite cfg w len head .kCurrent nodes false true with
    | .ok plan => PlanFor w (nodes.map ChainNode.shown ++ ahead) plan
    | .error e => e = .tooManyAlternates := by
  simp only [planWrite, not_retained, Bool.true_and, Bool.not_false, Bool.and_true, Bool.false_eq_true,
    if_false, decide_eq_true_eq]
  cases hreset : (nodes.map (·.id)).eraseDups == [w] with
  | false => rw [Bool.not_false, if_pos rfl]
  | true =>
    have hids := eq_of_beq hreset
    rw [Bool.not_true, if_neg Bool.false_ne_true, hids, if_neg (by simp [kMaxAlternates]),
      if_pos rfl]
    refine ⟨rfl, nodes.map ChainNode.shown ++ ahead, [], by simp, ?_, by simp, rfl, rfl, .inr rfl⟩
    intro hlen n hn
    rw [List.length_append, List.length_map] at hlen
    obtain rfl : ahead = [] := List.eq_nil_of_length_eq_zero (by omega)
    rw [List.append_nil] at hn
    obtain ⟨c, hc, rfl⟩ := List.mem_map.mp hn
    have hmem : c.id ∈ (nodes.map (·.id)).eraseDups :=
      List.mem_eraseDups.mpr (List.mem_map_of_mem hc)
    rw [hids] at hmem
    exact List.mem_singleton.mp hmem

structure Reduced (w : Nat) (l : List Shown) (strict : Bool) (front : List Shown) : Prop where
  sub : front.Sublist l
  keeps : l.length ≤ kMaxChainTraversalDepth → (l.filter (·.id != w)).Sublist front
  clean : strict = true → ∀ n ∈ front, n.id ≠ w

structure NewHead (s : ChainState) (w : Nat) (l : List Shown) (head : Shown) : Prop where
  id : head.id = w
  newest : head.body + 1 = s.bodies
  past : ∀ n ∈ l, n.offset < head.offset

structure Splicing (cfg : ChainConfig) (s : ChainState) (w : Nat) (l : List Shown)
    (strict : Bool) (rs : List PendingRepoint) (head : Shown) (gone front : List Shown)
    (back : List ChainNode) : Prop where
  chain : VisibleChain cfg s (head :: (front ++ back.map ChainNode.shown))
  head : NewHead s w l head
  split : l = gone ++ back.map ChainNode.shown
  sub : front.Sublist gone
  keeps : l.length ≤ kMaxChainTraversalDepth → (gone.filter (·.id != w)).Sublist front
  clean : strict = true → ∀ n ∈ front, n.id ≠ w
  keeper : ∀ c ∈ back.head?, c.id ≠ w
  todo : rs = remaining w back
  room : (idsOf l).card < kMaxAlternates ∨ front ++ back.map ChainNode.shown = []

structure OldChain (cfg : ChainConfig) (walked : Prop) (s : ChainState) (l : List Shown) : Prop
    extends VisibleChain cfg s l where
  ended : walked → WalkedToEnd cfg s l

def Superseding (cfg : ChainConfig) (w : Nat) (l : List Shown) (strict : Bool) (walked : Prop)
    (s : ChainState) : CallPc → Prop
  | .returned (.ok ()) => ∃ head front, VisibleChain cfg s (head :: front) ∧
      NewHead s w l head ∧ Reduced w l strict front ∧ ((idsOf l).card < kMaxAlternates ∨ front = [])
  | .returned (.error e) => OldChain cfg walked s l ∧
      (e = .tooManyAlternates → walked → kMaxAlternates ≤ (idsOf l).card)
  | .writeResolve id len _ => id = w ∧ kHeaderSize ≤ len ∧ OldChain cfg walked s l
  | .writeProbe id len _ snap =>
    id = w ∧ kHeaderSize ≤ len ∧ snap = cfg.snapshot s ∧ OldChain cfg walked s l
  | .writeWalk id len _ snap _ headCls cls nodes current =>
    id = w ∧ kHeaderSize ≤ len ∧ snap = cfg.snapshot s ∧ headCls = .kCurrent ∧
      cls = .kCurrent ∧ OldChain cfg walked s l ∧ Walking cfg s l nodes current
  | .writeFill id len _ plan =>
    id = w ∧ kHeaderSize ≤ len ∧ OldChain cfg walked s l ∧ PlanFor w l plan
  | .writePublish id len _ plan base =>
    id = w ∧ kHeaderSize ≤ len ∧ OldChain cfg walked s l ∧ PlanFor w l plan ∧
      SlotArea cfg s base (base + len) ∧ ∀ n ∈ l, n.offset < base
  | .writeSplice rs => ∃ head gone front back, Splicing cfg s w l strict rs head gone front back
  | _ => False

section Steps

variable {l : List Shown} {strict : Bool} {walked : Prop} {p : Nat}

theorem OldChain.of_same (h : OldChain cfg walked s l) (hdocs : s'.docs = s.docs)
    (hentry : s'.entry = s.entry) (hcursor : s.cursor ≤ s'.cursor) : OldChain cfg walked s' l := by
  refine ⟨h.toVisibleChain.of_same hdocs hentry hcursor, fun hw => ?_⟩
  refine (h.ended hw).imp_right fun hend => ⟨hend.1, ?_⟩
  intro n hn d hd
  rw [hdocs] at hd
  have hreject := hend.2 n hn d hd
  have hbehind := (h.shown n (List.mem_of_getLast? hn)).behind
  by_contra hadmit
  obtain ⟨hne, hin, hlt, -⟩ := admitHop_kCurrent.mp hadmit
  exact admitHop_kCurrent.mpr ⟨hne, hin, hlt, hlt.trans hbehind⟩ hreject

theorem setCall_calls (s : ChainState) (p : Nat) (pc : CallPc) : (s.setCall p pc).calls p = pc := by
  simp only [ChainState.setCall, Function.update_self]

theorem VisibleChain.ne_nil (h : VisibleChain cfg s l) : l ≠ [] := by
  rintro rfl
  obtain ⟨e, -, -, hhead⟩ := h.start
  cases hhead

variable {id len retries : Nat} {back : List ChainNode} {front gone : List Shown} {head : Shown}
  {rs : List PendingRepoint}

theorem superseding_walkEnd {head : Nat} {nodes : List ChainNode} {fullyWalked truncated : Bool}
    (hchain : OldChain cfg walked s l) (hid : id = w) (hlen : kHeaderSize ≤ len)
    (hplan : match planWrite cfg w len head .kCurrent nodes fullyWalked truncated with
      | .ok plan => PlanFor w l plan
      | .error e => e = .tooManyAlternates → walked → kMaxAlternates ≤ (idsOf l).card) :
    Superseding cfg w l strict walked s
      (writeWalkEnd cfg id len retries head .kCurrent nodes fullyWalked truncated) := by
  rw [writeWalkEnd, hid]
  split at hplan
  · next plan hok =>
    rw [hok]
    exact ⟨rfl, hlen, hchain, hplan⟩
  · next e herr =>
    rw [herr]
    exact ⟨hchain, hplan⟩

theorem Walking.superseding {head current : Nat} {nodes : List ChainNode}
    (hunlink : cfg.unlinkSupersededAlternates = true) (hid : id = w) (hlen : kHeaderSize ≤ len)
    (hchain : OldChain cfg walked s l) (h : Walking cfg s l nodes current) :
    Superseding cfg w l strict walked s
      (writeWalkStep cfg s id len retries (cfg.snapshot s) head .kCurrent .kCurrent nodes
        current) := by
  rcases h.step id len retries head with
    ⟨nodes', next, hw, -, -, heq⟩ | ⟨nodes', hl, hcls, heq⟩ | ⟨hdepth, hshort, ⟨ahead, hl⟩, heq⟩
  · rw [heq]
    exact ⟨hid, hlen, rfl, rfl, rfl, hchain, hw⟩
  · rw [heq]
    refine superseding_walkEnd hchain hid hlen ?_
    have hne : nodes' ≠ [] := by
      rintro rfl
      exact h.chain.ne_nil hl.symm
    have hfull := planWrite_full w len head hunlink hne hcls
    rw [hl] at hfull
    rcases hfull with ⟨hlimit, herr⟩ | ⟨-, plan, hok, -, -, hplan⟩
    · rw [herr]
      exact fun _ _ => hlimit
    · rw [hok]
      exact hplan
  · rw [heq]
    refine superseding_walkEnd hchain hid hlen ?_
    have hcut := planWrite_truncated cfg w len head ahead hdepth
    rw [← hl] at hcut
    split
    · next plan hok =>
      rw [hok] at hcut
      exact hcut
    · exact fun _ hw => absurd (hchain.ended hw) hshort

theorem PlanFor.published {base : Nat} {plan : WritePlan} {calls : Nat → CallPc}
    (h : PlanFor w l plan) (hstart : 0 < cfg.stripe.dataStart) (hlen : kHeaderSize ≤ len)
    (hchain : VisibleChain cfg s l) (harea : SlotArea cfg s base (base + len))
    (hbelow : ∀ n ∈ l, n.offset < base) :
    ∃ head gone back, Splicing cfg
      (published s (cfg.snapshot s).pass w len plan base (cfg.snapshot s).phase calls)
      w l strict plan.repoints head gone [] back := by
  obtain ⟨hcarried, gone, back, hl, hgone, hkeeper, hnext, htodo, hroom⟩ := h
  have hoffsets : back.map ChainNode.relOffset = (back.map ChainNode.shown).map Shown.offset := by
    rw [List.map_map]
    rfl
  have hsize : carriedSize plan.carried = 0 := by
    rw [hcarried]
    rfl
  have hseg : Segment cfg s (back.map ChainNode.shown) := by
    have hseg := hchain.toSegment
    rw [hl] at hseg
    exact hseg.suffix gone
  have hpub := hseg.publish w calls hstart (.of_no_carry hlen hcarried)
    (by rw [hsize, Nat.zero_add]; exact harea)
    (fun n hn => hbelow n (by rw [hl]; exact List.mem_append_right gone hn))
    (fun _ => by rw [hnext, hoffsets]) (fun hne => absurd hcarried hne)
  rw [hcarried] at hpub
  refine ⟨_, gone, back, hpub, ⟨rfl, rfl, hbelow⟩, hl, List.nil_sublist gone, ?_, nofun, hkeeper,
    htodo, ?_⟩
  · intro hdepth
    have : gone.filter (·.id != w) = [] := by
      rw [List.filter_eq_nil_iff]
      intro n hn
      simp [hgone hdepth n hn]
    rw [this]
  · refine hroom.imp_right fun hback => ?_
    rw [hback]
    rfl

theorem VisibleChain.repointChainLink (h : VisibleChain cfg s l) {n : Shown} (hn : n ∈ l)
    (newNext : Nat) : repointChainLink cfg s n.offset n.id newNext =
      some (s.storeLink n.offset newNext) := by
  obtain ⟨⟨d, hd, hid, -, hst⟩, hin, hbehind⟩ := h.shown n hn
  have hnow : cfg.nodeAdmissibleNow s n.offset d = true := by
    simp only [ChainConfig.nodeAdmissibleNow, hin, Bool.not_true, Bool.false_eq_true, if_false]
    cases hret : cfg.stripe.retain with
    | false => simpa using hbehind
    | true =>
      have hws : d.writeSerial = (cfg.snapshot s).pass % 2 ^ 32 := by
        have hst' : cfg.stripe.stampAdmits (cfg.snapshot s) .kCurrent d.writeSerial = true := hst
        simpa [Stripe.stampAdmits, hret, Stripe.expectedPass] using hst'
      simp only [Bool.not_true, Bool.false_eq_true, if_false]
      rw [if_pos hws]
      exact decide_eq_true hbehind
  simp only [CycloneCache.Ref.repointChainLink, hd]
  rw [if_pos ⟨hid, hnow⟩]

theorem Splicing.store {r : PendingRepoint}
    (h : Splicing cfg s w l strict (r :: rs) head gone front back)
    (hstart : 0 < cfg.stripe.dataStart) :
    ∃ s', repointChainLink cfg s r.predRel r.predId r.newNext = some s' ∧
      ∃ gone front back, Splicing cfg s' w l strict rs head gone front back := by
  obtain ⟨hchain, hhead, hl, hsub, hkeeps, hclean, hkeeper, htodo, hroom⟩ := h
  cases back with
  | nil => cases htodo
  | cons keeper ns =>
    obtain ⟨skipped, k, cut, rest, heq, hskip, hk, hcut, hrest, hr, hrs⟩ :=
      @planRepoints_cons w keeper [] ns r rs (hkeeper keeper rfl) nofun htodo.symm
    rw [List.nil_append] at heq
    have hshown : (keeper :: ns).map ChainNode.shown = skipped.map ChainNode.shown ++
        k.shown :: (cut.map ChainNode.shown ++ rest.map ChainNode.shown) := by
      rw [heq, List.map_append, List.map_cons, List.map_append]
    have hchain' : VisibleChain cfg s ((head :: (front ++ skipped.map ChainNode.shown)) ++
        k.shown :: (cut.map ChainNode.shown ++ rest.map ChainNode.shown)) := by
      rw [hshown] at hchain
      simpa only [List.cons_append, List.append_assoc] using hchain
    have hstore := hchain'.storeLink hstart
    have hrepoint := hchain'.repointChainLink (List.mem_append_right _ List.mem_cons_self) r.newNext
    have hnext : r.newNext = ((rest.map ChainNode.shown).map Shown.offset).head?.getD 0 := by
      rw [hr, List.map_map]
      rfl
    rw [← hnext] at hstore
    refine ⟨s.storeLink k.shown.offset r.newNext, ?_, gone ++ (skipped.map ChainNode.shown ++
      k.shown :: cut.map ChainNode.shown), front ++ (skipped.map ChainNode.shown ++ [k.shown]),
      rest, ?_, ⟨hhead.id, hhead.newest, hhead.past⟩, ?_, ?_, ?_, ?_, hrest, hrs, ?_⟩
    · rw [hr] at hrepoint ⊢
      exact hrepoint
    · simpa only [List.cons_append, List.append_assoc, List.singleton_append, List.nil_append]
        using hstore
    · rw [hl, hshown]
      simp only [List.append_assoc, List.cons_append]
    · exact hsub.append ((List.Sublist.refl _).append ((List.nil_sublist _).cons_cons k.shown))
    · intro hdepth
      rw [List.filter_append]
      refine (hkeeps hdepth).append ?_
      have hcutnil : (cut.map ChainNode.shown).filter (·.id != w) = [] := by
        rw [List.filter_eq_nil_iff]
        intro n hn
        obtain ⟨c, hc, rfl⟩ := List.mem_map.mp hn
        simp [ChainNode.shown, hcut c hc]
      rw [List.filter_append, List.filter_cons, hcutnil]
      refine List.filter_sublist.append ?_
      split
      · exact List.Sublist.refl _
      · exact List.nil_sublist _
    · intro hstrict n hn
      rcases List.mem_append.mp hn with hn | hn
      · exact hclean hstrict n hn
      · rcases List.mem_append.mp hn with hn | hn
        · obtain ⟨c, hc, rfl⟩ := List.mem_map.mp hn
          exact hskip c hc
        · rw [List.mem_singleton.mp hn]
          exact hk
    · refine hroom.imp_right fun hnil => ?_
      simp at hnil

theorem Splicing.done (h : Splicing cfg s w l strict [] head gone front back) :
    Reduced w l strict (front ++ back.map ChainNode.shown) := by
  have hback := remaining_nil h.todo.symm h.keeper
  refine ⟨?_, ?_, ?_⟩
  · rw [h.split]
    exact h.sub.append (List.Sublist.refl _)
  · intro hdepth
    have hkeeps := h.keeps hdepth
    rw [h.split, List.filter_append]
    exact hkeeps.append List.filter_sublist
  · intro hstrict n hn
    rcases List.mem_append.mp hn with hn | hn
    · exact h.clean hstrict n hn
    · obtain ⟨c, hc, rfl⟩ := List.mem_map.mp hn
      exact hback c hc

theorem NewHead.of_same (h : NewHead s w l head) (hbodies : s'.bodies = s.bodies) :
    NewHead s' w l head :=
  ⟨h.id, h.newest.trans hbodies.symm, h.past⟩

theorem Splicing.of_same (h : Splicing cfg s w l strict rs head gone front back)
    (hdocs : s'.docs = s.docs) (hentry : s'.entry = s.entry) (hcursor : s.cursor ≤ s'.cursor)
    (hbodies : s'.bodies = s.bodies) : Splicing cfg s' w l strict rs head gone front back :=
  { h with
    chain := h.chain.of_same hdocs hentry hcursor
    head := h.head.of_same hbodies }

theorem Superseding.of_same {pc : CallPc} (h : Superseding cfg w l strict walked s pc)
    (hdocs : s'.docs = s.docs) (hentry : s'.entry = s.entry) (hcursor : s'.cursor = s.cursor)
    (hbodies : s'.bodies = s.bodies) : Superseding cfg w l strict walked s' pc := by
  have hle : s.cursor ≤ s'.cursor := hcursor.ge
  have hsnap : cfg.snapshot s' = cfg.snapshot s := by
    rw [ChainConfig.snapshot, hcursor]
    rfl
  have hclean : EndsClean cfg s' l ↔ EndsClean cfg s l := by
    simp only [EndsClean, hdocs, hsnap]
  cases pc with
  | returned r =>
    cases r with
    | ok =>
      obtain ⟨head, front, hc, hhead, hrest⟩ := h
      exact ⟨head, front, hc.of_same hdocs hentry hle, hhead.of_same hbodies, hrest⟩
    | error e => exact ⟨h.1.of_same hdocs hentry hle, h.2⟩
  | writeResolve => exact ⟨h.1, h.2.1, h.2.2.of_same hdocs hentry hle⟩
  | writeProbe =>
    exact ⟨h.1, h.2.1, h.2.2.1.trans hsnap.symm, h.2.2.2.of_same hdocs hentry hle⟩
  | writeWalk id len retries snap head headCls cls nodes current =>
    obtain ⟨hid, hlen, hs, hh, hc, hold, hw⟩ := h
    refine ⟨hid, hlen, hs.trans hsnap.symm, hh, hc, hold.of_same hdocs hentry hle,
      hw.chain.of_same hdocs hentry hle, hw.cls, ?_⟩
    obtain ⟨ahead, hl, hat⟩ := hw.seen
    rw [hdocs, hclean]
    exact ⟨ahead, hl, hat⟩
  | writeFill => exact ⟨h.1, h.2.1, h.2.2.1.of_same hdocs hentry hle, h.2.2.2⟩
  | writePublish =>
    obtain ⟨hid, hlen, hc, hplan, harea, hbelow⟩ := h
    refine ⟨hid, hlen, hc.of_same hdocs hentry hle, hplan, ?_, hbelow⟩
    exact ⟨harea.low, harea.fits.trans hle, harea.size⟩
  | writeSplice =>
    obtain ⟨head, gone, front, back, hs⟩ := h
    exact ⟨head, gone, front, back, hs.of_same hdocs hentry hle hbodies⟩
  | removeResolve | removeProbe | removeWalk | removeStore => exact h

theorem Superseding.setCall {pc : CallPc} (h : Superseding cfg w l strict walked s pc) (p : Nat) :
    Superseding cfg w l strict walked (s.setCall p pc) ((s.setCall p pc).calls p) := by
  rw [setCall_calls]
  exact h.of_same rfl rfl rfl rfl

theorem superseding_retry (hlen : kHeaderSize ≤ len) (hchain : OldChain cfg walked s l) :
    Superseding cfg w l strict walked s (retryWrite w len retries) := by
  unfold retryWrite
  split
  · exact ⟨hchain, nofun⟩
  · exact ⟨rfl, hlen, hchain⟩

theorem probe_eq {e : HeadEntry} {cls : AdmitClass} (he : s.entry = some e)
    (hcls : cfg.classify e (cfg.snapshot s) = cls) (hne : cls ≠ .kReject) :
    cfg.probe s (cfg.snapshot s) = some (e, cls) := by
  simp only [ChainConfig.probe, he, hcls]
  rw [if_neg hne]

/-- The entry of a visible chain is current and its document of this pass. -/
theorem VisibleChain.probed (hchain : VisibleChain cfg s l) :
    ∃ e, s.entry = some e ∧ cfg.classify e (cfg.snapshot s) = .kCurrent ∧
      (l.map Shown.offset).head? = some e.offset ∧
      ((s.docs e.offset).any fun d =>
        cfg.stripe.stampAdmits (cfg.snapshot s) .kCurrent d.writeSerial) = true := by
  obtain ⟨e, he, hcls, hhead⟩ := hchain.start
  obtain ⟨n, rest, rfl⟩ := List.exists_cons_of_ne_nil hchain.ne_nil
  obtain ⟨d, hd, -, -, hst⟩ := (hchain.shown n List.mem_cons_self).doc
  have hoff : n.offset = e.offset := Option.some.inj hhead
  refine ⟨e, he, hcls, hhead, ?_⟩
  rw [← hoff, hd]
  exact hst

theorem superseding_probe (hid : id = w) (hlen : kHeaderSize ≤ len)
    (hchain : OldChain cfg walked s l) :
    Superseding cfg w l strict walked s (match cfg.probe s (cfg.snapshot s) with
        | none => .writeFill id len retries ⟨none, false, none, 0, [], []⟩
        | some (e, cls) =>
          if (s.docs e.offset).any fun d =>
            cfg.stripe.stampAdmits (cfg.snapshot s) cls d.writeSerial
          then .writeWalk id len retries (cfg.snapshot s) e.offset cls cls [] e.offset
          else .writeFill id len retries ⟨none, false, some e.offset, 0, [], []⟩) := by
  obtain ⟨e, he, hcls, hhead, hany⟩ := hchain.probed
  simp only [probe_eq he hcls nofun, hany, if_true]
  exact ⟨hid, hlen, rfl, rfl, rfl, hchain, hchain.toVisibleChain, nofun, l, rfl, .inl hhead⟩

theorem superseding_fill {plan : WritePlan} (hlen : kHeaderSize ≤ len)
    (hchain : OldChain cfg walked s l) (hplan : PlanFor w l plan)
    (hstep : writeFillStep cfg s p w len retries plan = some s') :
    Superseding cfg w l strict walked s' (s'.calls p) := by
  have hsize : carriedSize plan.carried = 0 := by
    rw [hplan.carried]
    rfl
  have hbehind : ∀ n ∈ l, n.offset < s.cursor := fun n hn =>
    lt_of_lt_of_le (hchain.shown n hn).behind (cursorRel_le cfg s)
  simp only [writeFillStep, hsize, Nat.zero_add] at hstep
  split at hstep
  · cases hstep
    exact (superseding_retry hlen hchain).setCall p
  · split at hstep <;> cases hstep
    next hroom =>
    have hround := le_roundUp8 len
    apply Superseding.setCall
    refine ⟨rfl, hlen, hchain.of_same rfl rfl (Nat.le_add_right _ _), hplan, ⟨?_, ?_, ?_⟩, hbehind⟩
    · obtain ⟨n, rest, rfl⟩ := List.exists_cons_of_ne_nil hchain.ne_nil
      have hin := (hchain.shown n List.mem_cons_self).inArea
      have hlow := hbehind n List.mem_cons_self
      simp only [Stripe.inDataArea, Bool.and_eq_true, decide_eq_true_eq] at hin
      omega
    · exact Nat.add_le_add_left hround s.cursor
    · exact hroom.trans (runwayEnd_le_size cfg)

theorem Superseding.step (hunlink : cfg.unlinkSupersededAlternates = true)
    (hstart : 0 < cfg.stripe.dataStart) (h : Superseding cfg w l strict walked s (s.calls p))
    (hstep : callStep cfg s p = some s') : Superseding cfg w l strict walked s' (s'.calls p) := by
  unfold callStep at hstep
  cases hpc : s.calls p with
  | returned r =>
    rw [hpc] at hstep
    cases hstep
  | removeResolve | removeProbe | removeWalk | removeStore =>
    rw [hpc] at h
    exact h.elim
  | writeResolve id len retries =>
    rw [hpc] at h hstep
    cases hstep
    apply Superseding.setCall
    exact ⟨h.1, h.2.1, rfl, h.2.2⟩
  | writeProbe id len retries snap =>
    rw [hpc] at h hstep
    obtain ⟨hid, hlen, rfl, hchain⟩ := h
    cases hstep
    exact (superseding_probe hid hlen hchain).setCall p
  | writeWalk id len retries snap head headCls cls nodes current =>
    rw [hpc] at h hstep
    obtain ⟨hid, hlen, rfl, rfl, rfl, hchain, hw⟩ := h
    cases hstep
    exact (hw.superseding hunlink hid hlen hchain).setCall p
  | writeFill id len retries plan =>
    rw [hpc] at h hstep
    obtain ⟨rfl, hlen, hchain, hplan⟩ := h
    exact superseding_fill hlen hchain hplan hstep
  | writePublish id len retries plan base =>
    rw [hpc] at h hstep
    obtain ⟨rfl, hlen, hchain, hplan, harea, hbelow⟩ := h
    cases hstep
    unfold writePublishStep
    split
    · obtain ⟨head, gone, back, hs⟩ := hplan.published hstart hlen hchain.toVisibleChain harea
        hbelow
      simp only [Function.update_self]
      exact ⟨head, gone, [], back, hs⟩
    · exact (superseding_retry hlen hchain).setCall p
  | writeSplice rs =>
    rw [hpc] at h hstep
    obtain ⟨head, gone, front, back, hs⟩ := h
    cases rs with
    | nil =>
      cases hstep
      apply Superseding.setCall
      exact ⟨head, _, hs.chain, hs.head, hs.done, hs.room⟩
    | cons r rs =>
      obtain ⟨s₁, hstore, gone', front', back', hs'⟩ := hs.store hstart
      simp only [hstore, Option.getD_some] at hstep
      cases hstep
      apply Superseding.setCall
      exact ⟨head, gone', front', back', hs'⟩

theorem write_superseding (hchain : OldChain cfg walked s l)
    (hstep : chainStep cfg s (.write p w len) = some s') :
    Superseding cfg w l strict walked s' (s'.calls p) := by
  simp only [chainStep] at hstep
  split at hstep
  · split at hstep <;> cases hstep
    next hlen =>
    apply Superseding.setCall
    exact ⟨rfl, hlen, hchain⟩
  · cases hstep

theorem Superseding.run (hunlink : cfg.unlinkSupersededAlternates = true)
    (hstart : 0 < cfg.stripe.dataStart) {n : Nat} (h : Superseding cfg w l strict walked s (s.calls p))
    (hrun : runs (chainStep cfg) s (List.replicate n (.step p)) = some s') :
    Superseding cfg w l strict walked s' (s'.calls p) := by
  let inv : ChainState → Prop := fun s => Superseding cfg w l strict walked s (s.calls p)
  have hstep : ∀ a ∈ List.replicate n (ChainAct.step p), ∀ s s', inv s →
      chainStep cfg s a = some s' → inv s' := by
    intro a ha s₁ s₂ hi hstep
    rw [List.eq_of_mem_replicate ha] at hstep
    exact Superseding.step hunlink hstart hi hstep
  have hinv : inv s' := runs_inv_mem hstep hrun h
  exact hinv

theorem splice_finishes (h : s.calls p = .writeSplice rs) :
    ∃ s', runs (chainStep cfg) s (List.replicate rs.length (.step p)) = some s' ∧
      s'.calls p = .writeSplice [] ∧ s'.cursor = s.cursor := by
  induction rs generalizing s with
  | nil => exact ⟨s, rfl, h, rfl⟩
  | cons r rs ih =>
    have hstep : chainStep cfg s (.step p) = some (((repointChainLink cfg s r.predRel r.predId
        r.newNext).getD s).setCall p (.writeSplice rs)) := by
      simp only [chainStep, callStep, h]
    have hcursor : ((repointChainLink cfg s r.predRel r.predId r.newNext).getD s).cursor =
        s.cursor := by
      cases hstore : repointChainLink cfg s r.predRel r.predId r.newNext with
      | none => rfl
      | some s₁ =>
        rw [(repointChainLink_some hstore).1]
        rfl
    obtain ⟨s', hrun, hdone, hsame⟩ := ih (setCall_calls _ p (.writeSplice rs))
    refine ⟨s', ?_, hdone, hsame.trans hcursor⟩
    rw [List.length_cons, List.replicate_succ, runs_cons, hstep]
    exact hrun

end Steps

/-- A write alone on a chain that its walk sees to the end: from the publish
on, whatever part of its links is stored, the chain is the new document
before the old nodes in their order, none of another id missing; and when all
are stored, exactly those are left. -/
theorem supersede_exact {cfg : ChainConfig} {s s' : ChainState} {p w len n : Nat}
    {l : List Shown} {rs : List PendingRepoint}
    (hunlink : cfg.unlinkSupersededAlternates = true) (hstart : 0 < cfg.stripe.dataStart)
    (hchain : VisibleChain cfg s l) (hdepth : l.length ≤ kMaxChainTraversalDepth)
    (hrun : runs (chainStep cfg) s (.write p w len :: List.replicate n (.step p)) = some s')
    (hcall : s'.calls p = .writeSplice rs) :
    (∃ head front, VisibleChain cfg s' (head :: front) ∧ NewHead s' w l head ∧
      (l.filter (·.id != w)).Sublist front ∧ front.Sublist l ∧
      (head :: front).Pairwise fun a b => b.offset < a.offset) ∧
    ∃ s'', runs (chainStep cfg) s' (List.replicate rs.length (.step p)) = some s'' ∧
      s''.calls p = .writeSplice [] ∧
      ∃ head, VisibleChain cfg s'' (head :: l.filter (·.id != w)) ∧ NewHead s'' w l head := by
  obtain ⟨s₁, hwrite, hsteps⟩ := runs_cons_some hrun
  have hold : OldChain cfg False s l := ⟨hchain, False.elim⟩
  have hinit : Superseding cfg w l true False s₁ (s₁.calls p) := write_superseding hold hwrite
  have hnow := hinit.run hunlink hstart hsteps
  obtain ⟨s'', hrest, hdone, -⟩ := @splice_finishes cfg s' p rs hcall
  have hend := hnow.run hunlink hstart hrest
  rw [hcall] at hnow
  rw [hdone] at hend
  obtain ⟨head, gone, front, back, hs⟩ := hnow
  refine ⟨⟨head, front ++ back.map ChainNode.shown, hs.chain, hs.head, ?_, ?_, hs.chain.sorted⟩,
    s'', hrest, hdone, ?_⟩
  · have hkeeps := hs.keeps hdepth
    rw [hs.split, List.filter_append]
    exact hkeeps.append List.filter_sublist
  · rw [hs.split]
    exact hs.sub.append (List.Sublist.refl _)
  · obtain ⟨head', gone', front', back', hs'⟩ := hend
    have hreduced := hs'.done
    have hexact : front' ++ back'.map ChainNode.shown = l.filter (·.id != w) := by
      refine List.Sublist.antisymm ?_ (hreduced.keeps hdepth)
      have hfilter := hreduced.sub.filter (·.id != w)
      rwa [List.filter_eq_self.mpr fun n hn => bne_iff_ne.mpr (hreduced.clean rfl n hn)] at hfilter
    exact ⟨head', hexact ▸ hs'.chain, hs'.head⟩

def repeatedAlternate : ChainState :=
  chainOf [(8, ⟨2, 0, 132, 0, 0⟩), (144, ⟨3, 8, 132, 0, 1⟩), (280, ⟨2, 144, 132, 0, 2⟩),
    (416, ⟨2, 280, 132, 0, 3⟩), (552, ⟨1, 416, 132, 0, 4⟩)] 552 688

def repeatedChain : List Shown :=
  [⟨552, 1, 4⟩, ⟨416, 2, 3⟩, ⟨280, 2, 2⟩, ⟨144, 3, 1⟩, ⟨8, 2, 0⟩]

theorem repeatedAlternate_chain : VisibleChain smallChain repeatedAlternate repeatedChain := by
  refine ⟨⟨?_, ?_, ?_⟩, ⟨552, false⟩, rfl, by decide, rfl⟩
  · intro n hn
    simp only [repeatedChain, List.mem_cons, List.not_mem_nil, or_false] at hn
    rcases hn with rfl | rfl | rfl | rfl | rfl
    all_goals exact ⟨⟨_, rfl, rfl, rfl, by decide⟩, by decide, by decide⟩
  · exact ⟨rfl, by decide, by decide, by decide, by decide, rfl⟩
  · intro n hn d hd
    simp only [repeatedChain, List.mem_cons, List.not_mem_nil, or_false] at hn
    rcases hn with rfl | rfl | rfl | rfl | rfl
    all_goals
      cases hd
      decide

/-- Alternate 2 is written again: two links are to be stored. -/
theorem supersede_exact_repeated : ∃ s' rs, runs (chainStep smallChain) repeatedAlternate
        (.write 0 2 132 :: List.replicate 9 (.step 0)) = some s' ∧
      s'.calls 0 = .writeSplice rs ∧ rs.length = 2 ∧
      (∃ head front, VisibleChain smallChain s' (head :: front) ∧ NewHead s' 2 repeatedChain head ∧
        (repeatedChain.filter (·.id != 2)).Sublist front ∧ front.Sublist repeatedChain ∧
        (head :: front).Pairwise fun a b => b.offset < a.offset) ∧
      ∃ s'', runs (chainStep smallChain) s' (List.replicate rs.length (.step 0)) = some s'' ∧
        s''.calls 0 = .writeSplice [] ∧
        ∃ head, VisibleChain smallChain s'' (head :: repeatedChain.filter (·.id != 2)) ∧
          NewHead s'' 2 repeatedChain head := by
  obtain ⟨s', hrun, hcall⟩ : ∃ s', runs (chainStep smallChain) repeatedAlternate (.write 0 2 132 ::
      List.replicate 9 (.step 0)) = some s' ∧ s'.calls 0 = .writeSplice [⟨552, 144, 1, 2⟩, ⟨144, 0,
      3, 1⟩] := by decide +kernel
  exact ⟨s', _, hrun, hcall, rfl, supersede_exact rfl (by decide) repeatedAlternate_chain
    (by decide) hrun hcall⟩

end CycloneCache.Ref

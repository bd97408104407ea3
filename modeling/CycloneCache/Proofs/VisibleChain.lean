import CycloneCache.Proofs.ChainRemoval

namespace CycloneCache.Ref

open Lib Function

variable {cfg : ChainConfig} {s s' : ChainState}

structure Shown where
  offset : Nat
  id : Nat
  body : Nat
  deriving DecidableEq

def ChainNode.shown (n : ChainNode) : Shown := ⟨n.relOffset, n.id, n.body⟩

namespace ChainConfig

def stamped (cfg : ChainConfig) (d : AltDoc) : Bool :=
  cfg.stripe.stampAdmits (cfg.stripe.snapshot cfg.gen 0) .kCurrent d.writeSerial

def hop (cfg : ChainConfig) (s : ChainState) (o next : Nat) : Option Nat :=
  if next = 0 ∨ cfg.stripe.admitHop next o .kCurrent (cfg.snapshot s) = .kReject then none
  else if (s.docs next).any cfg.stamped then some next else none

def visibleNext (cfg : ChainConfig) (s : ChainState) (o : Nat) : Option Nat :=
  (s.docs o).bind fun d => cfg.hop s o d.nextAlternateOffset

end ChainConfig

structure Shows (cfg : ChainConfig) (s : ChainState) (n : Shown) : Prop where
  doc : ∃ d, s.docs n.offset = some d ∧ d.alternateId = n.id ∧ d.body = n.body ∧
    cfg.stamped d = true
  inArea : cfg.stripe.inDataArea n.offset = true
  behind : n.offset < (cfg.snapshot s).cursorRel

structure Segment (cfg : ChainConfig) (s : ChainState) (l : List Shown) : Prop where
  shown : ∀ n ∈ l, Shows cfg s n
  path : IsPath (cfg.visibleNext s) (l.map Shown.offset).head? (l.map Shown.offset)
  mapped : ∀ n ∈ l, ∀ d, s.docs n.offset = some d → d.nextAlternateOffset ≠ 0 →
    cfg.stripe.admitHop d.nextAlternateOffset n.offset .kCurrent (cfg.snapshot s) ≠ .kReject →
    s.docs d.nextAlternateOffset ≠ none

structure VisibleChain (cfg : ChainConfig) (s : ChainState) (l : List Shown) : Prop
    extends Segment cfg s l where
  start : ∃ e, s.entry = some e ∧ cfg.classify e (cfg.snapshot s) = .kCurrent ∧
    (l.map Shown.offset).head? = some e.offset

variable {snap : StripeSnapshot} {st : Stripe} {o base : Nat} {d : AltDoc}

theorem admitHop_kCurrent {target source : Nat} :
    st.admitHop target source .kCurrent snap ≠ .kReject ↔
      target ≠ 0 ∧ st.inDataArea target = true ∧ target < source ∧ target < snap.cursorRel := by
  simp only [Stripe.admitHop]
  grind

theorem admitHop_kCurrent_eq {target source : Nat}
    (h : st.admitHop target source .kCurrent snap ≠ .kReject) :
    st.admitHop target source .kCurrent snap = .kCurrent := by
  obtain ⟨hne, hin, hlt, hbehind⟩ := admitHop_kCurrent.mp h
  exact Stripe.admitHop_kCurrent.mpr ⟨hne, hin, hlt, rfl, hbehind⟩

theorem hop_eq_some {next m : Nat} : cfg.hop s o next = some m ↔
      m = next ∧ next ≠ 0 ∧ cfg.stripe.inDataArea next = true ∧ next < o ∧
        next < (cfg.snapshot s).cursorRel ∧ (s.docs next).any cfg.stamped = true := by
  unfold ChainConfig.hop
  have hadmit := @admitHop_kCurrent (cfg.snapshot s) cfg.stripe next o
  split
  · next h =>
    grind
  · next h =>
    split <;> grind

theorem visibleNext_lt {x y : Nat} (h : cfg.visibleNext s x = some y) : y < x := by
  obtain ⟨d, -, hhop⟩ := Option.bind_eq_some_iff.mp h
  obtain ⟨rfl, -, -, hlt, -⟩ := hop_eq_some.mp hhop
  exact hlt

theorem hop_congr {next : Nat}
    (hlow : ∀ x, x < o → (s'.docs x).any cfg.stamped = (s.docs x).any cfg.stamped)
    (ho : o ≤ (cfg.snapshot s).cursorRel) (ho' : o ≤ (cfg.snapshot s').cursorRel) :
    cfg.hop s' o next = cfg.hop s o next := by
  apply Option.ext
  intro m
  rw [hop_eq_some, hop_eq_some]
  constructor
  · rintro ⟨rfl, hne, hin, hlt, -, hst⟩
    exact ⟨rfl, hne, hin, hlt, by omega, by rwa [← hlow m hlt]⟩
  · rintro ⟨rfl, hne, hin, hlt, -, hst⟩
    exact ⟨rfl, hne, hin, hlt, by omega, by rwa [hlow m hlt]⟩

theorem cursorRel_le (cfg : ChainConfig) (s : ChainState) :
    (cfg.snapshot s).cursorRel ≤ s.cursor := Nat.min_le_left _ _

theorem cursorRel_mono (cfg : ChainConfig) (h : s.cursor ≤ s'.cursor) :
    (cfg.snapshot s).cursorRel ≤ (cfg.snapshot s').cursorRel := by
  simp only [ChainConfig.snapshot, Stripe.snapshot]
  omega

variable {n : Shown}

theorem Shows.congr (h : Shows cfg s n)
    (hdoc : ∀ d, s.docs n.offset = some d → ∃ d', s'.docs n.offset = some d' ∧
      d'.alternateId = d.alternateId ∧ d'.body = d.body ∧ d'.writeSerial = d.writeSerial)
    (hcursor : s.cursor ≤ s'.cursor) : Shows cfg s' n := by
  obtain ⟨⟨d, hd, hid, hbody, hst⟩, hin, hbehind⟩ := h
  obtain ⟨d', hd', hid', hbody', hws⟩ := hdoc d hd
  refine ⟨⟨d', hd', hid'.trans hid, hbody'.trans hbody, ?_⟩, hin, ?_⟩
  · simpa only [ChainConfig.stamped, hws] using hst
  · exact lt_of_lt_of_le hbehind (cursorRel_mono cfg hcursor)

theorem Shows.ne_zero (h : Shows cfg s n) (hstart : 0 < cfg.stripe.dataStart) : n.offset ≠ 0 := by
  have := h.inArea
  simp only [Stripe.inDataArea, Bool.and_eq_true, decide_eq_true_eq] at this
  omega

theorem Segment.nil : Segment cfg s [] := ⟨nofun, rfl, nofun⟩

theorem Segment.suffix (l₁ : List Shown) {l₂ : List Shown} (h : Segment cfg s (l₁ ++ l₂)) :
    Segment cfg s l₂ := by
  refine ⟨fun n hn => h.shown n (List.mem_append_right l₁ hn), ?_,
    fun n hn => h.mapped n (List.mem_append_right l₁ hn)⟩
  have hpath := h.path
  rw [List.map_append] at hpath
  exact hpath.suffix (l₁.map Shown.offset)

variable {l : List Shown}

theorem Segment.sorted (h : Segment cfg s l) : l.Pairwise fun a b => b.offset < a.offset := by
  induction l with
  | nil => exact List.Pairwise.nil
  | cons n l ih =>
    refine List.pairwise_cons.mpr ⟨?_, ih (h.suffix [n])⟩
    intro m hm
    exact IsPath.lt_of_mem (fun _ _ => visibleNext_lt) h.path.2 (List.mem_map_of_mem hm)

theorem Segment.frame {b : Nat} (h : Segment cfg s l) (hbelow : ∀ n ∈ l, n.offset < b)
    (hdocs : ∀ o, o < b → s'.docs o = s.docs o) (hcursor : s.cursor ≤ s'.cursor) :
    Segment cfg s' l := by
  have hcur : ∀ n ∈ l, n.offset ≤ (cfg.snapshot s').cursorRel := fun n hn =>
    (h.shown n hn).behind.le.trans (cursorRel_mono cfg hcursor)
  refine ⟨?_, ?_, ?_⟩
  · intro n hn
    refine (h.shown n hn).congr (fun d hd => ⟨d, ?_, rfl, rfl, rfl⟩) hcursor
    rw [hdocs _ (hbelow n hn), hd]
  · refine h.path.congr ?_
    intro o ho
    obtain ⟨n, hn, rfl⟩ := List.mem_map.mp ho
    simp only [ChainConfig.visibleNext, hdocs _ (hbelow n hn)]
    refine Option.bind_congr fun d _ => hop_congr ?_ (h.shown n hn).behind.le (hcur n hn)
    intro x hx
    rw [hdocs x (Nat.lt_trans hx (hbelow n hn))]
  · intro n hn d hd hne hadmit
    rw [hdocs _ (hbelow n hn)] at hd
    obtain ⟨-, hin, hlt, -⟩ := admitHop_kCurrent.mp hadmit
    rw [hdocs _ (Nat.lt_trans hlt (hbelow n hn))]
    refine h.mapped n hn d hd hne ?_
    exact admitHop_kCurrent.mpr ⟨hne, hin, hlt, Nat.lt_trans hlt (h.shown n hn).behind⟩

theorem VisibleChain.of_same (h : VisibleChain cfg s l) (hdocs : s'.docs = s.docs)
    (hentry : s'.entry = s.entry) (hcursor : s.cursor ≤ s'.cursor) : VisibleChain cfg s' l := by
  refine ⟨h.frame (b := s.cursor) ?_ (fun o _ => by rw [hdocs]) hcursor, ?_⟩
  · exact fun n hn => lt_of_lt_of_le (h.shown n hn).behind (cursorRel_le cfg s)
  · obtain ⟨e, he, hcls, hhead⟩ := h.start
    refine ⟨e, hentry.trans he, ?_, hhead⟩
    obtain ⟨hin, hphase, hlt⟩ := Stripe.admitPosition_kCurrent.mp hcls
    refine Stripe.admitPosition_kCurrent.mpr ⟨hin, hphase, ?_⟩
    exact lt_of_lt_of_le hlt (cursorRel_mono cfg hcursor)

theorem Segment.cons (h : Segment cfg s l) (hstart : 0 < cfg.stripe.dataStart) (hn : Shows cfg s n)
    (hd : s.docs n.offset = some d)
    (hlink : d.nextAlternateOffset = ((l.map Shown.offset).head?).getD 0)
    (habove : ∀ m ∈ l, m.offset < n.offset) : Segment cfg s (n :: l) := by
  have hnext : cfg.visibleNext s n.offset = (l.map Shown.offset).head? := by
    simp only [ChainConfig.visibleNext, hd, Option.bind_some, hlink]
    cases l with
    | nil => rw [List.map_nil, List.head?_nil, Option.getD_none, ChainConfig.hop, if_pos (.inl rfl)]
    | cons m l =>
      have hm := h.shown m List.mem_cons_self
      obtain ⟨dm, hdm, -, -, hst⟩ := hm.doc
      rw [List.map_cons, List.head?_cons, Option.getD_some]
      refine hop_eq_some.mpr ⟨rfl, hm.ne_zero hstart, hm.inArea,
        habove m List.mem_cons_self, hm.behind, ?_⟩
      rw [hdm]
      exact hst
  refine ⟨?_, ⟨rfl, ?_⟩, ?_⟩
  · rintro m (_ | ⟨_, hm⟩)
    · exact hn
    · exact h.shown m hm
  · rw [hnext]
    exact h.path
  · rintro m (_ | ⟨_, hm⟩)
    · intro d' hd' hne _
      rw [hd] at hd'
      cases hd'
      cases l with
      | nil => exact absurd hlink hne
      | cons m l =>
        obtain ⟨dm, hdm, -⟩ := (h.shown m List.mem_cons_self).doc
        rw [hlink, List.map_cons, List.head?_cons, Option.getD_some, hdm]
        exact Option.some_ne_none dm
    · exact h.mapped m hm

theorem any_stamped_storeLink (s : ChainState) (pred newNext o : Nat) :
    ((s.storeLink pred newNext).docs o).any cfg.stamped = (s.docs o).any cfg.stamped := by
  by_cases ho : o = pred
  · rw [ho]
    cases hd : s.docs pred with
    | none => simp [ChainState.storeLink, hd]
    | some d => simp [ChainState.storeLink, hd, ChainConfig.stamped]
  · simp only [ChainState.storeLink, update_of_ne ho]

theorem Shows.storeLink (h : Shows cfg s n) (pred newNext : Nat) :
    Shows cfg (s.storeLink pred newNext) n := by
  refine h.congr (fun d hd => ?_) le_rfl
  by_cases hn : n.offset = pred
  · rw [hn] at hd
    exact ⟨{ d with nextAlternateOffset := newNext },
      by simp [ChainState.storeLink, hn, hd], rfl, rfl, rfl⟩
  · exact ⟨d, by simpa only [ChainState.storeLink, update_of_ne hn] using hd, rfl, rfl, rfl⟩

theorem VisibleChain.storeLink {l₀ cut rest : List Shown} {k : Shown}
    (h : VisibleChain cfg s (l₀ ++ k :: (cut ++ rest))) (hstart : 0 < cfg.stripe.dataStart) :
    VisibleChain cfg (s.storeLink k.offset ((rest.map Shown.offset).head?.getD 0))
      (l₀ ++ k :: rest) := by
  have hsub : (l₀ ++ k :: rest).Sublist (l₀ ++ k :: (cut ++ rest)) :=
    (List.Sublist.refl l₀).append ((List.sublist_append_right cut rest).cons_cons k)
  have hsorted := h.sorted
  have hk : k ∈ l₀ ++ k :: (cut ++ rest) := List.mem_append_right l₀ List.mem_cons_self
  obtain ⟨dk, hdk, -, -, hstk⟩ := (h.shown k hk).doc
  -- `k` is not met again
  have hfront : k.offset ∉ l₀.map Shown.offset := by
    intro hmem
    obtain ⟨n, hn, heq⟩ := List.mem_map.mp hmem
    have := (List.pairwise_append.mp hsorted).2.2 n hn k List.mem_cons_self
    omega
  have hrest : ∀ n ∈ rest, n.offset < k.offset := by
    intro n hn
    have htail := (List.pairwise_append.mp hsorted).2.1
    exact (List.pairwise_cons.mp htail).1 n (List.mem_append_right cut hn)
  have hback : k.offset ∉ rest.map Shown.offset := by
    intro hmem
    obtain ⟨n, hn, heq⟩ := List.mem_map.mp hmem
    have := hrest n hn
    omega
  set s' := s.storeLink k.offset ((rest.map Shown.offset).head?.getD 0) with hs'
  have hdoc : ∀ o, o ≠ k.offset → s'.docs o = s.docs o := by
    intro o ho
    simp only [hs', ChainState.storeLink, update_of_ne ho]
  have hdock : s'.docs k.offset =
      some { dk with nextAlternateOffset := (rest.map Shown.offset).head?.getD 0 } := by
    simp [hs', ChainState.storeLink, hdk]
  have hshown : ∀ n ∈ l₀ ++ k :: rest, Shows cfg s' n := fun n hn =>
    (h.shown n (hsub.mem hn)).storeLink _ _
  have hseg : Segment cfg s' (k :: rest) := by
    have hold : Segment cfg s rest := by
      have := h.toSegment
      rw [← List.cons_append, ← List.append_assoc] at this
      exact this.suffix _
    have hnew : Segment cfg s' rest :=
      hold.frame hrest (fun o ho => hdoc o (Nat.ne_of_lt ho)) le_rfl
    exact hnew.cons hstart (hshown k (List.mem_append_right l₀ List.mem_cons_self)) hdock rfl hrest
  refine ⟨⟨hshown, ?_, ?_⟩, ?_⟩
  · have hpath := h.path
    simp only [List.map_append, List.map_cons] at hpath ⊢
    have hsplice := hpath.splice_mid hfront hback
    have hhead : (l₀.map Shown.offset ++ k.offset :: (cut.map Shown.offset ++
        rest.map Shown.offset)).head? =
        (l₀.map Shown.offset ++ k.offset :: rest.map Shown.offset).head? := by
      cases l₀ <;> rfl
    rw [← hhead]
    refine hsplice.congr ?_
    intro o ho
    by_cases hok : o = k.offset
    · rw [hok, update_self]
      exact hseg.path.2.head?_eq.symm
    · rw [update_of_ne hok]
      simp only [ChainConfig.visibleNext, hdoc o hok]
      refine Option.bind_congr fun d _ => ?_
      have hbehind : o < (cfg.snapshot s).cursorRel := by
        rw [← List.map_cons, ← List.map_append] at ho
        obtain ⟨n, hn, rfl⟩ := List.mem_map.mp ho
        exact (h.shown n (hsub.mem hn)).behind
      exact hop_congr (fun x _ => any_stamped_storeLink s _ _ x) hbehind.le hbehind.le
  · intro n hn d hd hne hadmit
    by_cases hnk : n.offset = k.offset
    · exact hseg.mapped k List.mem_cons_self d (hnk ▸ hd) hne (hnk ▸ hadmit)
    · rw [hdoc _ hnk] at hd
      rw [hs', docs_storeLink_ne_none]
      exact h.mapped n (hsub.mem hn) d hd hne hadmit
  · obtain ⟨e, he, hcls, hhead⟩ := h.start
    refine ⟨e, he, hcls, ?_⟩
    rw [← hhead]
    cases l₀ <;> rfl

theorem runwayEnd_le_size (cfg : ChainConfig) : cfg.runwayEnd ≤ cfg.stripe.size := by
  unfold ChainConfig.runwayEnd
  split
  · exact cfg.stripe.frontierRelOf_le_size _
  · exact le_rfl

structure SlotArea (cfg : ChainConfig) (s : ChainState) (base stop : Nat) : Prop where
  low : cfg.stripe.dataStart ≤ base
  fits : stop ≤ s.cursor
  size : stop ≤ cfg.stripe.size

theorem SlotArea.shows {stop : Nat} (h : SlotArea cfg s base stop) (hlow : base ≤ n.offset)
    (hhigh : n.offset + kHeaderSize ≤ stop) (hd : s.docs n.offset = some d)
    (hid : d.alternateId = n.id) (hbody : d.body = n.body) (hst : cfg.stamped d = true) :
    Shows cfg s n := by
  obtain ⟨hstart, hfits, hsize⟩ := h
  have hpos : 0 < kHeaderSize := by decide
  refine ⟨⟨d, hd, hid, hbody, hst⟩, ?_, ?_⟩
  · simp only [Stripe.inDataArea, Bool.and_eq_true, decide_eq_true_eq]
    omega
  · simp only [ChainConfig.snapshot, Stripe.snapshot]
    omega

theorem stamped_of_pass (h : d.writeSerial = (cfg.snapshot s).pass % 2 ^ 32) :
    cfg.stamped d = true := by
  have hpass : d.writeSerial =
      Stripe.expectedPass .kCurrent (cfg.stripe.snapshot cfg.gen 0) % 2 ^ 32 := h
  simp only [ChainConfig.stamped, Stripe.stampAdmits, hpass, beq_self_eq_true, Bool.or_true]

theorem classify_of_shows (h : Shows cfg s n) :
    cfg.classify ⟨n.offset, (cfg.snapshot s).phase⟩ (cfg.snapshot s) = .kCurrent :=
  Stripe.admitPosition_kCurrent.mpr ⟨h.inArea, rfl, h.behind⟩

def shownOf (x : Nat × AltDoc) : Shown := ⟨x.1, x.2.alternateId, x.2.body⟩

theorem Segment.laid {stop below : Nat} {cs : List ChainNode} {acc : List Shown}
    (hstart : 0 < cfg.stripe.dataStart) (harea : SlotArea cfg s base stop)
    (hlen : ∀ c ∈ cs, kHeaderSize ≤ c.len) (hroom : base + carriedSize cs + kHeaderSize ≤ stop)
    (hdocs : ∀ x ∈ layCarried (cfg.snapshot s).pass base below cs, s.docs x.1 = some x.2)
    (hacc : Segment cfg s acc) (hbelow : ∀ n ∈ acc, n.offset < base)
    (hlink : below = (acc.map Shown.offset).head?.getD 0) :
    Segment cfg s ((layCarried (cfg.snapshot s).pass base below cs).reverse.map shownOf ++ acc) := by
  induction cs generalizing base below acc with
  | nil => exact hacc
  | cons c cs ih =>
    rw [carriedSize_cons] at hroom
    have hc := hlen c List.mem_cons_self
    have hpos := roundUp8_pos hc
    simp only [layCarried, List.mem_cons, forall_eq_or_imp] at hdocs
    obtain ⟨hdoc, hdocs⟩ := hdocs
    rw [layCarried, List.reverse_cons, List.map_append, List.append_assoc]
    have hlow := harea.low
    have habove : SlotArea cfg s (base + roundUp8 c.len) stop := ⟨by omega, harea.fits, harea.size⟩
    refine ih habove (fun c hc => hlen c (List.mem_cons_of_mem _ hc)) (by omega) hdocs ?_ ?_ rfl
    · refine hacc.cons hstart ?_ hdoc hlink hbelow
      exact harea.shows (n := ⟨base, c.id, c.body⟩) le_rfl (by simp only; omega) hdoc rfl
        rfl (stamped_of_pass (s := s) rfl)
    · rintro n (_ | ⟨_, hn⟩)
      · change base < base + roundUp8 c.len
        omega
      · have := hbelow n hn
        omega

theorem carriedTop_eq (pass base below : Nat) (cs : List ChainNode) : carriedTop base below cs =
      (((layCarried pass base below cs).reverse.map shownOf).map Shown.offset).head?.getD below := by
  induction cs generalizing base below with
  | nil => rfl
  | cons c cs ih =>
    rw [carriedTop, layCarried, ih, List.reverse_cons, List.map_append, List.map_append,
      List.head?_append]
    cases ((layCarried pass (base + roundUp8 c.len) base cs).reverse.map shownOf).map
      Shown.offset with
    | nil => rfl
    | cons o os => rfl

theorem Segment.publish {len : Nat} {plan : WritePlan} {rest : List Shown}
    (hrest : Segment cfg s rest) (id : Nat) (calls : Nat → CallPc)
    (hstart : 0 < cfg.stripe.dataStart) (hready : PlanReady len plan)
    (harea : SlotArea cfg s base (base + (carriedSize plan.carried + len)))
    (hbelow : ∀ n ∈ rest, n.offset < base)
    (hlink : plan.carried = [] → plan.newNext = (rest.map Shown.offset).head?.getD 0)
    (hcarry : plan.carried ≠ [] → rest = []) :
    VisibleChain cfg
      (published s (cfg.snapshot s).pass id len plan base (cfg.snapshot s).phase calls)
      (⟨base + carriedSize plan.carried, id, s.bodies⟩ ::
        ((layCarried (cfg.snapshot s).pass base 0 plan.carried).reverse.map shownOf ++ rest)) := by
  set pass := (cfg.snapshot s).pass with hpass
  set s' := published s pass id len plan base (cfg.snapshot s).phase calls with hs'
  set copies := (layCarried pass base 0 plan.carried).reverse.map shownOf with hcopies
  have hlen := hready.header
  have hdocs : ∀ x ∈ slotDocs pass id len plan base s.bodies, s'.docs x.1 = some x.2 :=
    fun x hx => place_of_mem (slotDocs_nodup hready.carry) hx
  have harea' : SlotArea cfg s' base (base + (carriedSize plan.carried + len)) :=
    ⟨harea.low, harea.fits, harea.size⟩
  have hold : Segment cfg s' rest := by
    refine hrest.frame hbelow (fun o ho => place_of_not_mem fun hmem => ?_) le_rfl
    obtain ⟨⟨x, d⟩, hx, rfl⟩ := List.mem_map.mp hmem
    have := (mem_slotDocs hready.carry hlen hx).1
    exact absurd ho (Nat.not_lt.mpr this)
  have hlow : Segment cfg s' (copies ++ rest) := by
    cases hcs : plan.carried with
    | nil =>
      rw [hcopies, hcs]
      exact hold
    | cons c cs =>
      obtain rfl := hcarry (by rw [hcs]; exact List.cons_ne_nil c cs)
      refine Segment.laid hstart harea' hready.carry (by omega) (fun x hx => ?_) .nil nofun rfl
      exact hdocs x (List.mem_append_left _ hx)
  have hunder : ∀ n ∈ copies ++ rest, n.offset < base + carriedSize plan.carried := by
    intro n hn
    rcases List.mem_append.mp hn with hn | hn
    · obtain ⟨⟨o, d⟩, hx, rfl⟩ := List.mem_map.mp hn
      exact (mem_layCarried hready.carry (List.mem_reverse.mp hx)).2.1
    · have := hbelow n hn
      omega
  have hhead := hdocs _ (List.mem_append_right _ List.mem_cons_self)
  have hshows : Shows cfg s' ⟨base + carriedSize plan.carried, id, s.bodies⟩ :=
    harea'.shows (by simp only; omega) (by simp only; omega) hhead rfl rfl
      (stamped_of_pass (s := s) rfl)
  refine ⟨hlow.cons hstart hshows hhead ?_ hunder, ?_⟩
  · -- the new head's link
    cases hcs : plan.carried with
    | nil =>
      rw [hcopies, hcs]
      exact hlink hcs
    | cons c cs =>
      obtain rfl := hcarry (by rw [hcs]; exact List.cons_ne_nil c cs)
      rw [← hcs, List.append_nil, hcopies, ← carriedTop_eq, hcs]
      rfl
  · exact ⟨_, rfl, classify_of_shows hshows, rfl⟩

end CycloneCache.Ref

import CycloneCache.Ref.Chain
import CycloneCache.Proofs.StripeGeometry

namespace CycloneCache.Ref

open Lib Function

def hops (docs : Nat → Option AltDoc) : Nat → Nat → Nat
  | 0, o => o
  | k + 1, o =>
    match linkOf docs o with
    | none => 0
    | some n => hops docs k n

def PublishCurrent (s : ChainState) (plan : WritePlan) : Prop :=
  (plan.carried = [] → plan.newNext = 0 ∨ s.OnChain plan.newNext) ∧
    ∀ c ∈ plan.carried, s.OnChain c.relOffset ∧ ∃ d, s.docs c.relOffset = some d ∧ d.body = c.body

variable {docs : Nat → Option AltDoc} {k n o newNext pred p target : Nat} {d : AltDoc}
  {slot : List (Nat × AltDoc)}

theorem reach_of_hops (h : hops docs k o = n) (hn : n ≠ 0) : Reach (linkOf docs) o n := by
  induction k generalizing o with rw [hops] at h
  | zero =>
    rw [h]
    exact .refl n
  | succ k ih =>
    cases hl : linkOf docs o with rw [hl] at h
    | none =>
      exact absurd h.symm hn
    | some m =>
      exact Reach.head hl (ih h)

theorem linkOf_of_hops (h : hops docs 1 o = n) (hn : n ≠ 0) : linkOf docs o = some n := by
  simp only [hops] at h
  cases hl : linkOf docs o with rw [hl] at h
  | none =>
    exact absurd h.symm hn
  | some m =>
    exact congrArg some h

def asLink (n : Nat) : Option Nat := if n = 0 then none else some n

theorem asLink_eq_some {m : Nat} (h : asLink n = some m) : n = m ∧ n ≠ 0 := by
  simp only [asLink] at h
  split at h <;> cases h
  next hn =>
  exact ⟨rfl, hn⟩

theorem linkOf_eq (h : docs o = some d) : linkOf docs o = asLink d.nextAlternateOffset := by
  simp only [linkOf, h, asLink]

theorem linkOf_of_hops_two {t : Nat} (ht : linkOf docs o = some t) (h : hops docs 2 o = n)
    (hpos : ∀ x y, linkOf docs x = some y → y ≠ 0) : linkOf docs t = asLink n := by
  simp only [hops, ht] at h
  cases hl : linkOf docs t with rw [hl] at h
  | none =>
    rw [← h]
    rfl
  | some m =>
    rw [← h, asLink, if_neg (hpos t m hl)]

theorem linkOf_ne_zero (h : linkOf docs o = some n) : n ≠ 0 := by
  simp only [linkOf] at h
  split at h
  · cases h
  · split at h <;> cases h
    next hn =>
    exact hn

/-- What a store of a link makes of the documents. -/
def setLink (docs : Nat → Option AltDoc) (p n : Nat) : Nat → Option AltDoc :=
  update docs p ((docs p).map fun d => { d with nextAlternateOffset := n })

theorem linkOf_setLink (h : docs p ≠ none) :
    linkOf (setLink docs p n) = update (linkOf docs) p (asLink n) := by
  obtain ⟨d, hd⟩ := Option.ne_none_iff_exists'.mp h
  funext o
  by_cases ho : o = p
  · rw [ho, update_self]
    simp only [setLink, linkOf, hd, update_self, Option.map_some, asLink]
  · rw [update_of_ne ho]
    simp only [setLink, linkOf, update_of_ne ho]

theorem setLink_ne_none : setLink docs p n o ≠ none ↔ docs o ≠ none := by
  rw [setLink]
  by_cases ho : o = p
  · rw [ho, update_self, ne_eq, Option.map_eq_none_iff]
  · rw [update_of_ne ho]

variable {s : ChainState}

theorem linkOf_storeLink (h : s.docs pred = some d) :
    linkOf (s.storeLink pred newNext).docs = update (linkOf s.docs) pred (asLink newNext) :=
  linkOf_setLink (h ▸ Option.some_ne_none d)

structure MemInv (cfg : ChainConfig) (s : ChainState) : Prop where
  down : ∀ x y, linkOf s.docs x = some y → y < x
  closed : ∀ x y, linkOf s.docs x = some y → s.docs y ≠ none
  entry : ∀ e, s.entry = some e → s.docs e.offset ≠ none
  placed : ∀ o, s.docs o ≠ none → o < s.cursor ∨ cfg.runwayEnd ≤ o
  bodies : ∀ o d, s.docs o = some d → d.body < s.bodies
  reported : ∀ b ∈ s.removed, b < s.bodies
  distinct : ∀ o o' d d', s.OnChain o → s.OnChain o' → s.docs o = some d →
    s.docs o' = some d' → d.body = d'.body → o = o'
  gone : ∀ b ∈ s.removed, ∀ o d, s.OnChain o → s.docs o = some d → d.body ≠ b

variable {cfg : ChainConfig} {s : ChainState}

theorem MemInv.docs_of_onChain (hi : MemInv cfg s) (h : s.OnChain o) : s.docs o ≠ none := by
  obtain ⟨e, he, hr⟩ := h
  exact hr.keeps (P := fun x => s.docs x ≠ none) (fun x y _ hl => hi.closed x y hl) (hi.entry e he)

theorem MemInv.of_same (hi : MemInv cfg s) {s' : ChainState} (hdocs : s'.docs = s.docs)
    (hentry : s'.entry = s.entry) (hcursor : s.cursor ≤ s'.cursor)
    (hremoved : s'.removed = s.removed) (hbodies : s'.bodies = s.bodies) : MemInv cfg s' := by
  have hon : ∀ o, s'.OnChain o → s.OnChain o := by
    rintro o ⟨e, he, hr⟩
    rw [hentry] at he
    rw [hdocs] at hr
    exact ⟨e, he, hr⟩
  constructor
  · rw [hdocs]
    exact hi.down
  · rw [hdocs]
    exact hi.closed
  · rw [hdocs, hentry]
    exact hi.entry
  · intro o ho
    rw [hdocs] at ho
    rcases hi.placed o ho with h | h
    · exact .inl (lt_of_lt_of_le h hcursor)
    · exact .inr h
  · rw [hdocs, hbodies]
    exact hi.bodies
  · rw [hremoved, hbodies]
    exact hi.reported
  · intro o o' d d' ho ho'
    rw [hdocs]
    exact hi.distinct o o' d d' (hon o ho) (hon o' ho')
  · intro b hb o d ho
    rw [hremoved] at hb
    rw [hdocs]
    exact hi.gone b hb o d (hon o ho)

theorem MemInv.of_shrink (hi : MemInv cfg s) {s' : ChainState}
    (hdown : ∀ x y, linkOf s'.docs x = some y → y < x ∧ s'.docs y ≠ none)
    (hbody : ∀ o, (s'.docs o).map AltDoc.body = (s.docs o).map AltDoc.body)
    (hon : ∀ o, s'.OnChain o → s.OnChain o)
    (hentry : ∀ e, s'.entry = some e → s'.docs e.offset ≠ none) (hcursor : s'.cursor = s.cursor)
    (hbodies : s'.bodies = s.bodies)
    (hreport : ∀ b ∈ s'.removed, b ∈ s.removed ∨ ∃ t d, s.docs t = some d ∧
      d.body = b ∧ ∀ o, s'.OnChain o → ∀ d', s.docs o = some d' → d'.body ≠ b) : MemInv cfg s' := by
  have hold : ∀ {o d}, s'.docs o = some d → ∃ d₀, s.docs o = some d₀ ∧ d₀.body = d.body := by
    intro o d hd
    have := hbody o
    rw [hd, Option.map_some] at this
    exact Option.map_eq_some_iff.mp this.symm
  refine ⟨fun x y h => (hdown x y h).1, fun x y h => (hdown x y h).2, hentry, ?_, ?_, ?_, ?_, ?_⟩
  · intro o ho
    rw [hcursor]
    obtain ⟨d, hd⟩ := Option.ne_none_iff_exists'.mp ho
    obtain ⟨d₀, hd₀, -⟩ := hold hd
    exact hi.placed o (by rw [hd₀]; exact Option.some_ne_none d₀)
  · intro o d hd
    obtain ⟨d₀, hd₀, hb⟩ := hold hd
    rw [hbodies, ← hb]
    exact hi.bodies o d₀ hd₀
  · intro b hb
    rw [hbodies]
    rcases hreport b hb with h | ⟨t, d, hd, rfl, -⟩
    · exact hi.reported b h
    · exact hi.bodies t d hd
  · intro o o' d d' ho ho' hd hd' heq
    obtain ⟨d₀, hd₀, hb⟩ := hold hd
    obtain ⟨d₀', hd₀', hb'⟩ := hold hd'
    exact hi.distinct o o' d₀ d₀' (hon o ho) (hon o' ho') hd₀ hd₀' (by rw [hb, hb', heq])
  · intro b hb o d ho hd
    obtain ⟨d₀, hd₀, hbd⟩ := hold hd
    rw [← hbd]
    rcases hreport b hb with h | ⟨-, -, -, -, hoff⟩
    · exact hi.gone b h o d₀ (hon o ho) hd₀
    · exact hoff o ho d₀ hd₀

theorem body_storeLink (s : ChainState) (pred newNext o : Nat) :
    ((s.storeLink pred newNext).docs o).map AltDoc.body = (s.docs o).map AltDoc.body := by
  simp only [ChainState.storeLink]
  by_cases ho : o = pred
  · rw [ho, update_self, Option.map_map]
    rfl
  · rw [update_of_ne ho]

theorem docs_storeLink_ne_none :
    (s.storeLink pred newNext).docs o ≠ none ↔ s.docs o ≠ none := setLink_ne_none

section StoreLink

variable {pred newNext : Nat} {d : AltDoc}

theorem reach_of_storeLink (hd : s.docs pred = some d)
    (hlead : newNext ≠ 0 → Reach (linkOf s.docs) pred newNext) {a b : Nat}
    (h : Reach (linkOf (s.storeLink pred newNext).docs) a b) : Reach (linkOf s.docs) a b := by
  rw [linkOf_storeLink hd] at h
  apply Reach.of_shortcut _ h
  intro n hn
  obtain ⟨rfl, hne⟩ := asLink_eq_some hn
  exact hlead hne

theorem MemInv.links_storeLink (hi : MemInv cfg s) (hd : s.docs pred = some d)
    (hlead : newNext ≠ 0 → newNext < pred ∧ s.docs newNext ≠ none) :
    ∀ x y, linkOf (s.storeLink pred newNext).docs x = some y →
      y < x ∧ (s.storeLink pred newNext).docs y ≠ none := by
  intro x y hl
  rw [linkOf_storeLink hd] at hl
  rw [docs_storeLink_ne_none]
  by_cases hx : x = pred
  · rw [hx, update_self] at hl
    obtain ⟨rfl, hne⟩ := asLink_eq_some hl
    rw [hx]
    exact hlead hne
  · rw [update_of_ne hx] at hl
    exact ⟨hi.down x y hl, hi.closed x y hl⟩

end StoreLink

theorem MemInv.reach_le (hi : MemInv cfg s) {a b : Nat}
    (h : Reach (linkOf s.docs) a b) : b ≤ a := by
  apply h.keeps (P := fun x => x ≤ a) _ (Nat.le_refl a)
  intro x y hx hl
  exact le_trans (Nat.le_of_lt (hi.down x y hl)) hx

theorem MemInv.lead_lt (hi : MemInv cfg s) {a : Nat} (h : hops s.docs (k + 1) a = n) (hn : n ≠ 0) :
    n < a ∧ s.docs n ≠ none := by
  rw [hops] at h
  cases hl : linkOf s.docs a with rw [hl] at h
  | none =>
    exact absurd h.symm hn
  | some m =>
    have hr := reach_of_hops h hn
    refine ⟨lt_of_le_of_lt (hi.reach_le hr) (hi.down a m hl), ?_⟩
    exact hr.keeps (P := fun x => s.docs x ≠ none) (fun x y _ h => hi.closed x y h)
      (hi.closed a m hl)

theorem MemInv.storeLink (hi : MemInv cfg s) (hd : s.docs pred = some d)
    (hlead : hops s.docs (k + 1) pred = newNext) : MemInv cfg (s.storeLink pred newNext) := by
  apply hi.of_shrink (hi.links_storeLink hd (fun hn => hi.lead_lt hlead hn))
    (body_storeLink s pred newNext) _ _ rfl rfl (fun b hb => .inl hb)
  · rintro o ⟨e, he, hr⟩
    exact ⟨e, he, reach_of_storeLink hd (fun hn => reach_of_hops hlead hn) hr⟩
  · intro e he
    rw [docs_storeLink_ne_none]
    exact hi.entry e he

theorem mem_reportRemoved {b : Nat} (h : b ∈ (s.reportRemoved p target).removed) :
    b ∈ s.removed ∨ ∃ d, s.docs target = some d ∧ d.body = b := by
  simp only [ChainState.reportRemoved] at h
  cases hd : s.docs target with rw [hd] at h
  | none =>
    exact .inl h
  | some d =>
    rcases List.mem_cons.mp h with rfl | h
    · exact .inr ⟨d, rfl, rfl⟩
    · exact .inl h

theorem MemInv.dropEntry (hi : MemInv cfg s) {head : Nat}
    (hcur : ∀ e, s.entry = some e → e.offset = head) :
    MemInv cfg ({ s with entry := s.entry.filter (·.offset != head) }.reportRemoved p target) := by
  have hnone : s.entry.filter (·.offset != head) = none := by
    cases he : s.entry with
    | none => rfl
    | some e => simp [Option.filter, hcur e he]
  have hoff : ∀ o, ¬ ChainState.OnChain
      ({ s with entry := s.entry.filter (·.offset != head) }.reportRemoved p target) o := by
    rintro o ⟨e, he, -⟩
    change s.entry.filter (·.offset != head) = some e at he
    rw [hnone] at he
    cases he
  refine hi.of_shrink (fun x y h => ⟨hi.down x y h, hi.closed x y h⟩) (fun _ => rfl)
    (fun o ho => absurd ho (hoff o)) ?_ rfl rfl ?_
  · intro e he
    change s.entry.filter (·.offset != head) = some e at he
    rw [hnone] at he
    cases he
  · intro b hb
    rcases mem_reportRemoved hb with h | ⟨d, hd, hb⟩
    · exact .inl h
    · exact .inr ⟨target, d, hd, hb, fun o ho => absurd ho (hoff o)⟩

theorem MemInv.republish (hi : MemInv cfg s) {head successor : Nat} {e : HeadEntry} {phase : Bool}
    (he : s.entry = some e) (hhead : e.offset = head) (hlink : linkOf s.docs head = some successor) :
    MemInv cfg ({ s with entry := some ⟨successor, phase⟩ }.reportRemoved p head) := by
  have hreach : ∀ o, ChainState.OnChain
      ({ s with entry := some ⟨successor, phase⟩ }.reportRemoved p head) o →
      Reach (linkOf s.docs) successor o := by
    rintro o ⟨e', he', hr⟩
    cases he'
    exact hr
  have hon : ∀ o, Reach (linkOf s.docs) successor o → s.OnChain o := by
    intro o hr
    refine ⟨e, he, ?_⟩
    rw [hhead]
    exact Reach.head hlink hr
  refine hi.of_shrink (fun x y h => ⟨hi.down x y h, hi.closed x y h⟩) (fun _ => rfl)
    (fun o ho => hon o (hreach o ho)) ?_ rfl rfl ?_
  · intro e' he'
    cases he'
    exact hi.closed head successor hlink
  · intro b hb
    rcases mem_reportRemoved hb with h | ⟨d, hd, rfl⟩
    · exact .inl h
    · refine .inr ⟨head, d, hd, rfl, ?_⟩
      intro o ho d' hd' heq
      have hr := hreach o ho
      have hsame : o = head := by
        refine hi.distinct o head d' d (hon o hr) ⟨e, he, ?_⟩ hd' hd heq
        rw [hhead]
        exact .refl head
      have hle := hi.reach_le hr
      have hlt := hi.down head successor hlink
      omega

theorem MemInv.unlink (hi : MemInv cfg s) {targetNext : Nat} (hd : s.docs pred = some d)
    (hpred : s.OnChain pred) (ht : hops s.docs 1 pred = target) (hne : target ≠ 0)
    (hnext : hops s.docs 2 pred = targetNext) :
    MemInv cfg ((s.storeLink pred targetNext).reportRemoved p target) := by
  have hlink := linkOf_of_hops ht hne
  have htn := linkOf_of_hops_two hlink hnext (fun _ _ h => linkOf_ne_zero h)
  obtain ⟨e, he, hr⟩ := hpred
  have hmem := hi.storeLink hd hnext
  have hoff : ¬ (s.storeLink pred targetNext).OnChain target := by
    rintro ⟨e', he', hr'⟩
    change s.entry = some e' at he'
    rw [he] at he'
    cases he'
    rw [linkOf_storeLink hd, ← htn] at hr'
    exact not_reach_of_unlink hi.down hlink rfl hr hr'
  refine hmem.of_shrink (fun x y h => ⟨hmem.down x y h, hmem.closed x y h⟩) (fun _ => rfl)
    (fun o ho => ho) hmem.entry rfl rfl ?_
  intro b hb
  rcases mem_reportRemoved hb with h | ⟨dt, hdt, rfl⟩
  · exact .inl h
  · refine .inr ⟨target, dt, hdt, rfl, ?_⟩
    intro o ho d' hd' heq
    -- bodies are distinct on the chain before the store, where the target is
    have hbody := fun o => body_storeLink s pred targetNext o
    obtain ⟨t₀, ht₀, hbt⟩ := Option.map_eq_some_iff.mp
      ((hbody target).symm.trans (congrArg (Option.map AltDoc.body) hdt))
    obtain ⟨d₀, hd₀, hbd⟩ := Option.map_eq_some_iff.mp
      ((hbody o).symm.trans (congrArg (Option.map AltDoc.body) hd'))
    have hold : s.OnChain o := by
      obtain ⟨e', he', hr'⟩ := ho
      exact ⟨e', he', reach_of_storeLink hd (fun hn => reach_of_hops hnext hn) hr'⟩
    have hsame : o = target :=
      hi.distinct o target d₀ t₀ hold ⟨e, he, hr.tail hlink⟩ hd₀ ht₀ (by rw [hbd, hbt, heq])
    rw [hsame] at ho
    exact hoff ho

theorem place_of_not_mem (h : o ∉ slot.map Prod.fst) : place docs slot o = docs o := by
  induction slot generalizing docs with
  | nil => rfl
  | cons x xs ih =>
    rw [List.map_cons, List.mem_cons, not_or] at h
    change place (update docs x.1 (some x.2)) xs o = docs o
    rw [ih h.2, update_of_ne h.1]

theorem place_of_mem (hnd : (slot.map Prod.fst).Nodup) (h : (o, d) ∈ slot) :
    place docs slot o = some d := by
  induction slot generalizing docs with
  | nil => cases h
  | cons x xs ih =>
    rw [List.map_cons, List.nodup_cons] at hnd
    change place (update docs x.1 (some x.2)) xs o = some d
    rcases List.mem_cons.mp h with rfl | h
    · rw [place_of_not_mem hnd.1, update_self]
    · exact ih hnd.2 h

theorem carriedSize_cons (c : ChainNode) (cs : List ChainNode) :
    carriedSize (c :: cs) = roundUp8 c.len + carriedSize cs := by
  simp only [carriedSize, List.map_cons, List.sum_cons]

theorem roundUp8_pos (h : kHeaderSize ≤ n) : 0 < roundUp8 n := by
  have := le_roundUp8 n
  simp only [kHeaderSize] at h
  omega

variable {d : AltDoc}

section Carried

variable {pass : Nat} {base below : Nat} {cs : List ChainNode}

theorem mem_layCarried (hlen : ∀ c ∈ cs, kHeaderSize ≤ c.len) {o : Nat}
    (h : (o, d) ∈ layCarried pass base below cs) :
    base ≤ o ∧ o < base + carriedSize cs ∧ (∃ c ∈ cs, d.body = c.body) ∧
      (d.nextAlternateOffset = below ∨ d.nextAlternateOffset < o ∧
          d.nextAlternateOffset ∈ (layCarried pass base below cs).map Prod.fst) := by
  induction cs generalizing base below with
  | nil => cases h
  | cons c cs ih =>
    rw [carriedSize_cons]
    have hpos := roundUp8_pos (hlen c List.mem_cons_self)
    rcases List.mem_cons.mp h with heq | h
    · cases heq
      exact ⟨le_rfl, by omega, ⟨c, List.mem_cons_self, rfl⟩, .inl rfl⟩
    · obtain ⟨hle, hlt, ⟨c', hc', hb⟩, hnext⟩ :=
        ih (fun c hc => hlen c (List.mem_cons_of_mem _ hc)) h
      refine ⟨by omega, by omega, ⟨c', List.mem_cons_of_mem _ hc', hb⟩, .inr ?_⟩
      rcases hnext with hnext | ⟨hlow, hmem⟩
      · rw [hnext]
        exact ⟨by omega, List.mem_cons_self⟩
      · exact ⟨hlow, List.mem_cons_of_mem _ hmem⟩

theorem layCarried_nodup (hlen : ∀ c ∈ cs, kHeaderSize ≤ c.len) :
    ((layCarried pass base below cs).map Prod.fst).Nodup := by
  induction cs generalizing base below with
  | nil => exact List.nodup_nil
  | cons c cs ih =>
    have htail : ∀ c ∈ cs, kHeaderSize ≤ c.len := fun c hc => hlen c (List.mem_cons_of_mem _ hc)
    rw [layCarried, List.map_cons, List.nodup_cons]
    refine ⟨fun hmem => ?_, ih htail⟩
    obtain ⟨⟨o, d⟩, hd, ho⟩ := List.mem_map.mp hmem
    have hle := (mem_layCarried htail hd).1
    have hpos := roundUp8_pos (hlen c List.mem_cons_self)
    simp only at ho
    omega

theorem layCarried_bodies :
    (layCarried pass base below cs).map (fun x => x.2.body) = cs.map ChainNode.body := by
  induction cs generalizing base below with
  | nil => rfl
  | cons c cs ih => rw [layCarried, List.map_cons, List.map_cons, ih]

theorem carriedTop_mem (base below : Nat) (c : ChainNode) (cs : List ChainNode) :
    carriedTop base below (c :: cs) ∈ (layCarried pass base below (c :: cs)).map Prod.fst := by
  induction cs generalizing base below c with
  | nil => exact List.mem_cons_self
  | cons c' cs ih =>
    rw [carriedTop, layCarried, List.map_cons]
    exact List.mem_cons_of_mem _ (ih _ _ c')

end Carried

section Slot

variable {pass id len base body : Nat} {plan : WritePlan}

theorem mem_slotDocs (hcarry : ∀ c ∈ plan.carried, kHeaderSize ≤ c.len) (hlen : kHeaderSize ≤ len)
    {o : Nat} (h : (o, d) ∈ slotDocs pass id len plan base body) :
    base ≤ o ∧ o < base + (carriedSize plan.carried + len) ∧
      ((∃ c ∈ plan.carried, d.body = c.body) ∨ d.body = body) ∧
      (d.nextAlternateOffset = 0 ∨ (d.nextAlternateOffset < o ∧ d.nextAlternateOffset ∈
          (slotDocs pass id len plan base body).map Prod.fst) ∨
        (plan.carried = [] ∧ o = base ∧ d.nextAlternateOffset = plan.newNext)) := by
  have hkeys : ∀ {x}, x ∈ (layCarried pass base 0 plan.carried).map Prod.fst →
      x ∈ (slotDocs pass id len plan base body).map Prod.fst := by
    intro x hx
    rw [slotDocs, List.map_append]
    exact List.mem_append_left _ hx
  have hpos : 0 < len := by
    simp only [kHeaderSize] at hlen
    omega
  rw [slotDocs] at h
  rcases List.mem_append.mp h with h | h
  · obtain ⟨hle, hlt, hc, hnext⟩ := mem_layCarried hcarry h
    refine ⟨hle, by omega, .inl hc, ?_⟩
    rcases hnext with hnext | ⟨hlow, hmem⟩
    · exact .inl hnext
    · exact .inr (.inl ⟨hlow, hkeys hmem⟩)
  · cases List.mem_singleton.mp h
    refine ⟨by omega, by omega, .inr rfl, ?_⟩
    cases hcs : plan.carried with
    | nil => exact .inr (.inr ⟨rfl, rfl, rfl⟩)
    | cons c cs =>
      have htop : carriedTop base 0 (c :: cs) ∈
          (layCarried pass base 0 plan.carried).map Prod.fst := by
        rw [hcs]
        exact carriedTop_mem base 0 c cs
      obtain ⟨⟨x, dx⟩, hx, heq⟩ := List.mem_map.mp htop
      have hlt := (mem_layCarried hcarry hx).2.1
      rw [hcs] at hlt
      simp only [List.isEmpty_cons, Bool.false_eq_true, if_false] at heq ⊢
      rw [← heq] at htop ⊢
      exact .inr (.inl ⟨hlt, hkeys htop⟩)

theorem slotDocs_nodup (hcarry : ∀ c ∈ plan.carried, kHeaderSize ≤ c.len) :
    ((slotDocs pass id len plan base body).map Prod.fst).Nodup := by
  rw [slotDocs, List.map_append, List.nodup_append]
  refine ⟨layCarried_nodup hcarry, List.nodup_singleton _, ?_⟩
  intro x hx y hy
  obtain ⟨⟨x', d⟩, hd, rfl⟩ := List.mem_map.mp hx
  rw [List.map_singleton, List.mem_singleton] at hy
  have hlt := (mem_layCarried hcarry hd).2.1
  simp only
  omega

theorem head_mem_slotDocs :
    base + carriedSize plan.carried ∈ (slotDocs pass id len plan base body).map Prod.fst := by
  rw [slotDocs, List.map_append]
  exact List.mem_append_right _ List.mem_cons_self

theorem slotDocs_bodies_nodup (hi : MemInv cfg s)
    (hnodup : (plan.carried.map ChainNode.relOffset).Nodup) (hcur : PublishCurrent s plan) :
    ((slotDocs pass id len plan base s.bodies).map fun x => x.2.body).Nodup := by
  rw [slotDocs, List.map_append, layCarried_bodies, List.nodup_append]
  refine ⟨?_, List.nodup_singleton _, ?_⟩
  · apply List.Nodup.map_on _ hnodup.of_map
    intro c hc c' hc' heq
    obtain ⟨hon, d, hd, hb⟩ := hcur.2 c hc
    obtain ⟨hon', d', hd', hb'⟩ := hcur.2 c' hc'
    apply List.inj_on_of_nodup_map hnodup hc hc'
    exact hi.distinct _ _ d d' hon hon' hd hd' (by rw [hb, hb', heq])
  · intro b hb b' hb'
    obtain ⟨c, hc, rfl⟩ := List.mem_map.mp hb
    obtain ⟨-, d, hd, hbody⟩ := hcur.2 c hc
    have hlt := hi.bodies _ d hd
    simp only [List.map_cons, List.map_nil, List.mem_singleton] at hb'
    omega

end Slot

section

variable (hnd : (slot.map Prod.fst).Nodup)
include hnd

theorem place_cases (h : place docs slot o = some d) :
    (o, d) ∈ slot ∨ o ∉ slot.map Prod.fst ∧ docs o = some d := by
  by_cases ho : o ∈ slot.map Prod.fst
  · obtain ⟨⟨o', d'⟩, hd', rfl⟩ := List.mem_map.mp ho
    rw [place_of_mem hnd hd'] at h
    cases h
    exact .inl hd'
  · rw [place_of_not_mem ho] at h
    exact .inr ⟨ho, h⟩

theorem linkOf_place {x y : Nat} (h : linkOf (place docs slot) x = some y) :
    (∃ d, (x, d) ∈ slot ∧ d.nextAlternateOffset = y ∧ y ≠ 0) ∨
      x ∉ slot.map Prod.fst ∧ linkOf docs x = some y := by
  cases hd : place docs slot x with
  | none =>
    simp only [linkOf, hd] at h
    cases h
  | some d =>
    rw [linkOf_eq hd] at h
    rcases place_cases hnd hd with hmem | ⟨hx, hd⟩
    · obtain ⟨rfl, hne⟩ := asLink_eq_some h
      exact .inl ⟨d, hmem, rfl, hne⟩
    · rw [← linkOf_eq hd] at h
      exact .inr ⟨hx, h⟩

theorem place_key (h : o ∈ slot.map Prod.fst) : place docs slot o ≠ none := by
  obtain ⟨⟨o', d⟩, hd, rfl⟩ := List.mem_map.mp h
  rw [place_of_mem hnd hd]
  exact Option.some_ne_none d

end

/-- A link of a slot goes down in it, or to the plan's successor. -/
theorem linkOf_slotDocs {pass id len base body x y : Nat} {plan : WritePlan}
    (hcarry : ∀ c ∈ plan.carried, kHeaderSize ≤ c.len) (hlen : kHeaderSize ≤ len)
    (h : linkOf (place docs (slotDocs pass id len plan base body)) x = some y) :
    (base ≤ x ∧ y < x ∧ y ∈ (slotDocs pass id len plan base body).map Prod.fst) ∨
      (plan.carried = [] ∧ x = base ∧ y = plan.newNext ∧ y ≠ 0) ∨
      (x ∉ (slotDocs pass id len plan base body).map Prod.fst ∧ linkOf docs x = some y) := by
  rcases linkOf_place (slotDocs_nodup hcarry) h with ⟨d, hd, rfl, hne⟩ | hold
  · obtain ⟨hle, -, -, hnext⟩ := mem_slotDocs hcarry hlen hd
    rcases hnext with hz | hin | ⟨hc, hx, hn⟩
    · exact absurd hz hne
    · exact .inl ⟨hle, hin⟩
    · exact .inr (.inl ⟨hc, hx, hn, hne⟩)
  · exact .inr (.inr hold)

structure PlanReady (len : Nat) (plan : WritePlan) : Prop where
  carry : ∀ c ∈ plan.carried, kHeaderSize ≤ c.len
  header : kHeaderSize ≤ len
  nodup : (plan.carried.map ChainNode.relOffset).Nodup

structure SlotReady (s : ChainState) (len : Nat) (plan : WritePlan) (base : Nat) : Prop
    extends PlanReady len plan where
  free : ∀ o, base ≤ o → o < base + (carriedSize plan.carried + len) → s.docs o = none
  fits : base + (carriedSize plan.carried + len) ≤ s.cursor
  below : plan.newNext = 0 ∨ plan.newNext < base

def published (s : ChainState) (pass id len : Nat) (plan : WritePlan) (base : Nat)
    (phase : Bool) (calls : Nat → CallPc) : ChainState :=
  { s with
    docs := place s.docs (slotDocs pass id len plan base s.bodies)
    entry := some ⟨base + carriedSize plan.carried, phase⟩
    bodies := s.bodies + 1
    calls := calls }

section Publish

variable {pass id len base : Nat} {phase : Bool} {plan : WritePlan} {calls : Nat → CallPc} {o : Nat}

section

variable (hr : SlotReady s len plan base)
include hr

theorem SlotReady.not_mem_of_docs (ho : s.docs o ≠ none) :
    o ∉ (slotDocs pass id len plan base s.bodies).map Prod.fst := by
  intro hmem
  obtain ⟨⟨o', d⟩, hd, rfl⟩ := List.mem_map.mp hmem
  have hin := mem_slotDocs hr.carry hr.header hd
  exact ho (hr.free o' hin.1 hin.2.1)

theorem SlotReady.docs_kept (ho : s.docs o ≠ none) :
    (published s pass id len plan base phase calls).docs o = s.docs o :=
  place_of_not_mem (hr.not_mem_of_docs ho)

theorem SlotReady.onChain_cases (hcur : PublishCurrent s plan)
    (h : (published s pass id len plan base phase calls).OnChain o) :
    o ∈ (slotDocs pass id len plan base s.bodies).map Prod.fst ∨
      plan.carried = [] ∧ s.OnChain o := by
  obtain ⟨e, he, hreach⟩ := h
  cases he
  apply hreach.keeps (P := fun o =>
    o ∈ (slotDocs pass id len plan base s.bodies).map Prod.fst ∨
      plan.carried = [] ∧ s.OnChain o) _ (.inl head_mem_slotDocs)
  intro x y hx hl
  rcases linkOf_slotDocs hr.carry hr.header hl with ⟨-, -, hy⟩ | ⟨hc, -, hy, hne⟩ | ⟨hnot, hold⟩
  · exact .inl hy
  · rcases hcur.1 hc with hz | hon
    · exact absurd (hy.trans hz) hne
    · exact .inr ⟨hc, hy ▸ hon⟩
  · rcases hx with hx | ⟨hc, e, he, hr'⟩
    · exact absurd hx hnot
    · exact .inr ⟨hc, e, he, hr'.tail hold⟩

theorem SlotReady.doc_cases (hcur : PublishCurrent s plan)
    (h : (published s pass id len plan base phase calls).OnChain o)
    (hd : (published s pass id len plan base phase calls).docs o = some d) :
    (o, d) ∈ slotDocs pass id len plan base s.bodies ∨
      plan.carried = [] ∧ s.OnChain o ∧ s.docs o = some d := by
  rcases place_cases (slotDocs_nodup hr.carry) hd with hmem | ⟨hnot, hold⟩
  · exact .inl hmem
  · rcases hr.onChain_cases hcur h with hkey | ⟨hc, hon⟩
    · exact absurd hkey hnot
    · exact .inr ⟨hc, hon, hold⟩

theorem SlotReady.body_ne (hi : MemInv cfg s) {o' : Nat} {d' : AltDoc}
    (hmem : (o, d) ∈ slotDocs pass id len plan base s.bodies) (hc : plan.carried = [])
    (hold : s.docs o' = some d') : d.body ≠ d'.body := by
  have hlt := hi.bodies o' d' hold
  rcases (mem_slotDocs hr.carry hr.header hmem).2.2.1 with ⟨c, hmemc, -⟩ | hb
  · rw [hc] at hmemc
    cases hmemc
  · omega

end

theorem MemInv.publish (hi : MemInv cfg s) (hr : SlotReady s len plan base)
    (hcur : PublishCurrent s plan) :
    MemInv cfg (published s pass id len plan base phase calls) := by
  have hslot : ∀ {o d}, (o, d) ∈ slotDocs pass id len plan base s.bodies →
      o < s.cursor ∧ d.body < s.bodies + 1 ∧ ∀ b ∈ s.removed, d.body ≠ b := by
    intro o d hmem
    obtain ⟨-, hlt, hbody, -⟩ := mem_slotDocs hr.carry hr.header hmem
    refine ⟨lt_of_lt_of_le hlt hr.fits, ?_⟩
    rcases hbody with ⟨c, hc, hb⟩ | hb
    · obtain ⟨hon, d', hd', hb'⟩ := hcur.2 c hc
      rw [hb, ← hb']
      exact ⟨Nat.lt_succ_of_lt (hi.bodies _ d' hd'), fun b hb => hi.gone b hb _ d' hon hd'⟩
    · rw [hb]
      refine ⟨Nat.lt_succ_self _, fun b hb heq => ?_⟩
      have hlt := hi.reported b hb
      omega
  constructor
  · intro x y hl
    rcases linkOf_slotDocs hr.carry hr.header hl with ⟨-, hlt, -⟩ | ⟨-, hx, hy, hne⟩ | ⟨-, hold⟩
    · exact hlt
    · rcases hr.below with hz | hlt
      · exact absurd (hy.trans hz) hne
      · rw [hx, hy]
        exact hlt
    · exact hi.down x y hold
  · intro x y hl
    rcases linkOf_slotDocs hr.carry hr.header hl with ⟨-, -, hy⟩ | ⟨hc, -, hy, hne⟩ | ⟨-, hold⟩
    · exact place_key (slotDocs_nodup hr.carry) hy
    · rcases hcur.1 hc with hz | hon
      · exact absurd (hy.trans hz) hne
      · have hdoc := hi.docs_of_onChain hon
        rw [hy, hr.docs_kept hdoc]
        exact hdoc
    · have hdoc := hi.closed x y hold
      rw [hr.docs_kept hdoc]
      exact hdoc
  · intro e he
    cases he
    exact place_key (slotDocs_nodup hr.carry) head_mem_slotDocs
  · intro o ho
    obtain ⟨d, hd⟩ := Option.ne_none_iff_exists'.mp ho
    rcases place_cases (slotDocs_nodup hr.carry) hd with hmem | ⟨-, hold⟩
    · exact .inl (hslot hmem).1
    · exact hi.placed o (by rw [hold]; exact Option.some_ne_none d)
  · intro o d hd
    rcases place_cases (slotDocs_nodup hr.carry) hd with hmem | ⟨-, hold⟩
    · exact (hslot hmem).2.1
    · exact Nat.lt_succ_of_lt (hi.bodies o d hold)
  · intro b hb
    exact Nat.lt_succ_of_lt (hi.reported b hb)
  · intro o o' d d' ho ho' hd hd' heq
    rcases hr.doc_cases hcur ho hd with hmem | ⟨hc, hon, hold⟩
    · rcases hr.doc_cases hcur ho' hd' with hmem' | ⟨hc', -, hold'⟩
      · have hnd : ((slotDocs pass id len plan base s.bodies).map
            fun x => x.2.body).Nodup := slotDocs_bodies_nodup hi hr.nodup hcur
        exact congrArg Prod.fst (List.inj_on_of_nodup_map hnd hmem hmem' heq)
      · exact absurd heq (hr.body_ne hi hmem hc' hold')
    · rcases hr.doc_cases hcur ho' hd' with hmem' | ⟨-, hon', hold'⟩
      · exact absurd heq.symm (hr.body_ne hi hmem' hc hold)
      · exact hi.distinct o o' d d' hon hon' hold hold' heq
  · intro b hb o d ho hd
    rcases hr.doc_cases hcur ho hd with hmem | ⟨-, hon, hold⟩
    · exact (hslot hmem).2.2 b hb
    · exact hi.gone b hb o d hon hold

end Publish

end CycloneCache.Ref

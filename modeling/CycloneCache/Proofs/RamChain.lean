import CycloneCache.Proofs.ChainMemory
import CycloneCache.Ref.RamTier

namespace CycloneCache.Ref.Ram

open Lib Function

def Disk.OnChain (d : Disk) (o : Nat) : Prop := ∃ h, d.entry = some h ∧ Reach (linkOf d.docs) h o

def Disk.Holds (d : Disk) (o id body : Nat) : Prop :=
  ∃ x, d.docs o = some x ∧ x.alternateId = id ∧ x.body = body

structure MemOk (d : Disk) : Prop where
  down : ∀ x y, linkOf d.docs x = some y → y < x
  closed : ∀ x y, linkOf d.docs x = some y → d.docs y ≠ none
  entry : ∀ h, d.entry = some h → d.docs h ≠ none
  placed : ∀ o, d.docs o ≠ none → 0 < o ∧ o < d.cursor
  bodies : ∀ o x, d.docs o = some x → x.body < d.bodies ∧ kHeaderSize ≤ x.len
  onePass : ∀ x y, linkOf d.docs x = some y → d.passStart ≤ x → d.passStart ≤ y
  starts : d.exposed ≤ d.passStart ∧ d.passStart ≤ d.cursor ∧ 0 < d.cursor
  latest : ∀ i, d.latest i < d.bodies

theorem memOk_fresh : MemOk Disk.fresh where
  down _ _ h := nomatch h
  closed _ _ h := nomatch h
  entry _ h := nomatch h
  placed _ h := absurd rfl h
  bodies _ _ h := nomatch h
  onePass _ _ h := nomatch h
  starts := ⟨le_rfl, le_rfl, Nat.one_pos⟩
  latest _ := Nat.one_pos

section

variable {d : Disk} {a b o m i n p fuel : Nat} {st : Store}

theorem MemOk.docs_of_reach (hm : MemOk d) (ha : d.docs a ≠ none) (h : Reach (linkOf d.docs) a b) :
    d.docs b ≠ none :=
  h.keeps (P := fun x => d.docs x ≠ none) (fun x y _ hl => hm.closed x y hl) ha

theorem MemOk.docs_of_onChain (hm : MemOk d) (h : d.OnChain o) : d.docs o ≠ none := by
  obtain ⟨e, he, hr⟩ := h
  exact hm.docs_of_reach (hm.entry e he) hr

theorem MemOk.le_of_reach (hm : MemOk d) (h : Reach (linkOf d.docs) a b) : b ≤ a :=
  h.keeps (P := fun x => x ≤ a)
    (fun x y hx hl => le_trans (Nat.le_of_lt (hm.down x y hl)) hx) (Nat.le_refl a)

theorem MemOk.current_of_reach (hm : MemOk d) (ha : d.passStart ≤ a) (h : Reach (linkOf d.docs) a b) :
    d.passStart ≤ b :=
  h.keeps (P := fun x => d.passStart ≤ x) (fun x y hx hl => hm.onePass x y hl hx) ha

theorem Disk.OnChain.trans (h : d.OnChain o) (hr : Reach (linkOf d.docs) o m) : d.OnChain m := by
  obtain ⟨e, he, heo⟩ := h
  exact ⟨e, he, heo.trans hr⟩

theorem holds_of_docs (h : d.docs o ≠ none) : ∃ i b, d.Holds o i b := by
  obtain ⟨x, hx⟩ := Option.ne_none_iff_exists'.mp h
  exact ⟨x.alternateId, x.body, x, hx, rfl, rfl⟩

theorem Disk.Holds.docs (h : d.Holds o i b) : d.docs o ≠ none := by
  obtain ⟨x, hx, -⟩ := h
  rw [hx]
  exact Option.some_ne_none x

theorem Disk.Holds.unique {i' b' : Nat} (h : d.Holds o i b) (h' : d.Holds o i' b') :
    i = i' ∧ b = b' := by
  obtain ⟨x, hx, rfl, rfl⟩ := h
  obtain ⟨y, hy, rfl, rfl⟩ := h'
  rw [hx] at hy
  cases hy
  exact ⟨rfl, rfl⟩

theorem mem_layCarried_source {pass base below : Nat} {cs : List ChainNode} {x : AltDoc}
    (h : (o, x) ∈ layCarried pass base below cs) :
    ∃ c ∈ cs, x.alternateId = c.id ∧ x.body = c.body ∧ x.len = c.len := by
  induction cs generalizing base below with
  | nil => cases h
  | cons c cs ih =>
    rcases List.mem_cons.mp h with heq | h
    · cases heq
      exact ⟨c, List.mem_cons_self, rfl, rfl, rfl⟩
    · obtain ⟨c', hc', hid⟩ := ih h
      exact ⟨c', List.mem_cons_of_mem _ hc', hid⟩

theorem layCarried_ids {pass base below : Nat} {cs : List ChainNode} :
    (layCarried pass base below cs).map (fun x => x.2.alternateId) = cs.map ChainNode.id := by
  induction cs generalizing base below with
  | nil => rfl
  | cons c cs ih => rw [layCarried, List.map_cons, List.map_cons, ih]

structure Carries (d : Disk) (c : ChainNode) : Prop where
  len : kHeaderSize ≤ c.len
  onChain : d.OnChain c.relOffset
  holds : d.Holds c.relOffset c.id c.body

structure SlotOk (d : Disk) (len : Nat) (plan : WritePlan) : Prop where
  header : kHeaderSize ≤ len
  carried : ∀ c ∈ plan.carried, Carries d c
  link : plan.carried = [] → plan.newNext = 0 ∨ d.OnChain plan.newNext ∧ d.passStart ≤ plan.newNext

section Slot

variable {id len : Nat} {plan : WritePlan}

theorem SlotOk.lens (h : SlotOk d len plan) : ∀ c ∈ plan.carried, kHeaderSize ≤ c.len :=
  fun c hc => (h.carried c hc).len

theorem SlotOk.nodup (h : SlotOk d len plan) :
    ((slotDocs d.pass id len plan d.cursor d.bodies).map Prod.fst).Nodup :=
  slotDocs_nodup h.lens

variable {o : Nat}

section

variable (h : SlotOk d len plan)
include h

theorem SlotOk.source {x : AltDoc} (hx : (o, x) ∈ slotDocs d.pass id len plan d.cursor d.bodies) :
    kHeaderSize ≤ x.len ∧
      ((o = d.cursor + carriedSize plan.carried ∧ x.alternateId = id ∧ x.body = d.bodies) ∨
        ∃ c ∈ plan.carried, x.alternateId = c.id ∧ x.body = c.body) := by
  rw [slotDocs] at hx
  rcases List.mem_append.mp hx with hx | hx
  · obtain ⟨c, hc, hid, hbody, hlen⟩ := mem_layCarried_source hx
    exact ⟨hlen ▸ h.lens c hc, .inr ⟨c, hc, hid, hbody⟩⟩
  · cases List.mem_singleton.mp hx
    exact ⟨h.header, .inl ⟨rfl, rfl, rfl⟩⟩

theorem SlotOk.above (ho : o ∈ (slotDocs d.pass id len plan d.cursor d.bodies).map Prod.fst) :
    d.cursor ≤ o ∧ o < (d.exec (.publish id len plan)).cursor := by
  obtain ⟨⟨o', x⟩, hx, rfl⟩ := List.mem_map.mp ho
  obtain ⟨hle, hlt, -⟩ := mem_slotDocs h.lens h.header hx
  have hround := le_roundUp8 (carriedSize plan.carried + len)
  exact ⟨hle, lt_of_lt_of_le hlt (Nat.add_le_add_left hround _)⟩

theorem SlotOk.cursor_lt (id : Nat) : d.cursor < (d.exec (.publish id len plan)).cursor := by
  have hhead := h.above (head_mem_slotDocs : _ ∈ (slotDocs d.pass id len plan d.cursor
    d.bodies).map Prod.fst)
  omega

end

theorem MemOk.docs_publish (hm : MemOk d) (h : SlotOk d len plan) (ho : d.docs o ≠ none) :
    (d.exec (.publish id len plan)).docs o = d.docs o := by
  apply place_of_not_mem
  intro hkey
  have := (h.above hkey).1
  have := (hm.placed o ho).2
  omega

theorem MemOk.publish (hm : MemOk d) (h : SlotOk d len plan) :
    MemOk (d.exec (.publish id len plan)) := by
  have hkeep : ∀ {o}, d.docs o ≠ none → (d.exec (.publish id len plan)).docs o ≠ none := by
    intro o ho
    rw [hm.docs_publish h ho]
    exact ho
  have hnext : plan.carried = [] → plan.newNext ≠ 0 →
      d.docs plan.newNext ≠ none ∧ d.passStart ≤ plan.newNext := by
    intro hc hne
    rcases h.link hc with h0 | ⟨hon, hpass⟩
    · exact absurd h0 hne
    · exact ⟨hm.docs_of_onChain hon, hpass⟩
  constructor
  · intro x y hl
    rcases linkOf_slotDocs h.lens h.header hl with ⟨-, hlt, -⟩ | ⟨hc, rfl, rfl, hne⟩ | ⟨-, hl⟩
    · exact hlt
    · exact (hm.placed _ (hnext hc hne).1).2
    · exact hm.down x y hl
  · intro x y hl
    rcases linkOf_slotDocs h.lens h.header hl with ⟨-, -, hmem⟩ | ⟨hc, -, rfl, hne⟩ | ⟨-, hl⟩
    · exact place_key h.nodup hmem
    · exact hkeep (hnext hc hne).1
    · exact hkeep (hm.closed x y hl)
  · intro e he
    cases he
    exact place_key h.nodup head_mem_slotDocs
  · intro o ho
    obtain ⟨x, hx⟩ := Option.ne_none_iff_exists'.mp ho
    have hpos := hm.starts.2.2
    rcases place_cases h.nodup hx with hmem | ⟨-, hold⟩
    · have := h.above (List.mem_map_of_mem (f := Prod.fst) hmem)
      exact ⟨by omega, this.2⟩
    · have hne : d.docs o ≠ none := by
        rw [hold]
        exact Option.some_ne_none x
      have hcur := h.cursor_lt id
      have := hm.placed o hne
      exact ⟨this.1, by omega⟩
  · intro o x hx
    change x.body < d.bodies + 1 ∧ _
    rcases place_cases h.nodup hx with hmem | ⟨-, hold⟩
    · obtain ⟨hlen, ⟨-, -, hbody⟩ | ⟨c, hc, -, hbody⟩⟩ := h.source hmem
      · exact ⟨by omega, hlen⟩
      · obtain ⟨z, hz, -, hzb⟩ := (h.carried c hc).holds
        have := (hm.bodies _ z hz).1
        exact ⟨by omega, hlen⟩
    · have := hm.bodies o x hold
      exact ⟨by omega, this.2⟩
  · intro x y hl hx
    change d.passStart ≤ x at hx
    change d.passStart ≤ y
    rcases linkOf_slotDocs h.lens h.header hl with ⟨-, -, hmem⟩ | ⟨hc, -, rfl, hne⟩ | ⟨-, hl⟩
    · exact le_trans hm.starts.2.1 (h.above hmem).1
    · exact (hnext hc hne).2
    · exact hm.onePass x y hl hx
  · have hcur := h.cursor_lt id
    have hs := hm.starts
    change d.exposed ≤ d.passStart ∧ d.passStart ≤ _ ∧ _
    refine ⟨hs.1, ?_, ?_⟩ <;> omega
  · intro i
    change update d.latest id d.bodies i < d.bodies + 1
    have := hm.latest i
    by_cases hi : i = id
    · rw [hi, update_self]
      omega
    · rw [update_of_ne hi]
      omega

end Slot

theorem docs_of_linkOf {docs : Nat → Option AltDoc} {x y : Nat} (h : linkOf docs x = some y) :
    docs x ≠ none := by
  intro hx
  rw [linkOf, hx] at h
  cases h

theorem MemOk.onChain_publish {id len : Nat} {plan : WritePlan} (hm : MemOk d)
    (h : SlotOk d len plan) (hon : (d.exec (.publish id len plan)).OnChain m)
    (hh : (d.exec (.publish id len plan)).Holds m i b) :
    (∃ x, (m, x) ∈ slotDocs d.pass id len plan d.cursor d.bodies ∧ x.alternateId = i ∧ x.body = b) ∨
      (plan.carried = [] ∧ plan.newNext ≠ 0 ∧ Reach (linkOf d.docs) plan.newNext m ∧
        d.Holds m i b) := by
  obtain ⟨e, he, hr⟩ := hon
  cases he
  have hin : m ∈ (slotDocs d.pass id len plan d.cursor d.bodies).map Prod.fst ∨
      plan.carried = [] ∧ plan.newNext ≠ 0 ∧ Reach (linkOf d.docs) plan.newNext m := by
    apply hr.keeps (P := fun x =>
      x ∈ (slotDocs d.pass id len plan d.cursor d.bodies).map Prod.fst ∨
        plan.carried = [] ∧ plan.newNext ≠ 0 ∧ Reach (linkOf d.docs) plan.newNext x) _
      (.inl head_mem_slotDocs)
    intro x y hx hl
    rcases linkOf_slotDocs h.lens h.header hl with ⟨-, -, hmem⟩ | ⟨hc, -, rfl, hne⟩ | ⟨hnot, hl⟩
    · exact .inl hmem
    · exact .inr ⟨hc, hne, .refl _⟩
    · rcases hx with hkey | ⟨hc, hne, hr⟩
      · exact absurd hkey hnot
      · exact .inr ⟨hc, hne, hr.tail hl⟩
  obtain ⟨x, hx, hid, hbody⟩ := hh
  rcases hin with hkey | ⟨hc, hne, hr⟩
  · obtain ⟨⟨o, y⟩, hy, rfl⟩ := List.mem_map.mp hkey
    have hplace : (d.exec (.publish id len plan)).docs o = some y := place_of_mem h.nodup hy
    rw [hplace] at hx
    obtain rfl := Option.some.inj hx
    exact .inl ⟨y, hy, hid, hbody⟩
  · have hnext : d.docs plan.newNext ≠ none := by
      rcases h.link hc with h0 | ⟨hon, -⟩
      · exact absurd h0 hne
      · exact hm.docs_of_onChain hon
    rw [hm.docs_publish h (hm.docs_of_reach hnext hr)] at hx
    exact .inr ⟨hc, hne, hr, x, hx, hid, hbody⟩

theorem linkOf_exec_storeLink (hp : d.docs p ≠ none) :
    linkOf (d.exec (.storeLink p n)).docs = update (linkOf d.docs) p (asLink n) := linkOf_setLink hp

theorem holds_exec_storeLink : (d.exec (.storeLink p n)).Holds o i b ↔ d.Holds o i b := by
  by_cases ho : o = p
  · simp only [Disk.Holds, Disk.exec, ho, update_self, Option.map_eq_some_iff]
    constructor
    · rintro ⟨x, ⟨y, hy, rfl⟩, hid, hbody⟩
      exact ⟨y, hy, hid, hbody⟩
    · rintro ⟨y, hy, hid, hbody⟩
      exact ⟨_, ⟨y, hy, rfl⟩, hid, hbody⟩
  · simp only [Disk.Holds, Disk.exec, update_of_ne ho]

theorem docs_exec_storeLink : (d.exec (.storeLink p n)).docs o ≠ none ↔ d.docs o ≠ none :=
  setLink_ne_none

def Pre (d : Disk) : Store → Prop
  | .openBracket => d.version % 2 = 0
  | .closeBracket => d.version % 2 = 1
  | .publish _ len plan => d.version % 2 = 1 ∧ SlotOk d len plan
  | .setEntry e => d.version % 2 = 1 ∧ ∀ n, e = some n → d.OnChain n
  | .storeLink p n => d.OnChain p ∧ (n = 0 ∨ n ≠ p ∧ Reach (linkOf d.docs) p n)
  | .bumpEpoch => True
  | .evict _ => True

section

variable (hm : MemOk d)
include hm

theorem reach_exec_storeLink (hpre : Pre d (.storeLink p n))
    (h : Reach (linkOf (d.exec (.storeLink p n)).docs) a b) : Reach (linkOf d.docs) a b := by
  rw [linkOf_exec_storeLink (hm.docs_of_onChain hpre.1)] at h
  apply Reach.of_shortcut _ h
  intro m hmn
  obtain ⟨rfl, hne⟩ := asLink_eq_some hmn
  rcases hpre.2 with h0 | ⟨-, hr⟩
  · exact absurd h0 hne
  · exact hr

theorem MemOk.storeLink (hpre : Pre d (.storeLink p n)) : MemOk (d.exec (.storeLink p n)) := by
  have hp := hm.docs_of_onChain hpre.1
  have hlink : ∀ x y, linkOf (d.exec (.storeLink p n)).docs x = some y →
      linkOf d.docs x = some y ∨ x = p ∧ y < p ∧ Reach (linkOf d.docs) p y := by
    intro x y hl
    rw [linkOf_exec_storeLink hp] at hl
    by_cases hx : x = p
    · rw [hx, update_self] at hl
      obtain ⟨rfl, hne⟩ := asLink_eq_some hl
      rcases hpre.2 with h0 | ⟨hnp, hr⟩
      · exact absurd h0 hne
      · exact .inr ⟨hx, Nat.lt_of_le_of_ne (hm.le_of_reach hr) hnp, hr⟩
    · rw [update_of_ne hx] at hl
      exact .inl hl
  constructor
  · intro x y hl
    rcases hlink x y hl with hl | ⟨rfl, hlt, -⟩
    · exact hm.down x y hl
    · exact hlt
  · intro x y hl
    rw [docs_exec_storeLink]
    rcases hlink x y hl with hl | ⟨rfl, -, hr⟩
    · exact hm.closed x y hl
    · exact hm.docs_of_reach hp hr
  · intro e he
    rw [docs_exec_storeLink]
    exact hm.entry e he
  · intro o ho
    exact hm.placed o (docs_exec_storeLink.mp ho)
  · intro o x hx
    change update d.docs p _ o = some x at hx
    by_cases ho : o = p
    · rw [ho, update_self, Option.map_eq_some_iff] at hx
      obtain ⟨y, hy, rfl⟩ := hx
      exact hm.bodies p y hy
    · rw [update_of_ne ho] at hx
      exact hm.bodies o x hx
  · intro x y hl hx
    rcases hlink x y hl with hl | ⟨rfl, -, hr⟩
    · exact hm.onePass x y hl hx
    · exact hm.current_of_reach hx hr
  · exact hm.starts
  · exact hm.latest

theorem MemOk.setEntry {e : Option Nat} (hpre : Pre d (.setEntry e)) :
    MemOk (d.exec (.setEntry e)) :=
  { hm with entry := fun h hh => hm.docs_of_onChain (hpre.2 h hh) }

theorem MemOk.exec (hpre : Pre d st) : MemOk (d.exec st) := by
  cases st with
  | openBracket | closeBracket | bumpEpoch => exact { hm with }
  | publish id len plan => exact hm.publish hpre.2
  | setEntry e => exact hm.setEntry hpre
  | storeLink p n => exact hm.storeLink hpre
  | evict target => exact hm

theorem MemOk.wrap (cfg : Config) : MemOk (d.wrap cfg) := by
  refine { hm with onePass := ?_, starts := ?_ }
  · intro x y hl hx
    have := (hm.placed x (docs_of_linkOf hl)).2
    change d.cursor ≤ x at hx
    omega
  · have := hm.starts
    change (if cfg.wrapRetention = true then d.passStart else d.cursor) ≤ d.cursor ∧ _
    exact ⟨by split <;> omega, le_rfl, this.2.2⟩

theorem MemOk.advance (o : Nat) : MemOk (d.advance o) := by
  refine { hm with starts := ?_ }
  have := hm.starts
  change max d.exposed (min o d.passStart) ≤ d.passStart ∧ _
  exact ⟨by omega, this.2⟩

theorem MemOk.reach_exec (hpre : Pre d st) (ho : d.docs o ≠ none)
    (h : Reach (linkOf (d.exec st).docs) o m) : Reach (linkOf d.docs) o m := by
  cases st with
  | publish id len plan =>
    have hin : d.docs m ≠ none ∧ Reach (linkOf d.docs) o m := by
      apply h.keeps (P := fun x => d.docs x ≠ none ∧ Reach (linkOf d.docs) o x) _ ⟨ho, .refl o⟩
      rintro x y ⟨hx, hr⟩ hl
      rw [linkOf, hm.docs_publish hpre.2 hx] at hl
      exact ⟨hm.closed x y hl, hr.tail hl⟩
    exact hin.2
  | storeLink p n => exact reach_exec_storeLink hm hpre h
  | openBracket | closeBracket | setEntry e | bumpEpoch | evict target => exact h

theorem MemOk.holds_exec (hpre : Pre d st) (h : d.Holds o i b) : (d.exec st).Holds o i b := by
  cases st with
  | publish id len plan =>
    obtain ⟨x, hx, hid, hbody⟩ := h
    refine ⟨x, ?_, hid, hbody⟩
    rw [hm.docs_publish hpre.2 (by rw [hx]; exact Option.some_ne_none x), hx]
  | storeLink p n => exact holds_exec_storeLink.mpr h
  | openBracket | closeBracket | setEntry e | bumpEpoch | evict target => exact h

theorem MemOk.onChain_exec (hpre : Pre d st) (hst : ∀ id len plan, st ≠ .publish id len plan)
    (h : (d.exec st).OnChain o) : d.OnChain o := by
  cases st with
  | publish id len plan => exact absurd rfl (hst id len plan)
  | setEntry e =>
    obtain ⟨n, hn, hr⟩ := h
    exact (hpre.2 n hn).trans hr
  | storeLink p n =>
    obtain ⟨e, he, hr⟩ := h
    exact ⟨e, he, reach_exec_storeLink hm hpre hr⟩
  | openBracket | closeBracket | bumpEpoch | evict target => exact h

end

variable {cfg : Config}

structure NodeOk (cfg : Config) (d : Disk) (n : ChainNode) : Prop where
  holds : d.Holds n.relOffset n.id n.body
  link : linkOf d.docs n.relOffset = asLink n.nextRel
  len : kHeaderSize ≤ n.len
  cls : n.cls = d.classify cfg n.relOffset

theorem MemOk.nodeOk (hm : MemOk d) {x : AltDoc} (hx : d.docs o = some x) :
    NodeOk cfg d ⟨o, x.nextAlternateOffset, x.len, x.alternateId, d.classify cfg o, x.body⟩ :=
  ⟨⟨x, hx, rfl, rfl⟩, linkOf_eq hx, (hm.bodies o x hx).2, rfl⟩

theorem MemOk.walkFrom_nodes (hm : MemOk d) :
    ∀ n ∈ (d.walkFrom cfg fuel o).1, NodeOk cfg d n ∧ Reach (linkOf d.docs) o n.relOffset := by
  induction fuel generalizing o with
  | zero =>
    intro n hn
    cases hn
  | succ fuel ih =>
    intro n hn
    simp only [Disk.walkFrom] at hn
    split at hn
    · cases hn
    · next x hx =>
      split at hn
      · obtain rfl := List.mem_singleton.mp hn
        exact ⟨hm.nodeOk hx, .refl o⟩
      · next hgo =>
        rw [not_or] at hgo
        rcases List.mem_cons.mp hn with rfl | hn
        · exact ⟨hm.nodeOk hx, .refl o⟩
        · obtain ⟨hok, hr⟩ := ih n hn
          have hl : linkOf d.docs o = some x.nextAlternateOffset := by
            rw [linkOf_eq hx, asLink, if_neg hgo.1]
          exact ⟨hok, Reach.head hl hr⟩

theorem walkFrom_head {head : ChainNode} {rest : List ChainNode}
    (h : (d.walkFrom cfg fuel o).1 = head :: rest) : head.relOffset = o := by
  cases fuel with
  | zero => cases h
  | succ fuel =>
    simp only [Disk.walkFrom] at h
    split at h
    · cases h
    · split at h <;> cases h <;> rfl

theorem walkFrom_linked : (d.walkFrom cfg fuel o).1.IsChain fun a b => a.nextRel = b.relOffset := by
  induction fuel generalizing o with
  | zero => exact List.IsChain.nil
  | succ fuel ih =>
    simp only [Disk.walkFrom]
    split
    · exact List.IsChain.nil
    · split
      · exact List.IsChain.singleton _
      · next x _ _ =>
        cases hrest : (d.walkFrom cfg fuel x.nextAlternateOffset).1 with
        | nil => exact List.IsChain.singleton _
        | cons head rest =>
          rw [List.isChain_cons_cons]
          refine ⟨(walkFrom_head hrest).symm, ?_⟩
          rw [← hrest]
          exact ih

theorem classify_of_current (h : d.passStart ≤ o) : d.classify cfg o = .kCurrent := if_pos h

theorem MemOk.walkFrom_path (hm : MemOk d) (ho : d.docs o ≠ none) (hcur : d.passStart ≤ o)
    (hfull : (d.walkFrom cfg fuel o).2 = false) :
    IsPath (linkOf d.docs) (some o) ((d.walkFrom cfg fuel o).1.map ChainNode.relOffset) := by
  induction fuel generalizing o with
  | zero => cases hfull
  | succ fuel ih =>
    obtain ⟨x, hx⟩ := Option.ne_none_iff_exists'.mp ho
    simp only [Disk.walkFrom, hx] at hfull ⊢
    by_cases hnext : x.nextAlternateOffset = 0
    · rw [if_pos (.inl hnext)]
      refine ⟨rfl, ?_⟩
      change linkOf d.docs o = none
      rw [linkOf_eq hx, asLink, if_pos hnext]
    · have hl : linkOf d.docs o = some x.nextAlternateOffset := by
        rw [linkOf_eq hx, asLink, if_neg hnext]
      have hcur' := hm.onePass _ _ hl hcur
      have hgo : ¬ (x.nextAlternateOffset = 0 ∨
          d.classify cfg x.nextAlternateOffset = .kReject) := by
        rw [not_or, classify_of_current hcur']
        exact ⟨hnext, AdmitClass.noConfusion⟩
      rw [if_neg hgo] at hfull ⊢
      refine ⟨rfl, ?_⟩
      change IsPath _ (linkOf d.docs o) _
      rw [hl]
      exact ih (hm.closed _ _ hl) hcur' hfull

theorem MemOk.chain_spec (hm : MemOk d) {head : ChainNode} {rest : List ChainNode}
    {truncated : Bool} (h : d.chain cfg = (head :: rest, truncated)) :
    d.entry = some head.relOffset ∧ head.cls ≠ .kReject ∧
      (head :: rest).IsChain (fun a b => a.nextRel = b.relOffset) ∧
      (∀ n ∈ head :: rest, NodeOk cfg d n ∧ d.OnChain n.relOffset) ∧
      (head.cls = .kCurrent → truncated = false →
        IsPath (linkOf d.docs) (some head.relOffset) ((head :: rest).map ChainNode.relOffset)) := by
  unfold Disk.chain at h
  split at h
  · cases h
  · next e he =>
    split at h
    · cases h
    · next hcls =>
      have hnodes : (d.walkFrom cfg kMaxChainTraversalDepth e).1 = head :: rest :=
        congrArg Prod.fst h
      have hcut : (d.walkFrom cfg kMaxChainTraversalDepth e).2 = truncated := congrArg Prod.snd h
      obtain rfl := walkFrom_head hnodes
      have hall : ∀ n ∈ head :: rest, NodeOk cfg d n ∧ d.OnChain n.relOffset := by
        intro n hn
        rw [← hnodes] at hn
        obtain ⟨hok, hr⟩ := hm.walkFrom_nodes n hn
        exact ⟨hok, _, he, hr⟩
      have hhead := (hall head List.mem_cons_self).1.cls
      refine ⟨he, hhead ▸ hcls, hnodes ▸ walkFrom_linked, hall, ?_⟩
      intro hc hfull
      rw [← hnodes]
      refine hm.walkFrom_path (hm.entry _ he) ?_ (hcut.trans hfull)
      rw [hhead] at hc
      unfold Disk.classify at hc
      split at hc
      · assumption
      · split at hc <;> cases hc

end

end CycloneCache.Ref.Ram

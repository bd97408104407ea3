import CycloneCache.Proofs.ChainRemoval
import CycloneCache.Proofs.RamChain

namespace CycloneCache.Ref.Ram

open Lib Function

structure Settled (d : Disk) : Prop where
  newest : ∀ o i b, d.OnChain o → d.Holds o i b → b = d.latest i
  distinct : ∀ o o' i b b', d.OnChain o → d.OnChain o' → d.Holds o i b → d.Holds o' i b' → o = o'

structure Promised (cfg : Config) (d : Disk) (rest : List Store) (out : Outcome) : Prop where
  evicts : ∀ r, out.raise = some r →
    ∃ target, .evict target ∈ rest ∧ ∀ i, covers r.target i = true → covers target i = true
  least : ∀ r, out.raise = some r → r.least ≤ d.bodies
  raised : cfg.unlinkSupersededAlternates = true → ∀ r, out.raise = some r →
    ∀ o i b, d.OnChain o → d.Holds o i b → covers r.target i = true → r.least ≤ b
  rebased : ∀ p, out.rewritten = some p →
    out.raise = some ⟨some kOriginal, p⟩ ∧ ∀ o i b, d.OnChain o → d.Holds o i b → p ≤ b

def Store.isPublish : Store → Bool
  | .publish _ _ _ => true
  | _ => false

def StoreOk (cfg : Config) (d : Disk) (rest : List Store) (out : Outcome) : Store → Prop
  | .publish id _ _ =>
    out.raise = some ⟨some id, d.bodies⟩ ∧ (∀ st ∈ rest, st.isPublish = false) ∧
      (cfg.unlinkSupersededAlternates = true → Settled d)
  | .setEntry _ => cfg.unlinkSupersededAlternates = true → Settled d
  | .bumpEpoch => Promised cfg d rest out
  | _ => True

def ProgramOk (cfg : Config) (out : Outcome) : Disk → List Store → Prop
  | d, [] => d.version % 2 = 0 ∧ (cfg.unlinkSupersededAlternates = true → Settled d)
  | d, st :: rest => Pre d st ∧ StoreOk cfg d rest out st ∧ ProgramOk cfg out (d.exec st) rest

section

variable {cfg : Config} {d : Disk} {out : Outcome}

theorem settled_of_no_entry (h : d.entry = none) : Settled d := by
  constructor
  · rintro o i b ⟨e, he, -⟩
    rw [h] at he
    cases he
  · rintro o o' i b b' ⟨e, he, -⟩
    rw [h] at he
    cases he

variable {d' : Disk} {target : Option Nat} {id len : Nat} {plan : WritePlan}
  {head keeper : ChainNode} {rest nodes : List ChainNode}

theorem Settled.of_shrink (hs : Settled d) (hon : ∀ o, d'.OnChain o → d.OnChain o)
    (hholds : ∀ o i b, d'.Holds o i b → d.Holds o i b) (hlatest : d'.latest = d.latest) :
    Settled d' := by
  constructor
  · intro o i b ho hb
    rw [hlatest]
    exact hs.newest o i b (hon o ho) (hholds o i b hb)
  · intro o o' i b b' ho ho' hb hb'
    exact hs.distinct o o' i b b' (hon o ho) (hon o' ho') (hholds o i b hb) (hholds o' i b' hb')

theorem odd_opened (hv : d.version % 2 = 0) : (d.exec .openBracket).version % 2 = 1 := by
  change (d.version + 1) % 2 = 1
  omega

theorem programOk_inBracket {st : Store} {rest : List Store} (hv : d.version % 2 = 0)
    (hpre : Pre (d.exec .openBracket) st)
    (hst : StoreOk cfg (d.exec .openBracket) (.closeBracket :: rest) out st)
    (hversion : ((d.exec .openBracket).exec st).version = (d.exec .openBracket).version)
    (hrest : ProgramOk cfg out (((d.exec .openBracket).exec st).exec .closeBracket) rest) :
    ProgramOk cfg out d (inBracket st ++ rest) := by
  refine ⟨hv, trivial, hpre, hst, ?_, trivial, hrest⟩
  change ((d.exec .openBracket).exec st).version % 2 = 1
  rw [hversion]
  exact odd_opened hv

theorem programOk_invalidate (hp : Promised cfg d [.evict target] out) (hv : d.version % 2 = 0)
    (hs : cfg.unlinkSupersededAlternates = true → Settled d) :
    ProgramOk cfg out d (invalidate cfg target) := by
  rw [invalidate]
  split
  · exact ⟨trivial, hp, trivial, trivial, hv, fun hu => { hs hu with }⟩
  · exact ⟨hv, hs⟩

theorem not_isPublish_invalidate : ∀ st ∈ invalidate cfg target, st.isPublish = false := by
  intro st hst
  unfold invalidate at hst
  split at hst
  · rcases List.mem_cons.mp hst with rfl | hst
    · rfl
    · obtain rfl := List.mem_singleton.mp hst
      rfl
  · cases hst

theorem MemOk.onChain_alone (hm : MemOk d) (h : SlotOk d len plan) (hc : plan.carried = [])
    (hn : plan.newNext = 0) {m i b : Nat} (hon : (d.exec (.publish id len plan)).OnChain m)
    (hh : (d.exec (.publish id len plan)).Holds m i b) : m = d.cursor ∧ i = id ∧ b = d.bodies := by
  rcases hm.onChain_publish h hon hh with ⟨x, hx, rfl, rfl⟩ | ⟨-, hne, -⟩
  · rw [slotDocs, hc] at hx
    cases List.mem_singleton.mp hx
    exact ⟨rfl, rfl, rfl⟩
  · exact absurd hn hne

theorem MemOk.settled_alone (hm : MemOk d) (h : SlotOk d len plan) (hc : plan.carried = [])
    (hn : plan.newNext = 0) : Settled (d.exec (.publish id len plan)) := by
  constructor
  · intro o i b ho hb
    obtain ⟨-, rfl, rfl⟩ := hm.onChain_alone h hc hn ho hb
    exact (update_self i d.bodies d.latest).symm
  · intro o o' i b b' ho ho' hb hb'
    obtain ⟨rfl, -⟩ := hm.onChain_alone h hc hn ho hb
    exact (hm.onChain_alone h hc hn ho' hb').1.symm

theorem slotOk_fresh (hlen : kHeaderSize ≤ len) : SlotOk d len freshPlan :=
  ⟨hlen, nofun, fun _ => .inl rfl⟩

theorem programOk_write (hm : MemOk d) (hv : d.version % 2 = 0)
    (hs : cfg.unlinkSupersededAlternates = true → Settled d) (hlen : kHeaderSize ≤ len) :
    ProgramOk cfg (writeProgram cfg d len).out d (writeProgram cfg d len).stores := by
  have hm₁ : MemOk (d.exec .openBracket) := hm.exec hv
  have hslot : SlotOk (d.exec .openBracket) len freshPlan := slotOk_fresh hlen
  have hodd := odd_opened hv
  have halone : ∀ {m i b : Nat}, ((d.exec .openBracket).exec
      (.publish kOriginal len freshPlan)).OnChain m →
      ((d.exec .openBracket).exec (.publish kOriginal len freshPlan)).Holds m i b →
      i = kOriginal ∧ b = d.bodies := by
    intro m i b hon hh
    exact (hm₁.onChain_alone hslot rfl rfl hon hh).2
  refine programOk_inBracket hv ⟨hodd, hslot⟩ ⟨rfl, ?_, fun hu => { hs hu with }⟩ rfl
    (programOk_invalidate ?_ ?_ fun _ => { hm₁.settled_alone hslot rfl rfl with })
  · exact List.forall_mem_cons.mpr ⟨rfl, not_isPublish_invalidate⟩
  · constructor
    · intro r hr
      cases hr
      exact ⟨_, List.mem_singleton_self _, fun _ h => h⟩
    · intro r hr
      cases hr
      exact Nat.le_succ _
    · intro _ r hr o i b hon hh _
      cases hr
      exact (halone hon hh).2.ge
    · intro p hp
      cases hp
      exact ⟨rfl, fun o i b hon hh => (halone hon hh).2.ge⟩
  · change (d.version + 1 + 1) % 2 = 0
    omega

theorem programOk_dropKey (hv : d.version % 2 = 0)
    (hs : cfg.unlinkSupersededAlternates = true → Settled d) :
    ProgramOk cfg (dropKeyProgram cfg d).out d (dropKeyProgram cfg d).stores := by
  have hodd := odd_opened hv
  refine programOk_inBracket hv ⟨hodd, nofun⟩ (fun hu => { hs hu with }) rfl
    (programOk_invalidate ?_ ?_ fun _ => settled_of_no_entry rfl)
  · constructor
    · intro r hr
      cases hr
      exact ⟨_, List.mem_singleton_self _, fun _ h => h⟩
    · intro r hr
      cases hr
      exact le_rfl
    · rintro _ r hr o i b ⟨e, he, -⟩
      cases he
    · intro p hp
      cases hp
  · change (d.version + 1 + 1) % 2 = 0
    omega

theorem promised_unlink {target : ChainNode} (hbody : target.body < d'.bodies)
    (hgone : cfg.unlinkSupersededAlternates = true → ∀ o b, d'.OnChain o →
      ¬ d'.Holds o target.id b) :
    Promised cfg d' [.evict (some target.id)] ⟨some ⟨some target.id, target.body + 1⟩, none⟩ := by
  constructor
  · intro r hr
    cases hr
    exact ⟨_, List.mem_singleton_self _, fun _ h => h⟩
  · intro r hr
    cases hr
    exact hbody
  · intro hu r hr o i b hon hh hcov
    cases hr
    have hi : target.id = i := by simpa [covers] using hcov
    exact absurd (hi ▸ hh) (hgone hu o b hon)
  · intro p hp
    cases hp

theorem predOf_spec {pred target : ChainNode} (h : predOf id head rest = some (pred, target)) :
    target.id = id ∧ ∃ l₁ l₂, head :: rest = l₁ ++ pred :: target :: l₂ := by
  induction rest generalizing head with
  | nil => cases h
  | cons n ns ih =>
    unfold predOf at h
    split at h
    · next hn =>
      cases h
      exact ⟨hn, [], ns, rfl⟩
    · obtain ⟨hid, l₁, l₂, hl⟩ := ih h
      exact ⟨hid, head :: l₁, l₂, by rw [hl, List.cons_append]⟩

theorem MemOk.next_cases (hm : MemOk d) {n : ChainNode} (hn : NodeOk cfg d n) :
    n.nextRel = 0 ∨ n.nextRel < n.relOffset ∧ linkOf d.docs n.relOffset = some n.nextRel := by
  by_cases h0 : n.nextRel = 0
  · exact .inl h0
  · have hl := hn.link
    rw [asLink, if_neg h0] at hl
    exact .inr ⟨hm.down _ _ hl, hl⟩

theorem programOk_unlinkHead (hm : MemOk d) (hv : d.version % 2 = 0)
    (hs : cfg.unlinkSupersededAlternates = true → Settled d) (hn : NodeOk cfg d head)
    (he : d.entry = some head.relOffset) {e : Option Nat}
    (hnext : ∀ n, e = some n → n < head.relOffset ∧ d.OnChain n) :
    ProgramOk cfg (unlinkProgram cfg head (inBracket (.setEntry e))).out d
      (unlinkProgram cfg head (inBracket (.setEntry e))).stores := by
  have hodd := odd_opened hv
  have hpre : Pre (d.exec .openBracket) (.setEntry e) := ⟨hodd, fun n hn => (hnext n hn).2⟩
  have hm₁ : MemOk (d.exec .openBracket) := hm.exec hv
  have hon : ∀ o, ((d.exec .openBracket).exec (.setEntry e)).OnChain o →
      d.OnChain o ∧ o < head.relOffset := by
    rintro o ⟨n, hne, hr⟩
    obtain ⟨hlt, hon⟩ := hnext n hne
    exact ⟨hon.trans hr, lt_of_le_of_lt (hm.le_of_reach hr) hlt⟩
  have hbody : head.body < d.bodies := by
    obtain ⟨x, hx, -, hb⟩ := hn.holds
    have := (hm.bodies _ x hx).1
    omega
  refine programOk_inBracket hv hpre (fun hu => { hs hu with }) rfl
    (programOk_invalidate (promised_unlink hbody ?_) ?_ ?_)
  · intro hu o b ho hh
    have heq := (hs hu).distinct o head.relOffset head.id b head.body (hon o ho).1
      ⟨_, he, .refl _⟩ hh hn.holds
    have := (hon o ho).2
    omega
  · change (d.version + 1 + 1) % 2 = 0
    omega
  · intro hu
    exact (hs hu).of_shrink (fun o ho => (hon o ho).1) (fun _ _ _ h => h) rfl

theorem programOk_unlinkMiddle (hm : MemOk d)
    (hv : d.version % 2 = 0) (hs : cfg.unlinkSupersededAlternates = true → Settled d)
    {pred target : ChainNode} (ht : NodeOk cfg d target) (hpred : d.OnChain pred.relOffset)
    (hlink : linkOf d.docs pred.relOffset = some target.relOffset) :
    ProgramOk cfg (unlinkProgram cfg target (.storeLink pred.relOffset target.nextRel ::
        if cfg.mmapDirectory then [.openBracket, .closeBracket] else [])).out d
      (unlinkProgram cfg target (.storeLink pred.relOffset target.nextRel ::
        if cfg.mmapDirectory then [.openBracket, .closeBracket] else [])).stores := by
  have hlt := hm.down _ _ hlink
  have hpre : Pre d (.storeLink pred.relOffset target.nextRel) := by
    refine ⟨hpred, ?_⟩
    rcases hm.next_cases ht with h0 | ⟨hlt', hl⟩
    · exact .inl h0
    · exact .inr ⟨by omega, Reach.head hlink (Reach.head hl (.refl _))⟩
  have honT : d.OnChain target.relOffset := hpred.trans (Reach.head hlink (.refl _))
  have hbody : target.body < d.bodies := by
    obtain ⟨x, hx, -, hb⟩ := ht.holds
    have := (hm.bodies _ x hx).1
    omega
  have hon : ∀ o, (d.exec (.storeLink pred.relOffset target.nextRel)).OnChain o →
      d.OnChain o ∧ o ≠ target.relOffset := by
    rintro o ⟨e, he, hr⟩
    refine ⟨⟨e, he, reach_exec_storeLink hm hpre hr⟩, ?_⟩
    rintro rfl
    obtain ⟨e', he', hep⟩ := hpred
    change d.entry = some e at he
    rw [he] at he'
    cases he'
    rw [linkOf_exec_storeLink (hm.docs_of_onChain hpre.1)] at hr
    exact not_reach_of_unlink hm.down hlink ht.link hep hr
  have hrest : ∀ d' : Disk, d'.docs = (d.exec (.storeLink pred.relOffset target.nextRel)).docs →
      d'.entry = d.entry → d'.bodies = d.bodies → d'.latest = d.latest → d'.version % 2 = 0 →
      ProgramOk cfg ⟨some ⟨some target.id, target.body + 1⟩, none⟩ d'
        (invalidate cfg (some target.id)) := by
    intro d' hdocs hentry hbodies hlatest hv'
    have hon' : ∀ o, d'.OnChain o → d.OnChain o ∧ o ≠ target.relOffset := by
      rintro o ⟨e, he, hr⟩
      rw [hentry] at he
      rw [hdocs] at hr
      exact hon o ⟨e, he, hr⟩
    have hholds : ∀ o i b, d'.Holds o i b → d.Holds o i b := by
      intro o i b hh
      simp only [Disk.Holds, hdocs] at hh
      exact holds_exec_storeLink.mp hh
    refine programOk_invalidate (promised_unlink (by omega) ?_) hv' ?_
    · intro hu o b ho hh
      exact (hon' o ho).2 ((hs hu).distinct o target.relOffset target.id b target.body
        (hon' o ho).1 honT (hholds _ _ _ hh) ht.holds)
    · intro hu
      exact (hs hu).of_shrink (fun o ho => (hon' o ho).1) hholds hlatest
  refine ⟨hpre, trivial, ?_⟩
  split
  · -- the touch of the bucket is a bracket without a store
    refine ⟨hv, trivial, ?_, trivial, hrest _ rfl rfl rfl rfl ?_⟩
    · change (d.version + 1) % 2 = 1
      omega
    · change (d.version + 1 + 1) % 2 = 0
      omega
  · exact hrest _ rfl rfl rfl rfl hv

theorem programOk_remove (hv : d.version % 2 = 0)
    (hs : cfg.unlinkSupersededAlternates = true → Settled d) {p : Program}
    (hp : removeProgram cfg d = some p) : ProgramOk cfg p.out d p.stores := by
  unfold removeProgram at hp
  split at hp <;> cases hp
  exact programOk_dropKey hv hs

theorem programOk_removeAlternate (hm : MemOk d) (hv : d.version % 2 = 0)
    (hs : cfg.unlinkSupersededAlternates = true → Settled d) {p : Program}
    (hp : removeAlternateProgram cfg d id = some p) : ProgramOk cfg p.out d p.stores := by
  unfold removeAlternateProgram at hp
  split at hp
  · cases hp
  · next head rest hnodes =>
    obtain ⟨he, -, hchain, hall, -⟩ := hm.chain_spec (Prod.ext hnodes rfl)
    obtain ⟨hhead, hhon⟩ := hall head List.mem_cons_self
    split at hp
    · split at hp <;> cases hp
      exact programOk_dropKey hv hs
    · split at hp
      · split at hp
        · cases hp
          exact programOk_unlinkHead hm hv hs hhead he nofun
        · next h0 =>
          split at hp <;> cases hp
          refine programOk_unlinkHead hm hv hs hhead he ?_
          intro n hn
          cases hn
          rcases hm.next_cases hhead with h0' | ⟨hlt, hl⟩
          · exact absurd h0' h0
          · exact ⟨hlt, hhon.trans (Reach.head hl (.refl _))⟩
      · split at hp <;> cases hp
        next pred target hpred =>
        obtain ⟨-, l₁, l₂, hl⟩ := predOf_spec hpred
        have hmem : pred ∈ head :: rest ∧ target ∈ head :: rest := by
          rw [hl]
          exact ⟨by simp, by simp⟩
        obtain ⟨hpok, hpon⟩ := hall pred hmem.1
        obtain ⟨htok, -⟩ := hall target hmem.2
        refine programOk_unlinkMiddle hm hv hs htok hpon ?_
        rw [hl] at hchain
        have hnext := (List.isChain_append_cons_cons.mp hchain).2.1
        have hpos := (hm.placed _ htok.holds.docs).1
        rw [hpok.link, hnext, asLink, if_neg (by omega)]

structure Spliced (d d' : Disk) (k : Nat) : Prop where
  mem : MemOk d'
  entry : d'.entry = d.entry
  version : d'.version = d.version
  bodies : d'.bodies = d.bodies
  latest : d'.latest = d.latest
  holds : ∀ o i b, d'.Holds o i b ↔ d.Holds o i b
  above : ∀ x, k < x → linkOf d'.docs x = linkOf d.docs x

theorem Spliced.refl (hm : MemOk d) (k : Nat) : Spliced d d k :=
  ⟨hm, rfl, rfl, rfl, rfl, fun _ _ _ => Iff.rfl, fun _ _ => rfl⟩

theorem MemOk.spliced (hm : MemOk d) {p n k : Nat} (hpre : Pre d (.storeLink p n)) (hk : p ≤ k) :
    Spliced d (d.exec (.storeLink p n)) k := by
  refine ⟨hm.storeLink hpre, rfl, rfl, rfl, rfl, fun _ _ _ => holds_exec_storeLink, ?_⟩
  intro x hx
  rw [linkOf_exec_storeLink (hm.docs_of_onChain hpre.1), update_of_ne (by omega)]

theorem Spliced.trans {d₁ d₂ : Disk} {k n : Nat} (h₁ : Spliced d d₁ k) (h₂ : Spliced d₁ d₂ n)
    (hn : n ≤ k) : Spliced d d₂ k := by
  refine ⟨h₂.mem, h₂.entry.trans h₁.entry, h₂.version.trans h₁.version,
    h₂.bodies.trans h₁.bodies, h₂.latest.trans h₁.latest,
    fun o i b => (h₂.holds o i b).trans (h₁.holds o i b), ?_⟩
  intro x hx
  rw [h₂.above x (by omega), h₁.above x hx]

theorem splices_ok {w : Nat} {after : List Store} :
    ∀ {d : Disk} {k : ChainNode} {shadows : List ChainNode}, MemOk d → d.OnChain k.relOffset →
      IsPath (linkOf d.docs) (some k.relOffset)
        (k.relOffset :: (shadows ++ rest).map ChainNode.relOffset) →
      (∀ d', Spliced d d' k.relOffset → IsPath (linkOf d'.docs) (some k.relOffset)
          (k.relOffset :: (rest.filter (·.id != w)).map ChainNode.relOffset) →
        ProgramOk cfg out d' after) →
      ProgramOk cfg out d ((planRepoints w true k shadows.length rest).map
          (fun r => Store.storeLink r.predRel r.newNext) ++ after) := by
  induction rest with
  | nil =>
    intro d k shadows hm hk hpath hafter
    rw [List.append_nil] at hpath
    simp only [planRepoints]
    split
    · -- a trailing run: the chain ends at the keeper
      have hpre : Pre d (.storeLink k.relOffset 0) := ⟨hk, .inl rfl⟩
      refine ⟨hpre, trivial, hafter _ (hm.spliced hpre le_rfl) ?_⟩
      rw [linkOf_exec_storeLink (hm.docs_of_onChain hk)]
      exact IsPath.splice (shadows.map ChainNode.relOffset)
        (by rw [List.append_nil]; exact hpath) List.not_mem_nil
    · next hrun =>
      have hnil : shadows = [] := by
        rcases not_and_or.mp hrun with hrun | hrun
        · exact List.eq_nil_of_length_eq_zero (by omega)
        · exact absurd trivial hrun
      rw [hnil] at hpath
      exact hafter d (.refl hm _) hpath
  | cons n ns ih =>
    intro d k shadows hm hk hpath hafter
    rw [planRepoints]
    by_cases hid : n.id = w
    · -- one more superseded node
      rw [if_pos hid]
      have hlen : shadows.length + 1 = (shadows ++ [n]).length := by simp
      rw [hlen]
      apply ih hm hk
      · rw [List.append_assoc, List.singleton_append]
        exact hpath
      · intro d' hd' hp
        apply hafter d' hd'
        rw [List.filter_cons_of_neg (by simp [hid])]
        exact hp
    · rw [if_neg hid]
      have hfilter : ((n :: ns).filter (·.id != w)) = n :: ns.filter (·.id != w) :=
        List.filter_cons_of_pos (by simp [hid])
      rw [hfilter] at hafter
      have hmem : n.relOffset ∈ k.relOffset :: (shadows ++ n :: ns).map ChainNode.relOffset := by
        simp
      have hreach := hpath.mem_iff.mp hmem
      have hlt : n.relOffset < k.relOffset := by
        apply IsPath.lt_of_mem hm.down hpath.2
        simp
      have hpos := (hm.placed _ (hm.docs_of_reach (hm.docs_of_onChain hk) hreach)).1
      -- the keeper links to `n`, by a store or already
      have hgo : ∀ d₁ : Disk, Spliced d d₁ k.relOffset → d₁.OnChain k.relOffset →
          IsPath (linkOf d₁.docs) (some k.relOffset)
            (k.relOffset :: n.relOffset :: ns.map ChainNode.relOffset) →
          ProgramOk cfg out d₁ ((planRepoints w true n 0 ns).map
            (fun r => Store.storeLink r.predRel r.newNext) ++ after) := by
        intro d₁ hd₁ hk₁ hp₁
        have hnext : linkOf d₁.docs k.relOffset = some n.relOffset := hp₁.2.1
        have hp₂ : IsPath (linkOf d₁.docs) (some n.relOffset)
            (n.relOffset :: ns.map ChainNode.relOffset) := by
          have := hp₁.2
          rwa [hnext] at this
        refine @ih d₁ n [] hd₁.mem (hk₁.trans (Reach.head hnext (.refl _))) hp₂ ?_
        intro d' hd' hp'
        refine hafter d' (hd₁.trans hd' (Nat.le_of_lt hlt)) ⟨rfl, ?_⟩
        rw [hd'.above _ hlt, hnext]
        exact hp'
      by_cases hrun : shadows.length > 0
      · rw [if_pos hrun]
        have hpre : Pre d (.storeLink k.relOffset n.relOffset) :=
          ⟨hk, .inr ⟨Nat.ne_of_lt hlt, hreach⟩⟩
        refine ⟨hpre, trivial, hgo _ (hm.spliced hpre le_rfl) ?_ ?_⟩
        · obtain ⟨e, he, hr⟩ := hk
          refine ⟨e, he, ?_⟩
          rw [linkOf_exec_storeLink (hm.docs_of_onChain ⟨e, he, hr⟩)]
          exact hr.update_last
        · rw [linkOf_exec_storeLink (hm.docs_of_onChain hk), asLink,
            if_neg (Nat.pos_iff_ne_zero.mp hpos)]
          rw [List.map_append] at hpath
          apply hpath.splice (shadows.map ChainNode.relOffset)
          intro hmem
          have hself := IsPath.lt_of_mem hm.down hpath.2 (List.mem_append_right _ hmem)
          omega
      · rw [if_neg hrun]
        have hnil : shadows = [] := List.eq_nil_of_length_eq_zero (by omega)
        rw [hnil] at hpath
        exact hgo d (.refl hm _) hk hpath

structure DetachedPlan (d : Disk) (id : Nat) (plan : WritePlan) : Prop where
  next : plan.newNext = 0
  repoints : plan.repoints = []
  carried : ∀ c ∈ plan.carried, Carries d c ∧ c.id ≠ id
  ids : (plan.carried.map ChainNode.id).Nodup

structure LinkedPlan (cfg : Config) (d : Disk) (id : Nat) (plan : WritePlan)
    (keeper : ChainNode) (rest : List ChainNode) : Prop where
  carried : plan.carried = []
  next : plan.newNext = keeper.relOffset
  onChain : d.OnChain keeper.relOffset
  current : d.passStart ≤ keeper.relOffset
  holds : ∀ n ∈ keeper :: rest, d.Holds n.relOffset n.id n.body
  path : IsPath (linkOf d.docs) (some keeper.relOffset) ((keeper :: rest).map ChainNode.relOffset)
  repoints : cfg.unlinkSupersededAlternates = false ∧ plan.repoints = [] ∨
    keeper.id ≠ id ∧ plan.repoints = planRepoints id true keeper 0 rest

def PlanOk (cfg : Config) (d : Disk) (id : Nat) (plan : WritePlan) : Prop :=
  DetachedPlan d id plan ∨ ∃ keeper rest, LinkedPlan cfg d id plan keeper rest

theorem promised_publish {b : Nat} (htarget : covers target id = true) (hb : b < d'.bodies)
    (hs : cfg.unlinkSupersededAlternates = true → Settled d' ∧ d'.latest id = b) :
    Promised cfg d' [.evict target] ⟨some ⟨some id, b⟩, none⟩ := by
  constructor
  · intro r hr
    cases hr
    refine ⟨_, List.mem_singleton_self _, ?_⟩
    intro i hi
    have hid : id = i := by simpa [covers] using hi
    exact hid ▸ htarget
  · intro r hr
    cases hr
    exact Nat.le_of_lt hb
  · intro hu r hr o i b' hon hh hcov
    cases hr
    have hid : id = i := by simpa [covers] using hcov
    have hnew := (hs hu).1.newest o i b' hon hh
    rw [← hid, (hs hu).2] at hnew
    exact hnew.ge
  · intro p hp
    cases hp

theorem DetachedPlan.slotOk (h : DetachedPlan d id plan) (hlen : kHeaderSize ≤ len) :
    SlotOk d len plan :=
  ⟨hlen, fun c hc => (h.carried c hc).1, fun _ => .inl h.next⟩

theorem LinkedPlan.slotOk (h : LinkedPlan cfg d id plan keeper rest) (hlen : kHeaderSize ≤ len) :
    SlotOk d len plan := by
  refine ⟨hlen, ?_, fun _ => .inr ?_⟩
  · intro c hc
    rw [h.carried] at hc
    cases hc
  · rw [h.next]
    exact ⟨h.onChain, h.current⟩

theorem slotDocs_ids {pass base body : Nat} :
    (slotDocs pass id len plan base body).map (fun x => x.2.alternateId) =
      plan.carried.map ChainNode.id ++ [id] := by
  rw [slotDocs, List.map_append, layCarried_ids]
  rfl

theorem DetachedPlan.settled (h : DetachedPlan d id plan) (hm : MemOk d) (hlen : kHeaderSize ≤ len)
    (hs : Settled d) : Settled (d.exec (.publish id len plan)) := by
  have hslot := h.slotOk hlen
  have hmem : ∀ {m i b : Nat}, (d.exec (.publish id len plan)).OnChain m →
      (d.exec (.publish id len plan)).Holds m i b →
      ∃ x, (m, x) ∈ slotDocs d.pass id len plan d.cursor d.bodies ∧ x.alternateId = i ∧
        x.body = b := by
    intro m i b hon hh
    rcases hm.onChain_publish hslot hon hh with hx | ⟨-, hne, -⟩
    · exact hx
    · exact absurd h.next hne
  constructor
  · intro o i b hon hh
    obtain ⟨x, hx, rfl, rfl⟩ := hmem hon hh
    change x.body = update d.latest id d.bodies x.alternateId
    rcases (hslot.source hx).2 with ⟨-, hid, hbody⟩ | ⟨c, hc, hid, hbody⟩
    · rw [hid, hbody, update_self]
    · obtain ⟨hcar, hne⟩ := h.carried c hc
      rw [hid, hbody, update_of_ne hne]
      exact hs.newest _ _ _ hcar.onChain hcar.holds
  · intro o o' i b b' hon hon' hh hh'
    obtain ⟨x, hx, hxi, -⟩ := hmem hon hh
    obtain ⟨y, hy, hyi, -⟩ := hmem hon' hh'
    have hnd : ((slotDocs d.pass id len plan d.cursor d.bodies).map
        (fun x => x.2.alternateId)).Nodup := by
      rw [slotDocs_ids, List.nodup_append]
      refine ⟨h.ids, List.nodup_singleton id, ?_⟩
      intro a ha b hb
      obtain ⟨c, hc, rfl⟩ := List.mem_map.mp ha
      rw [List.mem_singleton.mp hb]
      exact (h.carried c hc).2
    have heq := List.inj_on_of_nodup_map hnd hx hy (hxi.trans hyi.symm)
    exact congrArg Prod.fst heq

theorem LinkedPlan.published (h : LinkedPlan cfg d id plan keeper rest) (hm : MemOk d)
    (hlen : kHeaderSize ≤ len) :
    (d.exec (.publish id len plan)).entry = some d.cursor ∧
      linkOf (d.exec (.publish id len plan)).docs d.cursor = some keeper.relOffset ∧
      (d.exec (.publish id len plan)).Holds d.cursor id d.bodies ∧
      IsPath (linkOf (d.exec (.publish id len plan)).docs) (some keeper.relOffset)
        ((keeper :: rest).map ChainNode.relOffset) := by
  have hslot : SlotOk d len plan := h.slotOk hlen
  have hdocs : (d.exec (.publish id len plan)).docs d.cursor =
      some ⟨id, keeper.relOffset, len, d.pass % 2 ^ 32, d.bodies⟩ := by
    apply place_of_mem hslot.nodup
    rw [slotDocs, h.carried]
    simp [layCarried, carriedSize, h.next]
  have hpos := (hm.placed _ (hm.docs_of_onChain h.onChain)).1
  refine ⟨?_, ?_, ⟨_, hdocs, rfl, rfl⟩, ?_⟩
  · change some (d.cursor + carriedSize plan.carried) = _
    rw [h.carried]
    rfl
  · rw [linkOf_eq hdocs, asLink, if_neg (Nat.pos_iff_ne_zero.mp hpos)]
  · apply h.path.congr
    intro a ha
    have hreach := h.path.mem_iff.mp ha
    have hne := hm.docs_of_reach (hm.docs_of_onChain h.onChain) hreach
    simp only [linkOf, hm.docs_publish hslot hne]

theorem LinkedPlan.settled (h : LinkedPlan cfg d id plan keeper rest) (hm : MemOk d)
    (hlen : kHeaderSize ≤ len) (hs : Settled d) (hid : keeper.id ≠ id)
    (hd' : Spliced (d.exec (.publish id len plan)) d' keeper.relOffset)
    (hpath : IsPath (linkOf d'.docs) (some keeper.relOffset)
      (keeper.relOffset :: (rest.filter (·.id != id)).map ChainNode.relOffset)) : Settled d' := by
  obtain ⟨hentry, hlink, hnew, -⟩ := @LinkedPlan.published _ _ _ len _ _ _ h hm hlen
  have hlt : keeper.relOffset < d.cursor := (hm.placed _ (hm.docs_of_onChain h.onChain)).2
  -- a document below the new head was on the chain and is of another id
  have hbelow : ∀ {m i b : Nat}, d'.OnChain m → d'.Holds m i b →
      (m = d.cursor ∧ i = id ∧ b = d.bodies) ∨ d.OnChain m ∧ d.Holds m i b ∧ i ≠ id := by
    rintro m i b ⟨e, he, hr⟩ hh
    rw [hd'.entry, hentry] at he
    cases he
    rcases hr.cases_link with rfl | ⟨k, hk, hr⟩
    · exact .inl ⟨rfl, ((hd'.holds _ _ _).mp hh).unique hnew⟩
    · rw [hd'.above _ hlt, hlink] at hk
      cases hk
      have hmem := hpath.mem_iff.mpr hr
      obtain ⟨n, hn, rfl, hne⟩ : ∃ n ∈ keeper :: rest, n.relOffset = m ∧ n.id ≠ id := by
        rcases List.mem_cons.mp hmem with rfl | hmem
        · exact ⟨keeper, List.mem_cons_self, rfl, hid⟩
        · obtain ⟨n, hn, rfl⟩ := List.mem_map.mp hmem
          rw [List.mem_filter] at hn
          exact ⟨n, List.mem_cons_of_mem _ hn.1, rfl, by simpa using hn.2⟩
      have hold := h.holds n hn
      have hkeep : (d.exec (.publish id len plan)).Holds n.relOffset n.id n.body := by
        obtain ⟨x, hx, hxi, hxb⟩ := hold
        refine ⟨x, ?_, hxi, hxb⟩
        rw [hm.docs_publish (h.slotOk hlen) (by rw [hx]; exact Option.some_ne_none x), hx]
      obtain ⟨rfl, rfl⟩ := ((hd'.holds _ _ _).mp hh).unique hkeep
      exact .inr ⟨h.onChain.trans (h.path.mem_iff.mp (List.mem_map_of_mem hn)), hold, hne⟩
  have hlatest : d'.latest = update d.latest id d.bodies := hd'.latest
  constructor
  · intro o i b hon hh
    rw [hlatest]
    rcases hbelow hon hh with ⟨-, rfl, rfl⟩ | ⟨hon, hh, hne⟩
    · rw [update_self]
    · rw [update_of_ne hne]
      exact hs.newest o i b hon hh
  · intro o o' i b b' hon hon' hh hh'
    rcases hbelow hon hh with ⟨ho, hi, -⟩ | ⟨hon, hh, hne⟩ <;>
      rcases hbelow hon' hh' with ⟨ho', hi', -⟩ | ⟨hon', hh', hne'⟩
    · exact ho.trans ho'.symm
    · exact absurd hi hne'
    · exact absurd hi' hne
    · exact hs.distinct o o' i b b' hon hon' hh hh'

theorem PlanOk.slotOk (h : PlanOk cfg d id plan) (hlen : kHeaderSize ≤ len) :
    SlotOk d len plan := by
  rcases h with h | ⟨keeper, rest, h⟩ <;> exact h.slotOk hlen

theorem programOk_splices (hm : MemOk d) (hv : d.version % 2 = 0)
    (hs : cfg.unlinkSupersededAlternates = true → Settled d) (hlen : kHeaderSize ≤ len)
    (h : PlanOk cfg d id plan) (htarget : covers target id = true) :
    ProgramOk cfg ⟨some ⟨some id, d.bodies⟩, none⟩ (d.exec (.publish id len plan))
      (plan.repoints.map (fun r => Store.storeLink r.predRel r.newNext) ++
        invalidate cfg target) := by
  have hmem : MemOk (d.exec (.publish id len plan)) := hm.publish (h.slotOk hlen)
  -- the invalidation, on whatever the splices have left
  have hlast : ∀ d' : Disk, d'.version = d.version → d'.bodies = d.bodies + 1 →
      d'.latest = update d.latest id d.bodies →
      (cfg.unlinkSupersededAlternates = true → Settled d') →
      ProgramOk cfg ⟨some ⟨some id, d.bodies⟩, none⟩ d' (invalidate cfg target) := by
    intro d' hv' hb hl hs'
    refine programOk_invalidate (promised_publish htarget (by omega) ?_) (by omega) hs'
    intro hu
    refine ⟨hs' hu, ?_⟩
    rw [hl, update_self]
  rcases h with h | ⟨keeper, rest, h⟩
  · rw [h.repoints]
    exact hlast _ rfl rfl rfl fun hu => h.settled hm hlen (hs hu)
  · obtain ⟨hentry, hlink, -, hpath⟩ := @LinkedPlan.published _ _ _ len _ _ _ h hm hlen
    rcases h.repoints with ⟨hu, hnone⟩ | ⟨hid, hsome⟩
    · rw [hnone]
      refine hlast _ rfl rfl rfl fun hu' => ?_
      rw [hu] at hu'
      cases hu'
    · rw [hsome]
      refine @splices_ok _ _ rest _ _ _ keeper [] hmem ⟨_, hentry, Reach.head hlink (.refl _)⟩
        hpath ?_
      intro d' hd' hp
      exact hlast d' hd'.version hd'.bodies hd'.latest fun hu => h.settled hm hlen (hs hu) hid hd' hp

theorem DetachedPlan.of_eq (h : DetachedPlan d id plan) (hdocs : d'.docs = d.docs)
    (hentry : d'.entry = d.entry) : DetachedPlan d' id plan := by
  refine { h with carried := ?_ }
  intro c hc
  obtain ⟨hcar, hne⟩ := h.carried c hc
  refine ⟨⟨hcar.len, ?_, ?_⟩, hne⟩
  · simpa only [Disk.OnChain, hdocs, hentry] using hcar.onChain
  · simpa only [Disk.Holds, hdocs] using hcar.holds

theorem PlanOk.of_eq (h : PlanOk cfg d id plan) (hdocs : d'.docs = d.docs)
    (hentry : d'.entry = d.entry) (hpass : d'.passStart = d.passStart) : PlanOk cfg d' id plan := by
  rcases h with h | ⟨keeper, rest, h⟩
  · exact .inl (h.of_eq hdocs hentry)
  · refine .inr ⟨keeper, rest, h.carried, h.next, ?_, ?_, ?_, ?_, h.repoints⟩
    · simpa only [Disk.OnChain, hdocs, hentry] using h.onChain
    · rw [hpass]
      exact h.current
    · intro n hn
      simpa only [Disk.Holds, hdocs] using h.holds n hn
    · rw [hdocs]
      exact h.path

theorem programOk_writeAlternate {dropped : Bool} (hm : MemOk d) (hv : d.version % 2 = 0)
    (hs : cfg.unlinkSupersededAlternates = true → Settled d) (hlen : kHeaderSize ≤ len)
    (h : PlanOk cfg d id plan) :
    ProgramOk cfg (writeAlternateProgram cfg d id len plan dropped).out d
      (writeAlternateProgram cfg d id len plan dropped).stores := by
  have hodd := odd_opened hv
  have hopen : PlanOk cfg (d.exec .openBracket) id plan := h.of_eq rfl rfl rfl
  have htarget : covers (if dropped then none else some id) id = true := by
    cases dropped
    · exact beq_self_eq_true id
    · rfl
  rw [writeAlternateProgram, List.append_assoc]
  refine programOk_inBracket hv ⟨hodd, hopen.slotOk hlen⟩ ⟨rfl, ?_, fun hu => { hs hu with }⟩ rfl ?_
  · intro st hst
    rcases List.mem_cons.mp hst with rfl | hst
    · rfl
    · rcases List.mem_append.mp hst with hst | hst
      · obtain ⟨r, -, rfl⟩ := List.mem_map.mp hst
        rfl
      · exact not_isPublish_invalidate st hst
  · -- the bracket's end is a version, which the splices do not look at
    have hclosed : PlanOk cfg { d with version := d.version + 1 + 1 } id plan := h.of_eq rfl rfl rfl
    exact programOk_splices (d := { d with version := d.version + 1 + 1 }) { hm with }
      (by change (d.version + 1 + 1) % 2 = 0; omega) (fun hu => { hs hu with }) hlen hclosed htarget

theorem programOk_other {shared evicts : Bool} (hv : d.version % 2 = 0)
    (hs : cfg.unlinkSupersededAlternates = true → Settled d) :
    ProgramOk cfg (otherProgram cfg shared evicts).out d (otherProgram cfg shared evicts).stores := by
  have hodd : (d.version + 1) % 2 = 1 := by omega
  have hlast : ∀ d' : Disk, d'.version % 2 = 0 →
      (cfg.unlinkSupersededAlternates = true → Settled d') →
      ProgramOk cfg ⟨none, none⟩ d' (if cfg.ramCache then [.bumpEpoch] else []) := by
    intro d' hv' hs'
    split
    · refine ⟨trivial, ⟨?_, ?_, ?_, ?_⟩, hv', fun hu => { hs' hu with }⟩
      · intro r hr
        cases hr
      · intro r hr
        cases hr
      · intro _ r hr
        cases hr
      · intro p hp
        cases hp
    · exact ⟨hv', hs'⟩
  cases shared with
  | false => exact hlast d hv hs
  | true =>
    have heven : (d.version + 1 + 1) % 2 = 0 := by omega
    cases evicts with
    | false => exact ⟨hv, trivial, hodd, trivial, hlast _ heven fun hu => { hs hu with }⟩
    | true =>
      exact ⟨hv, trivial, ⟨hodd, nofun⟩, fun hu => { hs hu with }, hodd,
        trivial, hlast _ heven fun _ => settled_of_no_entry rfl⟩

theorem carryCandidates_not_seen {seen : List Nat} :
    ∀ n ∈ carryCandidates seen nodes, n.id ∉ seen := by
  induction nodes generalizing seen with
  | nil =>
    intro n hn
    cases hn
  | cons m ms ih =>
    intro n hn
    rw [carryCandidates] at hn
    split at hn
    · exact ih n hn
    · next hm =>
      rcases List.mem_cons.mp hn with rfl | hn
      · exact hm
      · intro hseen
        exact ih n hn (List.mem_cons_of_mem _ hseen)

theorem carryCandidates_ids_nodup {seen : List Nat} :
    ((carryCandidates seen nodes).map ChainNode.id).Nodup := by
  induction nodes generalizing seen with
  | nil => exact List.nodup_nil
  | cons m ms ih =>
    rw [carryCandidates]
    split
    · exact ih
    · rw [List.map_cons, List.nodup_cons]
      refine ⟨?_, ih⟩
      intro hmem
      obtain ⟨n, hn, hid⟩ := List.mem_map.mp hmem
      exact carryCandidates_not_seen n hn (hid ▸ List.mem_cons_self)

theorem detachedPlan_carry {keep : Nat → Bool}
    (hall : ∀ n ∈ nodes, NodeOk cfg d n ∧ d.OnChain n.relOffset) :
    DetachedPlan d id (carryPlan id keep head nodes) := by
  refine ⟨rfl, rfl, ?_, ?_⟩
  · intro c hc
    have hcand : c ∈ carryCandidates [id] nodes := (List.mem_filter.mp (List.mem_reverse.mp hc)).1
    obtain ⟨hn, hon⟩ := hall c ((carryCandidates_sublist _ _).subset hcand)
    refine ⟨⟨hn.len, hon, hn.holds⟩, ?_⟩
    intro hid
    exact carryCandidates_not_seen c hcand (List.mem_singleton.mpr hid)
  · change ((((carryCandidates [id] nodes).filter fun n => keep n.relOffset).reverse).map
      ChainNode.id).Nodup
    rw [List.map_reverse, List.nodup_reverse]
    exact (carryCandidates_ids_nodup.sublist (List.filter_sublist.map _))

theorem planOk_link (hm : MemOk d) (hcur : d.passStart ≤ head.relOffset)
    (hall : ∀ n ∈ head :: rest, NodeOk cfg d n ∧ d.OnChain n.relOffset)
    (hpath : IsPath (linkOf d.docs) (some head.relOffset)
      ((head :: rest).map ChainNode.relOffset)) :
    PlanOk cfg d id (linkPlan cfg id head (head :: rest)) := by
  unfold linkPlan
  split
  · unfold planUnlink
    split
    · -- every node is of the id
      refine .inl ⟨?_, rfl, nofun, List.nodup_nil⟩
      simp
    · next keeper ks hdrop =>
      have hsplit : head :: rest = (head :: rest).takeWhile (·.id == id) ++ keeper :: ks := by
        rw [← hdrop, List.takeWhile_append_dropWhile]
      have hmem : ∀ n ∈ keeper :: ks, n ∈ head :: rest := by
        intro n hn
        rw [hsplit]
        exact List.mem_append_right _ hn
      obtain ⟨hkeeper, hkon⟩ := hall keeper (hmem keeper List.mem_cons_self)
      have hkcur : d.passStart ≤ keeper.relOffset :=
        hm.current_of_reach hcur
          (hpath.mem_iff.mp (List.mem_map_of_mem (hmem keeper List.mem_cons_self)))
      have hkid : keeper.id ≠ id := by
        have hne : (head :: rest).dropWhile (·.id == id) ≠ [] := by
          rw [hdrop]
          exact List.cons_ne_nil _ _
        have hnot := List.head_dropWhile_not _ hne
        simpa [hdrop] using hnot
      refine .inr ⟨keeper, ks, rfl, ?_, hkon, hkcur, ?_, ?_, .inr ⟨hkid, rfl⟩⟩
      · change (if keeper.cls = .kCurrent then keeper.relOffset else head.relOffset) = _
        rw [hkeeper.cls, classify_of_current hkcur, if_pos rfl]
      · exact fun n hn => (hall n (hmem n hn)).1.holds
      · rw [hsplit, List.map_append] at hpath
        exact IsPath.suffix _ hpath
  · next hu =>
    obtain ⟨hhead, hon⟩ := hall head List.mem_cons_self
    exact .inr ⟨head, rest, rfl, rfl, hon, hcur, fun n hn => (hall n hn).1.holds, hpath,
      .inl ⟨Bool.eq_false_iff.mpr hu, rfl⟩⟩

theorem planOk_planAlternate {keep : Nat → Bool} {dropped : Bool} (hm : MemOk d)
    (h : planAlternate cfg d id keep = .ok (plan, dropped)) :
    PlanOk cfg d id plan ∧ (plan.retained → DetachedPlan d id plan) := by
  have hdetached : ∀ {p : WritePlan}, p.newNext = 0 → p.repoints = [] → p.carried = [] →
      DetachedPlan d id p := by
    intro p hn hr hc
    refine ⟨hn, hr, ?_, ?_⟩
    · intro c hcar
      rw [hc] at hcar
      cases hcar
    · rw [hc]
      exact List.nodup_nil
  unfold planAlternate at h
  split at h
  · cases h
    have hfresh : DetachedPlan d id freshPlan := hdetached rfl rfl rfl
    exact ⟨.inl hfresh, fun _ => hfresh⟩
  · next head rest truncated hchain =>
    obtain ⟨-, hrej, -, hall, hpath⟩ := hm.chain_spec hchain
    unfold planOver at h
    split at h
    · cases h
      have hcarry := @detachedPlan_carry cfg d id head (head :: rest) keep hall
      exact ⟨.inl hcarry, fun _ => hcarry⟩
    · next hret =>
      have hcls : head.cls = .kCurrent := by
        cases hc : head.cls with
        | kCurrent => rfl
        | kRetained => exact absurd hc hret
        | kReject => exact absurd hc hrej
      split at h
      · cases h
      · next htrunc =>
        split at h
        · cases h
        · split at h
          · cases h
            have hreset : DetachedPlan d id (headPlan head) := hdetached rfl rfl rfl
            exact ⟨.inl hreset, fun _ => hreset⟩
          · next hreset =>
            have hfull : truncated = false := by
              cases truncated
              · rfl
              · exact absurd (by simp [hreset]) htrunc
            cases h
            have hcur : d.passStart ≤ head.relOffset := by
              have := (hall head List.mem_cons_self).1.cls
              rw [hcls, Disk.classify] at this
              split at this
              · assumption
              · split at this <;> cases this
            refine ⟨planOk_link hm hcur hall (hpath hcls hfull), ?_⟩
            intro hr
            exfalso
            have hno : (linkPlan cfg id head (head :: rest)).retained =
                (head.cls == .kRetained) := by
              unfold linkPlan
              split <;> rfl
            rw [hno, hcls] at hr
            cases hr

end

end CycloneCache.Ref.Ram

import CycloneCache.Proofs.Borrows

namespace CycloneCache.Ref

open Lib Function

def CountedAt (pc : ReaderPc) (sh c : Nat) : Prop :=
  ∃ b tok, pc.held = some (b, tok) ∧ tok.counted = true ∧ tok.shard = sh ∧ tok.chunk = c

def CountInv (s : StripeState) : Prop :=
  ∀ sh c (F : Finset Nat), (∀ r ∈ F, CountedAt (s.readers r) sh c) → F.card ≤ (s.slots sh c).count

theorem countInv_fresh (st : Stripe) : CountInv (StripeState.fresh st) := by
  intro sh c F hF
  have hempty : F = ∅ := by
    refine Finset.eq_empty_of_forall_notMem fun r hr => ?_
    obtain ⟨b, tok, hheld, -⟩ := hF r hr
    cases hheld
  rw [hempty, Finset.card_empty]
  exact Nat.zero_le _

variable {s s' : StripeState} {pc : ReaderPc} {r sh c : Nat} {b : Borrow} {st : Stripe}
  {cfg : LeaseConfig} {g : Gate}

theorem CountInv.of_held (hi : CountInv s) (hslots : s'.slots = s.slots)
    (hheld : ∀ r p, (s'.readers r).held = some p → (s.readers r).held = some p) : CountInv s' := by
  intro sh c F hF
  rw [hslots]
  refine hi sh c F fun r hr => ?_
  obtain ⟨b, tok, h, hrest⟩ := hF r hr
  exact ⟨b, tok, hheld r _ h, hrest⟩

theorem held_setReader (h : pc.held = none ∨ pc.held = (s.readers r).held) (q : Nat)
    (p : Borrow × BorrowToken) (hq : ((s.setReader r pc).readers q).held = some p) :
    (s.readers q).held = some p := by
  simp only [StripeState.setReader, update_apply] at hq
  split at hq
  · next heq =>
    subst heq
    rcases h with h | h <;> rw [h] at hq
    · cases hq
    · exact hq
  · exact hq

theorem acquireBorrow_count (hi : CountInv s) : CountInv (acquireBorrow st s r sh b) := by
  intro sh' c' F hF
  -- the others in F were counted before
  have hothers : ∀ q ∈ F.erase r, CountedAt (s.readers q) sh' c' := by
    intro q hq
    obtain ⟨hne, hq⟩ := Finset.mem_erase.mp hq
    have h := hF q hq
    simp only [acquireBorrow, StripeState.setReader, update_of_ne hne] at h
    exact h
  have hold := hi sh' c' (F.erase r) hothers
  simp only [acquireBorrow, StripeState.setReader, StripeState.setSlot]
  by_cases hr : r ∈ F
  · -- the reader itself: the slot is the one that was raised
    have hcard := Finset.card_erase_add_one hr
    obtain ⟨b', tok, hheld, hcounted, hshard, hchunk⟩ := hF r hr
    simp only [acquireBorrow, StripeState.setReader, update_self,
      ReaderPc.held, Option.some.injEq, Prod.mk.injEq] at hheld
    obtain ⟨-, rfl⟩ := hheld
    simp only at hcounted hshard hchunk
    subst hshard hchunk
    rw [update_self, update_self]
    simp only [BorrowSlot.acquire] at hcounted ⊢
    split at hcounted
    · cases hcounted
    · next hsat =>
      rw [if_neg hsat]
      simp only
      omega
  · rw [Finset.erase_eq_of_notMem hr] at hold
    refine le_trans hold ?_
    simp only [update_apply]
    split
    · next heq =>
      subst heq
      simp only [update_apply]
      split
      · next heq =>
        subst heq
        simp only [BorrowSlot.acquire]
        split
        · exact le_rfl
        · exact Nat.le_succ _
      · exact le_rfl
    · exact le_rfl

theorem releaseBorrow_count {tok : BorrowToken} (hi : CountInv s)
    (hheld : (s.readers r).held = some (b, tok)) :
    CountInv ((releaseBorrow s tok).setReader r .idle) := by
  intro sh c F hF
  have hr : r ∉ F := by
    intro hr
    obtain ⟨b', tok', h, -⟩ := hF r hr
    simp only [StripeState.setReader, update_self] at h
    cases h
  have hold : ∀ q ∈ F, CountedAt (s.readers q) sh c := by
    intro q hq
    have hne : q ≠ r := fun h => hr (h ▸ hq)
    have h := hF q hq
    simp only [StripeState.setReader, update_of_ne hne] at h
    rw [releaseBorrow] at h
    split at h <;> exact h
  have hbase := hi sh c F hold
  simp only [StripeState.setReader, releaseBorrow]
  split
  · next hcounted =>
    simp only [StripeState.setSlot, update_apply]
    split
    · next hsh =>
      subst hsh
      simp only [update_apply]
      split
      · next hc =>
        subst hc
        -- with the releasing reader the old count covered one more
        have hmore := hi tok.shard tok.chunk (Insert.insert r F) (by
          intro q hq
          rcases Finset.mem_insert.mp hq with rfl | hq
          · exact ⟨b, tok, hheld, hcounted, rfl, rfl⟩
          · exact hold q hq)
        rw [Finset.card_insert_of_notMem hr] at hmore
        simp only [BorrowSlot.release]
        split
        · omega
        · simp only
          omega
      · exact hbase
    · exact hbase
  · exact hbase

theorem ReadMove.countInv (h : ReadMove st cfg s r s') (hi : CountInv s) : CountInv s' := by
  cases h with
  | look hpc | snap gen hpc | map | miss hpc =>
    exact hi.of_held rfl (held_setReader (.inl rfl))
  | stamp b tok expiry hpc | clear b tok hpc | genOk b tok hpc | serve b tok hpc | fail b tok hpc =>
    exact hi.of_held rfl (held_setReader (.inr (by rw [hpc]; rfl)))
  | acquire snap cls b sh hpc hsh =>
    exact acquireBorrow_count hi
  | release b tok hpc => exact releaseBorrow_count hi hpc

theorem CountInv.pos (hi : CountInv s) (h : CountedAt (s.readers r) sh c) :
    1 ≤ (s.slots sh c).count := by
  have hone := hi sh c {r} (by
    intro q hq
    rw [Finset.mem_singleton] at hq
    rw [hq]
    exact h)
  rw [Finset.card_singleton] at hone
  exact hone

theorem mem_gateSlots : (sh, c) ∈ gateSlots cfg g ↔
      sh < cfg.shards ∧ g.lo ≤ c ∧ c < min g.hi kMaxChunks := by
  simp only [gateSlots, List.mem_flatMap, List.mem_range, List.mem_map,
    List.mem_range'_1, Prod.mk.injEq]
  constructor
  · rintro ⟨sh', hsh, c', ⟨h₁, h₂⟩, rfl, rfl⟩
    exact ⟨hsh, h₁, by omega⟩
  · rintro ⟨hsh, h₁, h₂⟩
    exact ⟨sh, hsh, c, ⟨h₁, by omega⟩, rfl, rfl⟩

def IntentOk (st : Stripe) (w : Words) : WriterPc → Prop
  | .gateExpiry _ | .gateCounts .. | .gateClock .. | .lower _ => w.intent ≠ 0
  | .stores _ todo _ => ∀ v, pendingGen todo = some v →
      (st.retain = true ∧ st.passOf v ≠ st.passOf w.gen) ∨ w.intent ≠ 0
  | .rest | .raise _ | .stage .. | .filling _ => True

def Shield (st : Stripe) (cfg : LeaseConfig) (gen sh c : Nat) : WriterPc → Prop
  | .gateCounts g _ todo sum => (sh, c) ∈ gateSlots cfg g → (sh, c) ∈ todo ∨ 1 ≤ sum
  | .gateClock g _ sum => (sh, c) ∈ gateSlots cfg g → 1 ≤ sum
  | .stores _ todo _ => ∀ v, pendingGen todo = some v →
      st.retain = true ∧ (st.passOf v = st.passOf gen → st.frontierOf v ≤ c ∨ c < st.frontierOf gen)
  | .rest | .raise _ | .gateExpiry _ | .lower _ | .stage .. | .filling _ => True

theorem shield_of_clear {w : Words} {pc : WriterPc} (h : IntentOk st w pc) (hclear : w.intent = 0) :
    Shield st cfg w.gen sh c pc := by
  cases pc with
  | rest | raise | gateExpiry | lower | stage | filling => trivial
  | gateCounts | gateClock => exact absurd hclear h
  | stores len todo next =>
    intro v hv
    rcases h v hv with ⟨hretain, hne⟩ | hintent
    · exact ⟨hretain, fun heq => absurd heq hne⟩
    · exact absurd hclear hintent

def Protected (st : Stripe) (due : Nat) (b : Borrow) : Prop :=
  b.doc.pass = st.passOf due ∨ (st.retain = true ∧ st.frontierOf due ≤ st.chunkOf b.doc.start)

def Guarded (st : Stripe) (cfg : LeaseConfig) (s : StripeState) : ReaderPc → Prop
  | .intentClear _ tok =>
    tok.counted = true → Shield st cfg s.words.gen tok.shard tok.chunk s.writer
  | .genOk b tok | .valid b tok =>
    tok.counted = true → Shield st cfg s.words.gen tok.shard tok.chunk s.writer ∧
        Protected st s.due b
  | .idle | .snapGen _ | .snapped _ | .located .. | .counted .. | .stamped ..
  | .discarding .. => True

theorem Guarded.of_eq (h : Guarded st cfg s pc) (hgen : s'.words.gen = s.words.gen)
    (hdue : s'.due = s.due) (hwriter : s'.writer = s.writer) : Guarded st cfg s' pc := by
  cases pc with
  | idle | snapGen | snapped | located | counted | stamped | discarding => trivial
  | intentClear b tok =>
    intro hc
    rw [hgen, hwriter]
    exact h hc
  | genOk b tok | valid b tok =>
    intro hc
    rw [hgen, hwriter, hdue]
    exact h hc

theorem protected_of_gen (hlog : LogInv st s) (hb : BorrowOk st s b)
    (hshield : Shield st cfg s.words.gen sh (st.chunkOf b.doc.start) s.writer)
    (hgen : s.words.gen ≤ b.threshold) : Protected st s.due b := by
  obtain ⟨p, hthr, hp⟩ := hb.threshold
  have hd := hlog.doc _ hb.doc
  have hnot : ¬ st.exposureThreshold p b.doc.start < s.words.gen := by
    rw [← hthr]
    exact Nat.not_lt.mpr hgen
  rw [Stripe.threshold_lt_iff] at hnot
  -- a wrap past its cursor store is a retention wrap, by the shield
  have hwrap : s.due ≠ s.words.gen → st.retain = true ∧ st.frontierOf s.due = 0 := by
    intro hne
    cases hw : s.writer with
    | rest => exact absurd (hlog.pcAt hw) hne
    | raise | gateExpiry | gateCounts | gateClock | lower | stage | filling =>
      exact absurd (hlog.pcAt hw).1 hne
    | stores len todo next =>
      rw [hw] at hshield
      have hend : ∀ b', todo = [.phase b', .gen s.due, .intent 0] ∨ todo = [.gen s.due, .intent 0] →
          s.due = st.genOf (st.passOf s.words.gen + 1) st.wrapFrontier →
          st.retain = true ∧ st.frontierOf s.due = 0 := by
        intro b' htodo hdue
        have hretain := (hshield s.due (by rcases htodo with rfl | rfl <;> rfl)).1
        refine ⟨hretain, ?_⟩
        rw [hdue, Stripe.frontierOf_genOf st.wrapFrontier_le, Stripe.wrapFrontier, hretain]
        rfl
      have hat := (hlog.pcAt hw).1
      generalize htodo : todo = l at hat
      cases hat with
      | marking h | marked h | closing h | closed h | advancing upTo h => exact absurd h hne
      | dropped b' hcursor hdue => exact hend b' (.inl htodo) hdue
      | phased hcursor hdue => exact hend true (.inr htodo) hdue
  by_cases hdue : s.due = s.words.gen
  · by_cases hpass : st.passOf s.words.gen = p + 1
    · -- the pass after: the frontier is not past the chunk
      have hle : st.frontierOf s.due ≤ st.chunkOf b.doc.start := by
        rw [hdue]; omega
      refine .inr ⟨?_, hle⟩
      by_contra hretain
      have hflush : st.retain = false := by simpa using hretain
      have hfront := hlog.flushed hflush (by rw [hdue]; omega)
      have hlt := st.chunkOf_lt b.doc.start
      omega
    · -- the threshold's own pass: the document's, and not yet left
      have hle := hd.pass_le
      rw [hdue] at hle
      refine .inl ?_
      rw [hdue]
      rcases hp with hp | ⟨-, hp⟩ <;> omega
  · obtain ⟨hretain, hzero⟩ := hwrap hdue
    exact .inr ⟨hretain, by rw [hzero]; exact Nat.zero_le _⟩

def Leased (cfg : LeaseConfig) (r : Nat) (s : StripeState) (l : StripeAct) : Prop :=
  l = .writer → ∀ g expiry sum, s.writer = .gateClock g expiry sum →
    gateForces cfg s g expiry sum = false ∧ ((∃ sh c, CountedAt (s.readers r) sh c) →
        leaseActive cfg expiry s.now = true)

theorem pendingGen_cons {w : Store} {todo : List Store}
    (h : ∀ v, w ≠ .gen v) : pendingGen (w :: todo) = pendingGen todo := by
  cases w with
  | gen v => exact absurd rfl (h v)
  | intent | cursor | phase => rfl

theorem committedIntent_ne_zero (newPass : Nat) : committedIntent newPass ≠ 0 := by
  simp only [committedIntent, kIntentWrapOdd, kIntentWrapEven]
  split <;> decide

theorem pendingGen_gatePassed {len v : Nat} {todo : List Store} {next : Stage}
    (hpc : gatePassed st g = .stores len todo next) (hv : pendingGen todo = some v) :
    (g.kind = .flushWrap ∧ v = st.genOf (g.pass + 1) st.wrapFrontier) ∨
      (g.kind ≠ .flushWrap ∧ v = st.genOf g.pass g.hi) := by
  unfold gatePassed at hpc
  split at hpc <;> cases hpc <;> cases hv
  · next hk => exact .inl ⟨hk, rfl⟩
  · next hk => exact .inr ⟨by rw [hk]; decide, rfl⟩
  · next hk => exact .inr ⟨by rw [hk]; decide, rfl⟩

theorem gatePassed_stores (st : Stripe) (g : Gate) :
    ∃ len todo next, gatePassed st g = .stores len todo next := by
  unfold gatePassed
  split <;> exact ⟨_, _, _, rfl⟩

section

variable (h : WriterMove st cfg s s')
include h

theorem WriterMove.intent (hlog : LogInv st s) (hi : IntentOk st s.words s.writer) :
    IntentOk st s'.words s'.writer := by
  cases h with
  | raise g hpc => exact (by decide : kIntentStep ≠ 0)
  | expiry g hpc | count g expiry sh c sum todo hpc | counted g expiry sum hpc
  | defer g expiry sum since hpc =>
    rw [hpc] at hi
    exact hi
  | pass g expiry sum slots hpc =>
    rw [hpc] at hi
    obtain ⟨len, todo, next, hpassed⟩ := gatePassed_stores st g
    show IntentOk st s.words (gatePassed st g)
    rw [hpassed]
    exact fun v _ => .inr hi
  | lower g hpc =>
    show IntentOk st _ (gateDeferred g)
    unfold gateDeferred
    split <;> trivial
  | store len w todo next hpc =>
    intro v hv
    have hat := (hlog.pcAt hpc).1
    rw [hpc] at hi
    generalize hl : w :: todo = l at hat
    cases hat with
    | marking h =>
      cases hl
      exact .inr (committedIntent_ne_zero _)
    | marked h | dropped b hcursor hdue => cases hl; exact hi v hv
    | phased | advancing | closing => cases hl; cases hv
    | closed h => cases hl
  | stored | ask | skip | reserve => trivial

theorem WriterMove.shield (hlog : LogInv st s) (hcount : CountInv s) (hok : Leased cfg r s .writer)
    (hr : CountedAt (s.readers r) sh c) (hsh : sh < cfg.shards) (hc : c < st.chunks)
    (hi : Shield st cfg s.words.gen sh c s.writer) : Shield st cfg s'.words.gen sh c s'.writer := by
  have hmax := st.chunks_le
  cases h with
  | raise | defer | stored | ask | skip | reserve => trivial
  | expiry g hpc => exact fun hmem => .inl hmem
  | count g expiry sh' c' sum todo hpc =>
    rw [hpc] at hi
    intro hmem
    rcases hi hmem with hin | hsum
    · rcases List.mem_cons.mp hin with heq | hin
      · cases heq
        have := hcount.pos hr
        exact .inr (by omega)
      · exact .inl hin
    · exact .inr (by omega)
  | counted g expiry sum hpc =>
    rw [hpc] at hi
    intro hmem
    rcases hi hmem with hin | hsum
    · cases hin
    · exact hsum
  | pass g expiry sum slots hpc hwhy =>
    obtain ⟨hforce, hlease⟩ := hok rfl g expiry sum hpc
    -- it passed, so the slot was not among those it summed
    have hzero : sum = 0 := by
      rcases (hwhy hforce).2 with hno | hzero
      · rw [hlease ⟨sh, c, hr⟩] at hno; cases hno
      · exact hzero
    rw [hpc] at hi
    have hout : ¬ (sh, c) ∈ gateSlots cfg g := fun hmem => by
      have := hi hmem
      omega
    rw [mem_gateSlots] at hout
    obtain ⟨len, todo, next, hst⟩ := gatePassed_stores st g
    show Shield st cfg s.words.gen sh c (gatePassed st g)
    rw [hst]
    intro v hv
    have hg := (hlog.pcAt hpc).2
    rcases pendingGen_gatePassed hst hv with ⟨hk, rfl⟩ | ⟨hk, rfl⟩
    · obtain ⟨-, hlo, hhi, -⟩ := hg.flush hk
      exfalso
      exact hout ⟨hsh, by omega, by omega⟩
    · obtain ⟨hretain, hlo, hlt⟩ := hg.advance hk
      have hhi := hg.hi
      refine ⟨hretain, fun _ => ?_⟩
      rw [Stripe.frontierOf_genOf hhi, ← hlo]
      by_contra hcon
      exact hout ⟨hsh, by omega, by omega⟩
  | lower g hpc =>
    show Shield st cfg _ sh c (gateDeferred g)
    unfold gateDeferred
    split <;> trivial
  | store len w todo next hpc =>
    intro v hv
    have hat := (hlog.pcAt hpc).1
    rw [hpc] at hi
    generalize hl : w :: todo = l at hat
    cases hat with
    | marking | marked | dropped => cases hl; exact hi v hv
    | phased | advancing | closing => cases hl; cases hv
    | closed h => cases hl

theorem WriterMove.protected (hlog : LogInv st s)
    (hshield : Shield st cfg s.words.gen sh (st.chunkOf b.doc.start) s.writer)
    (hi : Protected st s.due b) : Protected st s'.due b := by
  cases h with
  | raise | expiry | count | counted | pass | defer | lower | stored | ask | skip | reserve =>
    exact hi
  | store len w todo next hpc =>
    have hat := (hlog.pcAt hpc).1
    rw [hpc] at hshield
    generalize hl : w :: todo = l at hat
    cases hat with
    | marking | dropped | phased | closing => cases hl; exact hi
    | marked hdue =>
      cases hl
      have hretain := (hshield _ rfl).1
      refine .inr ⟨hretain, ?_⟩
      show st.frontierOf (st.genOf (st.passOf s.words.gen + 1) st.wrapFrontier)
        ≤ st.chunkOf b.doc.start
      rw [Stripe.frontierOf_genOf st.wrapFrontier_le, Stripe.wrapFrontier, hretain]
      exact Nat.zero_le _
    | advancing upTo hdue hretain hlo hhi =>
      cases hl
      have hkeep := (hshield _ rfl).2 (Stripe.passOf_genOf hhi)
      rw [Stripe.frontierOf_genOf hhi] at hkeep
      show Protected st (st.genOf (st.passOf s.words.gen) upTo) b
      rw [hdue] at hi
      rcases hi with hpass | ⟨hretain, hle⟩
      · refine .inl ?_
        rw [hpass, Stripe.passOf_genOf hhi]
      · refine .inr ⟨hretain, ?_⟩
        rw [Stripe.frontierOf_genOf hhi]
        omega
    | closed h => cases hl

theorem WriterMove.slots (hok : Leased cfg r s .writer) : s'.slots = s.slots := by
  cases h with
  | pass g expiry sum slots hpc hwhy => exact (hwhy (hok rfl g expiry sum hpc).1).1
  | raise | expiry | count | counted | defer | lower | store | stored | ask | skip | reserve => rfl

end

structure SafeInv (st : Stripe) (cfg : LeaseConfig) (r : Nat) (s : StripeState) : Prop where
  log : LogInv st s
  readers : ReadersInv st cfg s
  intent : IntentOk st s.words s.writer
  count : CountInv s
  guarded : Guarded st cfg s (s.readers r)

theorem safeInv_fresh (st : Stripe) (cfg : LeaseConfig) (r : Nat) :
    SafeInv st cfg r (StripeState.fresh st) :=
  ⟨logInv_fresh st, readersInv_fresh st cfg, trivial, countInv_fresh st, trivial⟩

theorem AllocTo.shield {len : Nat} {w : Words} {pc : WriterPc} (h : AllocTo st w len pc)
    (cfg : LeaseConfig) : IntentOk st w pc ∧ ∀ sh c, Shield st cfg w.gen sh c pc := by
  cases h with
  | flush | here => exact ⟨trivial, fun _ _ => trivial⟩
  | wrap hroom hfull hretain =>
    have hne : st.passOf (st.genOf (st.passOf w.gen + 1) st.wrapFrontier) ≠ st.passOf w.gen := by
      rw [Stripe.passOf_genOf st.wrapFrontier_le]
      omega
    refine ⟨fun v hv => ?_, fun sh c v hv => ?_⟩
    · cases hv; exact .inl ⟨hretain, hne⟩
    · cases hv; exact ⟨hretain, fun heq => absurd heq hne⟩

theorem Guarded.writer (hi : SafeInv st cfg r s) (hok : Leased cfg r s .writer)
    (h : WriterMove st cfg s s') : Guarded st cfg s' (s.readers r) := by
  have hguard := hi.guarded
  have hreader := hi.readers.reader r
  cases hr : s.readers r with
  | idle | snapGen | snapped | located | counted | stamped | discarding => trivial
  | intentClear b tok =>
    rw [hr] at hguard hreader
    intro hc
    have hcounted : CountedAt (s.readers r) tok.shard tok.chunk :=
      ⟨b, tok, by rw [hr]; rfl, hc, rfl, rfl⟩
    have hlt : tok.chunk < st.chunks := by
      rw [hreader.2.chunk]; exact st.chunkOf_lt _
    exact h.shield hi.log hi.count hok hcounted hreader.2.shard hlt (hguard hc)
  | genOk b tok | valid b tok =>
    rw [hr] at hguard hreader
    intro hc
    obtain ⟨hshield, hprot⟩ := hguard hc
    have hcounted : CountedAt (s.readers r) tok.shard tok.chunk :=
      ⟨b, tok, by rw [hr]; rfl, hc, rfl, rfl⟩
    have hlt : tok.chunk < st.chunks := by
      rw [hreader.2.chunk]; exact st.chunkOf_lt _
    refine ⟨h.shield hi.log hi.count hok hcounted hreader.2.shard hlt hshield, ?_⟩
    rw [hreader.2.chunk] at hshield
    exact h.protected hi.log hshield hprot

theorem ReadMove.guarded (h : ReadMove st cfg s r s') (hi : SafeInv st cfg r s) :
    Guarded st cfg s' (s'.readers r) := by
  have hguard := hi.guarded
  have hreader := hi.readers.reader r
  cases h with
  | look | snap | map | acquire | stamp | fail | release | miss =>
    simp only [acquireBorrow, StripeState.setReader, update_self]
    trivial
  | clear b tok hpc hintent =>
    simp only [StripeState.setReader, update_self]
    exact fun _ => shield_of_clear hi.intent hintent
  | genOk b tok hpc hgen =>
    simp only [StripeState.setReader, update_self]
    rw [hpc] at hguard hreader
    intro hc
    have hshield := hguard hc
    refine ⟨hshield, ?_⟩
    rw [hreader.2.chunk] at hshield
    have hprot : Protected st s.due b := protected_of_gen hi.log hreader.1 hshield hgen
    exact hprot
  | serve b tok hpc =>
    simp only [StripeState.setReader, update_self]
    rw [hpc] at hguard
    exact hguard

theorem Guarded.shield (h : Guarded st cfg s pc) (hdue : s'.due = s.due)
    (hshield : ∀ sh c, Shield st cfg s'.words.gen sh c s'.writer) : Guarded st cfg s' pc := by
  cases pc with
  | idle | snapGen | snapped | located | counted | stamped | discarding => trivial
  | intentClear b tok => exact fun _ => hshield _ _
  | genOk b tok | valid b tok =>
    intro hc
    rw [hdue]
    exact ⟨hshield _ _, (h hc).2⟩

theorem stripeStep_safe {l : StripeAct} (hi : SafeInv st cfg r s) (hok : Leased cfg r s l)
    (h : stripeStep st cfg s l = some s') : SafeInv st cfg r s' := by
  have hlog := stripeStep_log hi.log h
  have hreaders := stripeStep_readersInv hi.log hi.readers h
  -- a step that moves no reader and no slot keeps the counts
  have hcount : s'.slots = s.slots → s'.readers = s.readers → CountInv s' :=
    fun hs hr => hi.count.of_held hs fun q p hp => by rw [hr] at hp; exact hp
  cases stripeStep_move h with
  | tick | fill =>
    exact ⟨hlog, hreaders, hi.intent, hcount rfl rfl, hi.guarded.of_eq rfl rfl rfl⟩
  | refuse => exact hi
  | alloc len pc hrest hlen hto =>
    obtain ⟨hintent, hshield⟩ := hto.shield cfg
    exact ⟨hlog, hreaders, hintent, hcount rfl rfl, hi.guarded.shield rfl hshield⟩
  | writer _ h =>
    obtain ⟨hrd, -, -⟩ := h.frame
    refine ⟨hlog, hreaders, h.intent hi.log hi.intent, hcount (h.slots hok) hrd, ?_⟩
    rw [hrd]
    exact Guarded.writer hi hok h
  | commit | abandon =>
    exact ⟨hlog, hreaders, trivial, hcount rfl rfl, hi.guarded.shield rfl fun _ _ => trivial⟩
  | read q act _ hmove =>
    have hframe := hmove.frame
    refine ⟨hlog, hreaders, by rw [hframe.words, hframe.writer]; exact hi.intent,
      hmove.countInv hi.count, ?_⟩
    by_cases hq : r = q
    · subst hq; exact hmove.guarded hi
    · rw [hmove.pc_other hq]
      exact hi.guarded.of_eq (by rw [hframe.words]) hframe.due hframe.writer

theorem safeInv_run {ls : List StripeAct}
    (hok : StepsOk (stripeStep st cfg) (Leased cfg r) (StripeState.fresh st) ls)
    (h : runs (stripeStep st cfg) (StripeState.fresh st) ls = some s) : SafeInv st cfg r s :=
  runs_inv_of_ok (fun _ _ _ hi hl hs => stripeStep_safe hi hl hs) hok h (safeInv_fresh st cfg r)

theorem readersInv_run {ls : List StripeAct}
    (h : runs (stripeStep st cfg) (StripeState.fresh st) ls = some s) :
    LogInv st s ∧ ReadersInv st cfg s := by
  let inv : StripeState → Prop := fun t => LogInv st t ∧ ReadersInv st cfg t
  have hs : inv s :=
    runs_inv (fun _ _ _ hi hl => ⟨stripeStep_log hi.1 hl, stripeStep_readersInv hi.1 hi.2 hl⟩) h
      ⟨logInv_fresh st, readersInv_fresh st cfg⟩
  exact hs

theorem LogInv.fill_misses {lo hi x : Nat} (hlog : LogInv st s) (hdoc : b.doc ∈ s.docs)
    (hprot : Protected st s.due b) (hfill : stripeStep st cfg s (.fill lo hi) = some s')
    (hstart : b.doc.start ≤ x) (hend : x < b.doc.start + b.doc.len) : ¬ (lo ≤ x ∧ x < hi) := by
  rintro ⟨hlo, hhi⟩
  cases stripeStep_move hfill with
  | fill slot _ _ hpc hfrom hto =>
  obtain ⟨hdue, hslot⟩ := hlog.pcAt hpc
  have hd := hlog.doc _ hdoc
  have hoffset := hslot.offset
  rcases hprot with hpass | ⟨hretain, hle⟩
  · have := hd.behind hpass
    omega
  · have hrun := hslot.runway hretain
    have hstop := Stripe.frontierRelOf_le_of_le_chunkOf hd.start_ge hle
    rw [hdue] at hstop
    omega

def leasedCheck (cfg : LeaseConfig) (r : Nat) (s : StripeState) (l : StripeAct) :
    Bool :=
  match l, s.writer with
  | .writer, .gateClock g expiry sum =>
    !gateForces cfg s g expiry sum && ((s.readers r).held.all (fun p => !p.2.counted) ||
        leaseActive cfg expiry s.now)
  | _, _ => true

theorem leased_of_check {l : StripeAct} (h : leasedCheck cfg r s l = true) : Leased cfg r s l := by
  rintro rfl g expiry sum hw
  simp only [leasedCheck, hw, Bool.and_eq_true, Bool.not_eq_true', Bool.or_eq_true] at h
  refine ⟨h.1, ?_⟩
  rintro ⟨sh, c, b, tok, hheld, hcounted, -⟩
  rcases h.2 with hnone | hactive
  · rw [hheld] at hnone
    simp [hcounted] at hnone
  · exact hactive

def borrowRun : List StripeAct :=
  .alloc 136 :: List.replicate 11 .writer ++
  [.fill 8 144, .commit true, .read 0 .snapshot, .read 0 .step,
    .read 0 (.probe ⟨1, 0, 8, 136⟩ false), .read 0 (.acquire 0)] ++
  List.replicate 4 (.read 0 .step) ++
  .alloc 136 :: List.replicate 11 .writer

def smallLease : LeaseConfig := ⟨100, 1000, 1, false, by decide⟩

end CycloneCache.Ref

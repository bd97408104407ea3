import CycloneCache.Proofs.BorrowSafety

namespace CycloneCache.Ref

open Lib

def takeover (s : StripeState) : StripeState := { s with writer := .rest }

def MidWrap (st : Stripe) (s : StripeState) : Prop :=
  ∃ len todo next, s.writer = .stores len todo next ∧ (∀ c, Store.cursor c ∉ todo) ∧
    ∃ v, pendingGen todo = some v ∧ st.passOf v ≠ st.passOf s.words.gen

def SlotSafe (st : Stripe) (s : StripeState) (slot : WriteSlot) : Prop :=
  ∀ d ∈ s.docs, s.words.gen ≤ st.exposureThreshold d.pass d.start →
    ∀ x, d.start ≤ x → x < d.start + d.len →
      ¬ (slot.writeOffset ≤ x ∧ x < max slot.newWritePos slot.fillLimit)

variable {s s' : StripeState} {st : Stripe} {slot : WriteSlot} {pass : Nat} {g : Gate}
  {next : Stage} {cfg : LeaseConfig}

theorem LogInv.due_eq_of_not_midWrap (hi : LogInv st s) (h : ¬ MidWrap st s) :
    s.due = s.words.gen := by
  cases hw : s.writer with
  | rest => exact hi.pcAt hw
  | raise | gateExpiry | gateCounts | gateClock | lower | stage | filling => exact (hi.pcAt hw).1
  | stores len todo next =>
    have hpass : s.due = st.genOf (st.passOf s.words.gen + 1) st.wrapFrontier →
        st.passOf s.due ≠ st.passOf s.words.gen := by
      intro hdue
      rw [hdue, Stripe.passOf_genOf st.wrapFrontier_le]
      omega
    have hat := (hi.pcAt hw).1
    generalize htodo : todo = l at hat
    cases hat with
    | marking h | marked h | closing h | closed h | advancing upTo h => exact h
    | dropped b hcursor hdue | phased hcursor hdue =>
      exact absurd ⟨len, todo, next, hw, by rw [htodo]; simp, s.due,
        by rw [htodo]; rfl, hpass hdue⟩ h

theorem LogInv.takeover (hi : LogInv st s) (hdue : s.due = s.words.gen) : LogInv st (takeover s) :=
  hi.of_pc rfl rfl rfl rfl hdue

theorem LogInv.slotSafe (hi : LogInv st s) (hpc : s.writer = .filling slot) :
    SlotSafe st s slot := by
  obtain ⟨hdue, hslot⟩ := hi.pcAt hpc
  rintro d hd hgen x hstart hend ⟨hlo, hhi⟩
  have hdoc := hi.doc d hd
  have hoffset := hslot.offset
  have hle := hdoc.pass_le
  rw [hdue] at hle
  have hnot : ¬ st.exposureThreshold d.pass d.start < s.words.gen := Nat.not_lt.mpr hgen
  rw [Stripe.threshold_lt_iff] at hnot
  by_cases hpass : d.pass = st.passOf s.words.gen
  · have := hdoc.behind (by rw [hdue]; exact hpass)
    omega
  · -- the previous pass, not exposed: the runway stops before the document
    have hprev : st.passOf s.words.gen = d.pass + 1 := by omega
    by_cases hretain : st.retain = true
    · have hrun := hslot.runway hretain
      have hnext := hslot.next_runway hretain
      have hstop := Stripe.frontierRelOf_le_of_le_chunkOf
        (f := st.frontierOf s.words.gen) hdoc.start_ge (by omega)
      omega
    · have hflush : st.retain = false := by simpa using hretain
      have hfront := hi.flushed hflush (by rw [hdue]; omega)
      have hlt := st.chunkOf_lt d.start
      rw [hdue] at hfront
      omega

def FirstDoc (st : Stripe) (s : StripeState) (pass : Nat) : Prop :=
  ∃ d ∈ s.docs, d.pass = pass ∧ d.start = st.dataStart ∧ 0 < d.len

theorem FirstDoc.later (h : FirstDoc st s pass) (hl : Later s s') : FirstDoc st s' pass := by
  obtain ⟨d, hd, hrest⟩ := h
  exact ⟨d, hl.docs d hd, hrest⟩

def Wrapping (st : Stripe) (gen : Nat) : WriterPc → Prop
  | .raise g | .gateExpiry g | .gateCounts g _ _ _ | .gateClock g _ _
  | .lower g => g.kind = .flushWrap
  | .stores _ todo _ => ∃ v, pendingGen todo = some v ∧ st.passOf v ≠ st.passOf gen
  | .rest | .stage .. | .filling _ => False

def WriterPc.len : WriterPc → Option Nat
  | .raise g | .gateExpiry g | .gateCounts g _ _ _ | .gateClock g _ _
  | .lower g => some g.len
  | .stores len _ _ | .stage len _ => some len
  | .filling slot => some slot.len
  | .rest => none

structure FirstInv (st : Stripe) (s : StripeState) : Prop where
  first : st.dataStart < s.words.cursor → FirstDoc st s (st.passOf s.due)
  wrapping : Wrapping st s.words.gen s.writer → FirstDoc st s (st.passOf s.words.gen)
  len : ∀ n, s.writer.len = some n → kHeaderSize ≤ n

theorem firstInv_fresh (st : Stripe) : FirstInv st (StripeState.fresh st) where
  first h := absurd h (Nat.lt_irrefl _)
  wrapping h := h.elim
  len n h := by cases h

theorem FirstInv.of_words (hi : FirstInv st s) (hl : Later s s') (hwords : s'.words = s.words)
    (hdue : s'.due = s.due)
    (hwrap : Wrapping st s.words.gen s'.writer → Wrapping st s.words.gen s.writer)
    (hlen : s'.writer.len = none ∨ s'.writer.len = s.writer.len) : FirstInv st s' where
  first h := by
    rw [hwords] at h
    rw [hdue]
    exact (hi.first h).later hl
  wrapping h := by
    rw [hwords] at h ⊢
    exact (hi.wrapping (hwrap h)).later hl
  len n hn := by
    rcases hlen with h | h <;> rw [h] at hn
    · cases hn
    · exact hi.len n hn

theorem gatePassed_len (st : Stripe) (g : Gate) : (gatePassed st g).len = some g.len := by
  unfold gatePassed
  split <;> rfl

theorem gateDeferred_len (g : Gate) :
    (gateDeferred g).len = none ∨ (gateDeferred g).len = some g.len := by
  unfold gateDeferred
  split
  · exact .inl rfl
  · exact .inl rfl
  · exact .inr rfl

theorem gatePassed_wrapping {w : Words} (hg : GateOk st w g)
    (h : Wrapping st w.gen (gatePassed st g)) : g.kind = .flushWrap := by
  obtain ⟨len, todo, next, hst⟩ := gatePassed_stores st g
  rw [hst] at h
  obtain ⟨v, hv, hne⟩ := h
  rcases pendingGen_gatePassed hst hv with ⟨hk, -⟩ | ⟨-, rfl⟩
  · exact hk
  · rw [Stripe.passOf_genOf hg.hi, hg.pass] at hne
    exact absurd rfl hne

theorem FirstInv.store {w : Store} {todo : List Store} {len : Nat} (hi : FirstInv st s)
    (hpc : s.writer = .stores len (w :: todo) next) (hat : StoresAt st s.words s.due (w :: todo)) :
    FirstInv st { s.store w todo with writer := .stores len todo next } := by
  refine ⟨fun h => ?_, fun h => ?_, fun n hn => ?_⟩
  · change st.dataStart < (s.store w todo).words.cursor at h
    change FirstDoc st s (st.passOf (s.store w todo).due)
    rcases hat.effect with ⟨hcursor, hpass, -⟩ | ⟨hcursor, -, -⟩
    · rw [hcursor] at h
      rw [hpass]
      exact hi.first h
    · rw [hcursor] at h
      exact absurd h (Nat.lt_irrefl _)
  · obtain ⟨v, hv, hne⟩ := h
    change st.passOf v ≠ st.passOf (s.store w todo).words.gen at hne
    change FirstDoc st s (st.passOf (s.store w todo).words.gen)
    -- a generation store has none after it
    have hw : ∀ u, w ≠ .gen u := by
      rintro u rfl
      generalize hl : Store.gen u :: todo = l at hat
      cases hat with
      | phased | advancing => cases hl; cases hv
      | marking | marked | dropped | closing | closed => cases hl
    have hgen : (s.store w todo).words.gen = s.words.gen := by
      cases w with
      | gen u => exact absurd rfl (hw u)
      | intent | cursor | phase => rfl
    rw [hgen] at hne ⊢
    refine hi.wrapping ?_
    rw [hpc]
    exact ⟨v, by rw [pendingGen_cons hw]; exact hv, hne⟩
  · exact hi.len n (by rw [hpc]; exact hn)

theorem WriterMove.first (h : WriterMove st cfg s s') (hlater : Later s s') (hlog : LogInv st s)
    (hi : FirstInv st s) : FirstInv st s' := by
  cases h with
  | raise g hpc =>
    exact ⟨hi.first, fun h => hi.wrapping (by rw [hpc]; exact h),
      fun n hn => hi.len n (by rw [hpc]; exact hn)⟩
  | expiry g hpc | count g expiry sh c sum todo hpc | counted g expiry sum hpc
  | defer g expiry sum since hpc =>
    exact hi.of_words hlater rfl rfl (fun h => by rw [hpc]; exact h) (.inr (by rw [hpc]; rfl))
  | pass g expiry sum slots hpc =>
    exact hi.of_words hlater rfl rfl
      (fun h => by rw [hpc]; exact gatePassed_wrapping (hlog.pcAt hpc).2 h)
      (.inr (by rw [hpc]; exact gatePassed_len st g))
  | lower g hpc =>
    have hnot : ¬ Wrapping st s.words.gen (gateDeferred g) := by
      unfold gateDeferred
      split <;> exact id
    refine ⟨hi.first, fun h => absurd h hnot, fun n hn => hi.len n ?_⟩
    change (gateDeferred g).len = some n at hn
    rw [hpc]
    rcases gateDeferred_len g with h | h <;> rw [h] at hn
    · cases hn
    · exact hn
  | store len w todo next hpc => exact hi.store hpc (hlog.pcAt hpc).1
  | stored len next hpc | skip len stage next hpc | reserve len hpc =>
    exact hi.of_words hlater rfl rfl (fun h => h.elim) (.inr (by rw [hpc]; rfl))
  | ask g stage hpc hk =>
    exact hi.of_words hlater rfl rfl (fun h => absurd h hk) (.inr (by rw [hpc]; rfl))

theorem AllocTo.first {len : Nat} {pc : WriterPc} (h : AllocTo st s.words len pc)
    (hi : FirstInv st s) (hdue : s.due = s.words.gen) (hlen : kHeaderSize ≤ len) :
    FirstInv st { s with writer := pc } := by
  have hpc : pc.len = some len := by cases h <;> rfl
  refine ⟨hi.first, fun hwrap => ?_, fun n hn => ?_⟩
  · change FirstDoc st s (st.passOf s.words.gen)
    rw [← hdue]
    refine hi.first ?_
    cases h with
    | wrap hroom hfull | flush hroom hfull => omega
    | here => exact hwrap.elim
  · change pc.len = some n at hn
    rw [hpc] at hn
    cases hn
    exact hlen

theorem commitWriteSlot_first (hlog : LogInv st s) (hi : FirstInv st s)
    (hpc : s.writer = .filling slot) : FirstInv st (commitWriteSlot s slot true) := by
  obtain ⟨hdue, hslot⟩ := hlog.pcAt hpc
  refine ⟨fun _ => ?_, fun h => h.elim, fun n hn => by cases hn⟩
  by_cases hmoved : st.dataStart < s.words.cursor
  · obtain ⟨d, hd, hrest⟩ := hi.first hmoved
    exact ⟨d, List.mem_cons_of_mem _ hd, hrest⟩
  · -- the first fill of the pass: its own document is the one
    have hge := hlog.cursor_ge
    have hlen := hi.len slot.len (by rw [hpc]; rfl)
    refine ⟨slot.doc, List.mem_cons_self, ?_, ?_, ?_⟩
    · show slot.pass = st.passOf s.due
      rw [hdue, hslot.pass]
    · show slot.writeOffset = st.dataStart
      rw [hslot.offset]
      omega
    · exact lt_of_lt_of_le (by decide) hlen

theorem stripeStep_first {l : StripeAct} (hlog : LogInv st s) (hi : FirstInv st s)
    (h : stripeStep st cfg s l = some s') : FirstInv st s' := by
  have hlater := stripeStep_later hlog h
  cases stripeStep_move h with
  | tick | fill => exact hi.of_words hlater rfl rfl id (.inr rfl)
  | refuse => exact hi
  | alloc len pc hrest hlen hto => exact hto.first hi (hlog.pcAt hrest) hlen
  | writer _ h => exact h.first hlater hlog hi
  | commit slot hpc => exact commitWriteSlot_first hlog hi hpc
  | abandon slot hpc => exact hi.of_words hlater rfl rfl (fun h => h.elim) (.inl rfl)
  | read r act _ h =>
    have hf := h.frame
    exact hi.of_words hlater hf.words hf.due (by rw [hf.writer]; exact id)
      (.inr (by rw [hf.writer]))

def TakerPc (st : Stripe) (gen : Nat) : WriterPc → Prop
  | .rest | .stage .. => True
  | .raise g | .gateExpiry g | .gateCounts g _ _ _ | .gateClock g _ _
  | .lower g => g.kind ≠ .flushWrap ∧ g.pass = st.passOf gen ∧ g.hi ≤ st.chunks
  | .stores _ todo _ =>
    (∃ v, todo = [.gen v, .intent 0] ∧ st.passOf v = st.passOf gen) ∨ todo = [.intent 0] ∨ todo = []
  | .filling slot =>
    slot.writeOffset = st.dataStart ∧ slot.newWritePos = st.dataStart + roundUp8 slot.len

structure TakerInv (st : Stripe) (pass : Nat) (s : StripeState) : Prop where
  cursor : s.words.cursor = st.dataStart
  gen : st.passOf s.words.gen = pass
  first : FirstDoc st s pass
  pc : TakerPc st s.words.gen s.writer
  len : ∀ n, s.writer.len = some n → kHeaderSize ≤ n

theorem TakerInv.of_words (hi : TakerInv st pass s) (hwords : s'.words = s.words)
    (hdocs : s'.docs = s.docs) (hpc : TakerPc st s.words.gen s'.writer)
    (hlen : ∀ n, s'.writer.len = some n → kHeaderSize ≤ n) : TakerInv st pass s' where
  cursor := by rw [hwords]; exact hi.cursor
  gen := by rw [hwords]; exact hi.gen
  first := by
    obtain ⟨d, hd, hrest⟩ := hi.first
    exact ⟨d, hdocs ▸ hd, hrest⟩
  pc := by rw [hwords]; exact hpc
  len := hlen

theorem gatePassed_taker {gen : Nat}
    (h : g.kind ≠ .flushWrap ∧ g.pass = st.passOf gen ∧ g.hi ≤ st.chunks) :
    TakerPc st gen (gatePassed st g) := by
  have hv : st.passOf (st.genOf g.pass g.hi) = st.passOf gen := by
    rw [Stripe.passOf_genOf h.2.2, h.2.1]
  unfold gatePassed
  split
  · next hk => exact absurd hk h.1
  · exact .inl ⟨_, rfl, hv⟩
  · exact .inl ⟨_, rfl, hv⟩

theorem WriterMove.taker (h : WriterMove st cfg s s') (hi : TakerInv st pass s) :
    TakerInv st pass s' := by
  have hpc := hi.pc
  have hlen := hi.len
  cases h with
  | raise g hw =>
    rw [hw] at hpc hlen
    exact ⟨hi.cursor, hi.gen, hi.first, hpc, hlen⟩
  | expiry g hw | count g expiry sh c sum todo hw | counted g expiry sum hw
  | defer g expiry sum since hw =>
    rw [hw] at hpc hlen
    exact hi.of_words rfl rfl hpc hlen
  | pass g expiry sum slots hw =>
    rw [hw] at hpc hlen
    exact hi.of_words rfl rfl (gatePassed_taker hpc) (by rw [gatePassed_len]; exact hlen)
  | lower g hw =>
    rw [hw] at hlen
    refine ⟨hi.cursor, hi.gen, hi.first, ?_, fun n hn => ?_⟩
    · show TakerPc st s.words.gen (gateDeferred g)
      unfold gateDeferred
      split <;> trivial
    · change (gateDeferred g).len = some n at hn
      rcases gateDeferred_len g with h | h <;> rw [h] at hn
      · cases hn
      · exact hlen n hn
  | store len w todo next hw =>
    rw [hw] at hpc hlen
    rcases hpc with ⟨v, htodo, hv⟩ | htodo | htodo
    · -- an advance's generation store stays in the pass
      cases htodo
      refine ⟨hi.cursor, ?_, hi.first, .inr (.inl rfl), hlen⟩
      show st.passOf v = pass
      rw [hv]
      exact hi.gen
    · cases htodo
      exact ⟨hi.cursor, hi.gen, hi.first, .inr (.inr rfl), hlen⟩
    · cases htodo
  | stored len next hw | skip len stage next hw =>
    rw [hw] at hlen
    exact hi.of_words rfl rfl trivial hlen
  | ask g stage hw hk hpass hhi =>
    rw [hw] at hlen
    exact hi.of_words rfl rfl ⟨hk, hpass, hhi⟩ hlen
  | reserve len hw =>
    rw [hw] at hlen
    refine hi.of_words rfl rfl ⟨hi.cursor, ?_⟩ hlen
    show s.words.cursor + roundUp8 len = st.dataStart + roundUp8 len
    rw [hi.cursor]

theorem AllocTo.taker {len : Nat} {pc : WriterPc} (h : AllocTo st s.words len pc)
    (hi : TakerInv st pass s) (hlen : kHeaderSize ≤ len) :
    TakerInv st pass { s with writer := pc } := by
  have hcursor := hi.cursor
  cases h with
  | wrap hroom hfull | flush hroom hfull => omega
  | here stage => exact hi.of_words rfl rfl trivial fun n hn => by cases hn; exact hlen

def BeforeGrant : StripeAct → Prop
  | .fill .. | .commit _ => False
  | .tick _ | .alloc _ | .writer | .read .. => True

theorem stripeStep_taker {l : StripeAct} (hi : TakerInv st pass s) (hl : BeforeGrant l)
    (h : stripeStep st cfg s l = some s') : TakerInv st pass s' := by
  cases stripeStep_move h with
  | tick => exact hi.of_words rfl rfl hi.pc hi.len
  | refuse => exact hi
  | alloc len pc hrest hlen hto => exact hto.taker hi hlen
  | writer _ h => exact h.taker hi
  | fill | commit | abandon => exact hl.elim
  | read r act _ h =>
    have hf := h.frame
    exact hi.of_words hf.words hf.docs (by rw [hf.writer]; exact hi.pc)
      (by rw [hf.writer]; exact hi.len)

theorem takerInv_of_midWrap (hlog : LogInv st s) (hfirst : FirstInv st s) (h : MidWrap st s) :
    TakerInv st (st.passOf s.words.gen) (takeover s) := by
  obtain ⟨len, todo, next, hw, hnocursor, v, hv, hne⟩ := h
  have hcursor : s.words.cursor = st.dataStart := by
    have hat := (hlog.pcAt hw).1
    generalize htodo : todo = l at hat
    cases hat with
    | marking | marked =>
      refine absurd ?_ (hnocursor st.dataStart)
      rw [htodo]
      simp [Stripe.commitStores]
    | dropped b hcursor hdue | phased hcursor hdue => exact hcursor
    | advancing upTo h hretain hlo hhi =>
      rw [htodo] at hv
      cases hv
      exact absurd (Stripe.passOf_genOf hhi) hne
    | closing | closed => rw [htodo] at hv; cases hv
  refine ⟨hcursor, rfl, ?_, trivial, fun n hn => by cases hn⟩
  exact hfirst.wrapping (by rw [hw]; exact ⟨v, hv, hne⟩)

theorem firstInv_run {ls : List StripeAct}
    (h : runs (stripeStep st cfg) (StripeState.fresh st) ls = some s) :
    LogInv st s ∧ FirstInv st s := by
  let inv : StripeState → Prop := fun t => LogInv st t ∧ FirstInv st t
  have hs : inv s :=
    runs_inv (fun _ _ _ hi hl => ⟨stripeStep_log hi.1 hl,
      stripeStep_first hi.1 hi.2 hl⟩) h ⟨logInv_fresh st, firstInv_fresh st⟩
  exact hs

theorem takerInv_run {ls : List StripeAct} (hls : ∀ l ∈ ls, BeforeGrant l) (hi : TakerInv st pass s)
    (h : runs (stripeStep st cfg) s ls = some s') : TakerInv st pass s' := by
  induction ls generalizing s with
  | nil => cases h; exact hi
  | cons l ls ih =>
    obtain ⟨mid, hl, hrest⟩ := runs_cons_some h
    exact ih (fun l' hl' => hls l' (List.mem_cons_of_mem _ hl'))
      (stripeStep_taker hi (hls l List.mem_cons_self) hl) hrest

theorem TakerInv.not_slotSafe (hi : TakerInv st pass s) (hpc : s.writer = .filling slot) :
    ¬ SlotSafe st s slot := by
  intro hsafe
  obtain ⟨d, hd, hpass, hstart, hlen⟩ := hi.first
  have hslot := hi.pc
  have hslen := hi.len slot.len (by rw [hpc]; rfl)
  rw [hpc] at hslot
  obtain ⟨hoffset, hnext⟩ := hslot
  have hround := le_roundUp8 slot.len
  simp only [kHeaderSize] at hslen
  have hgen : s.words.gen ≤ st.exposureThreshold d.pass d.start := by
    have hnot : ¬ st.exposureThreshold d.pass d.start < s.words.gen := by
      rw [Stripe.threshold_lt_iff, hpass, hi.gen]
      omega
    exact Nat.le_of_not_lt hnot
  refine hsafe d hd hgen st.dataStart (by omega) (by omega) ⟨by omega, ?_⟩
  rw [hnext]
  omega

def stalledWrap (steps : Nat) : List StripeAct :=
  [.alloc 1000, .writer, .fill 8 1008, .commit true, .alloc 136] ++ List.replicate steps .writer

end CycloneCache.Ref

import CycloneCache.Proofs.StripeMoves

namespace CycloneCache.Ref

open Lib

inductive StoresAt (st : Stripe) (w : Words) (due : Nat) : List Store → Prop where
  | marking (h : due = w.gen) : StoresAt st w due (st.commitStores (st.passOf w.gen))
  | marked (h : due = w.gen) : StoresAt st w due (st.commitStores (st.passOf w.gen)).tail
  | dropped (b : Bool) (hcursor : w.cursor = st.dataStart)
      (hdue : due = st.genOf (st.passOf w.gen + 1) st.wrapFrontier) :
      StoresAt st w due [.phase b, .gen due, .intent 0]
  | phased (hcursor : w.cursor = st.dataStart)
      (hdue : due = st.genOf (st.passOf w.gen + 1) st.wrapFrontier) :
      StoresAt st w due [.gen due, .intent 0]
  | advancing (upTo : Nat) (h : due = w.gen) (hretain : st.retain = true)
      (hlo : st.frontierOf w.gen ≤ upTo) (hhi : upTo ≤ st.chunks) :
      StoresAt st w due [.gen (st.genOf (st.passOf w.gen) upTo), .intent 0]
  | closing (h : due = w.gen) : StoresAt st w due [.intent 0]
  | closed (h : due = w.gen) : StoresAt st w due []

structure SlotOk (st : Stripe) (w : Words) (slot : WriteSlot) : Prop where
  offset : slot.writeOffset = w.cursor
  next : slot.newWritePos = w.cursor + roundUp8 slot.len
  pass : slot.pass = st.passOf w.gen
  next_le : slot.newWritePos ≤ st.size
  next_runway : st.retain = true → slot.newWritePos ≤ st.frontierRelOf (st.frontierOf w.gen)
  limit_le : slot.fillLimit ≤ st.size
  runway : st.retain = true → slot.fillLimit ≤ st.frontierRelOf (st.frontierOf w.gen)

def PcOk (st : Stripe) (w : Words) (due : Nat) : WriterPc → Prop
  | .rest => due = w.gen
  | .raise g | .gateExpiry g | .gateCounts g _ _ _ | .gateClock g _ _
  | .lower g => due = w.gen ∧ GateOk st w g
  | .stores len todo next =>
    StoresAt st w due todo ∧ Fits st (applyAll Words.put w todo).cursor
        (applyAll Words.put w todo).gen len next
  | .stage len stage => due = w.gen ∧ Fits st w.cursor w.gen len stage
  | .filling slot => due = w.gen ∧ SlotOk st w slot

structure DocOk (st : Stripe) (s : StripeState) (d : Doc) : Prop where
  start_ge : st.dataStart ≤ d.start
  aligned : d.start % 8 = 0
  end_le : d.start + d.len ≤ st.size
  pass_le : d.pass ≤ st.passOf s.due
  behind : d.pass = st.passOf s.due → d.start + d.len ≤ s.words.cursor

structure LogInv (st : Stripe) (s : StripeState) : Prop where
  cursor_ge : st.dataStart ≤ s.words.cursor
  cursor_le : s.words.cursor ≤ st.size
  cursor_aligned : s.words.cursor % 8 = 0
  flushed : st.retain = false → 0 < st.passOf s.due → st.frontierOf s.due = st.chunks
  doc : ∀ d ∈ s.docs, DocOk st s d
  bytes_le : ∀ x, (s.bytes x).2 ≤ st.passOf s.due
  bytes_cursor : ∀ o, st.dataStart ≤ o → o < s.words.cursor → o % 8 = 0 →
    st.passOf s.due ≤ (s.bytes o).2
  pc : PcOk st s.words s.due s.writer

theorem logInv_fresh (st : Stripe) : LogInv st (StripeState.fresh st) where
  cursor_ge := Nat.le_refl _
  cursor_le := Nat.le_of_lt st.start_lt
  cursor_aligned := st.start_aligned
  flushed := by
    intro _ h
    simp [StripeState.fresh, Stripe.passOf] at h
  doc := by intro d hd; cases hd
  bytes_le := fun _ => Nat.zero_le _
  bytes_cursor := by
    intro o h₁ h₂ _
    exact absurd h₂ (Nat.not_lt.mpr h₁)
  pc := rfl

variable {s s' : StripeState} {st : Stripe} {todo : List Store} {w : Store} {g : Gate} {len : Nat}
  {cfg : LeaseConfig}

theorem LogInv.of_pc (hi : LogInv st s) (hwords : s'.words = s.words) (hdue : s'.due = s.due)
    (hbytes : s'.bytes = s.bytes) (hdocs : s'.docs = s.docs) (hpc : PcOk st s.words s.due s'.writer) :
    LogInv st s' where
  cursor_ge := by rw [hwords]; exact hi.cursor_ge
  cursor_le := by rw [hwords]; exact hi.cursor_le
  cursor_aligned := by rw [hwords]; exact hi.cursor_aligned
  flushed := by rw [hdue]; exact hi.flushed
  doc := by
    intro d hd
    rw [hdocs] at hd
    have h := hi.doc d hd
    exact ⟨h.start_ge, h.aligned, h.end_le, by rw [hdue]; exact h.pass_le,
      by rw [hdue, hwords]; exact h.behind⟩
  bytes_le := by rw [hbytes, hdue]; exact hi.bytes_le
  bytes_cursor := by rw [hbytes, hdue, hwords]; exact hi.bytes_cursor
  pc := by rw [hwords, hdue]; exact hpc

theorem StoresAt.step (h : StoresAt st s.words s.due (w :: todo)) :
    StoresAt st (s.store w todo).words (s.store w todo).due todo := by
  generalize hl : w :: todo = l at h
  cases h with
  | marking h => cases hl; exact .marked h
  | marked h => cases hl; exact .dropped _ rfl rfl
  | dropped b hcursor hdue => cases hl; exact .phased hcursor hdue
  | phased hcursor hdue | advancing upTo h hretain hlo hhi => cases hl; exact .closing rfl
  | closing h => cases hl; exact .closed h
  | closed h => cases hl

theorem StoresAt.effect (h : StoresAt st s.words s.due (w :: todo)) :
    ((s.store w todo).words.cursor = s.words.cursor ∧
      st.passOf (s.store w todo).due = st.passOf s.due ∧
      ((s.store w todo).due = s.due ∨ st.retain = true)) ∨
    ((s.store w todo).words.cursor = st.dataStart ∧
      st.passOf (s.store w todo).due = st.passOf s.due + 1 ∧
      st.frontierOf (s.store w todo).due = st.wrapFrontier) := by
  generalize hl : w :: todo = l at h
  cases h with
  | marking h | dropped b hcursor hdue | phased hcursor hdue | closing h =>
    cases hl
    exact .inl ⟨rfl, rfl, .inl rfl⟩
  | advancing upTo h hretain hlo hhi =>
    cases hl
    refine .inl ⟨rfl, ?_, .inr hretain⟩
    show st.passOf (st.genOf (st.passOf s.words.gen) upTo) = st.passOf s.due
    rw [Stripe.passOf_genOf hhi, h]
  | marked h =>
    cases hl
    refine .inr ⟨rfl, ?_, ?_⟩
    · show st.passOf (st.genOf (st.passOf s.words.gen + 1) st.wrapFrontier) = _
      rw [Stripe.passOf_genOf st.wrapFrontier_le, h]
    · exact Stripe.frontierOf_genOf st.wrapFrontier_le
  | closed h => cases hl

variable {pc : WriterPc}

theorem LogInv.store (hi : LogInv st s) (hat : StoresAt st s.words s.due (w :: todo))
    (hpc : PcOk st (s.store w todo).words (s.store w todo).due pc) :
    LogInv st { s.store w todo with writer := pc } := by
  rcases hat.effect with ⟨hcursor, hpass, hdue⟩ | ⟨hcursor, hpass, hfront⟩
  · refine ⟨?_, ?_, ?_, ?_, ?_, ?_, ?_, hpc⟩
    · show st.dataStart ≤ (s.store w todo).words.cursor
      rw [hcursor]; exact hi.cursor_ge
    · show (s.store w todo).words.cursor ≤ st.size
      rw [hcursor]; exact hi.cursor_le
    · show (s.store w todo).words.cursor % 8 = 0
      rw [hcursor]; exact hi.cursor_aligned
    · intro hflush hpos
      rcases hdue with hdue | hretain
      · show st.frontierOf (s.store w todo).due = st.chunks
        rw [hdue]
        exact hi.flushed hflush (hpass ▸ hpos)
      · rw [hflush] at hretain
        cases hretain
    · intro d hd
      have h := hi.doc d hd
      refine ⟨h.start_ge, h.aligned, h.end_le, ?_, ?_⟩
      · show d.pass ≤ st.passOf (s.store w todo).due
        rw [hpass]; exact h.pass_le
      · intro hd'
        show d.start + d.len ≤ (s.store w todo).words.cursor
        rw [hcursor]
        exact h.behind (hd'.trans hpass)
    · intro x
      show (s.bytes x).2 ≤ st.passOf (s.store w todo).due
      rw [hpass]; exact hi.bytes_le x
    · intro o h₁ h₂ h₃
      show st.passOf (s.store w todo).due ≤ (s.bytes o).2
      rw [hpass]
      exact hi.bytes_cursor o h₁ (hcursor ▸ h₂) h₃
  · -- the cursor drops: no document of the new pass exists yet
    refine ⟨?_, ?_, ?_, ?_, ?_, ?_, ?_, hpc⟩
    · exact Nat.le_of_eq hcursor.symm
    · show (s.store w todo).words.cursor ≤ st.size
      rw [hcursor]; exact Nat.le_of_lt st.start_lt
    · show (s.store w todo).words.cursor % 8 = 0
      rw [hcursor]; exact st.start_aligned
    · intro hflush _
      show st.frontierOf (s.store w todo).due = st.chunks
      rw [hfront, Stripe.wrapFrontier, hflush]
      rfl
    · intro d hd
      have h := hi.doc d hd
      have hlt : d.pass < st.passOf (s.store w todo).due := by
        rw [hpass]; exact Nat.lt_succ_of_le h.pass_le
      exact ⟨h.start_ge, h.aligned, h.end_le, Nat.le_of_lt hlt,
        fun hd' => absurd hd' (Nat.ne_of_lt hlt)⟩
    · intro x
      show (s.bytes x).2 ≤ st.passOf (s.store w todo).due
      rw [hpass]; exact Nat.le_succ_of_le (hi.bytes_le x)
    · intro o h₁ h₂ _
      rw [show (_ : StripeState).words.cursor = st.dataStart from hcursor] at h₂
      exact absurd h₂ (Nat.not_lt.mpr h₁)

theorem LogInv.intent {v : Nat} (hi : LogInv st s)
    (hpc : PcOk st { s.words with intent := v } s.due pc) :
    LogInv st { s.store (.intent v) [] with writer := pc } where
  cursor_ge := hi.cursor_ge
  cursor_le := hi.cursor_le
  cursor_aligned := hi.cursor_aligned
  flushed := hi.flushed
  doc d hd := ⟨(hi.doc d hd).start_ge, (hi.doc d hd).aligned, (hi.doc d hd).end_le,
    (hi.doc d hd).pass_le, (hi.doc d hd).behind⟩
  bytes_le := hi.bytes_le
  bytes_cursor := hi.bytes_cursor
  pc := hpc

theorem GateOk.intent {w : Words} (h : GateOk st w g) (v : Nat) :
    GateOk st { w with intent := v } g :=
  ⟨h.pass, h.hi, h.flush, h.advance, h.mandatory, h.early⟩

theorem LogInv.pcAt (hi : LogInv st s) (hpc : s.writer = pc) : PcOk st s.words s.due pc :=
  hpc ▸ hi.pc

theorem AllocTo.log (h : AllocTo st s.words len pc) (hi : LogInv st s) (hdue : s.due = s.words.gen) :
    LogInv st { s with writer := pc } := by
  refine hi.of_pc rfl rfl rfl rfl ?_
  cases h with
  | wrap hroom hfull hretain => exact ⟨.marking hdue, hretain, hroom⟩
  | flush hroom hfull hflush =>
    refine ⟨hdue, rfl, Nat.le_refl _, ?_, ?_, ?_, ?_⟩
    · intro _; exact ⟨hflush, rfl, rfl, hroom⟩
    · intro h; exact absurd rfl h
    · intro h; cases h
    · intro h; cases h
  | here stage hfits => exact ⟨hdue, hfits hi.cursor_le⟩

theorem tailFillEnd_le (st : Stripe) (cfg : LeaseConfig) (gen next size : Nat) :
    tailFillEnd st cfg gen next size ≤ st.size ∧ (st.retain = true →
        tailFillEnd st cfg gen next size ≤ st.frontierRelOf (st.frontierOf gen)) := by
  have hsize := st.frontierRelOf_le_size (st.frontierOf gen)
  unfold tailFillEnd
  split
  · simp only []
    split
    · split
      · exact ⟨by omega, fun _ => Nat.min_le_right _ _⟩
      · exact ⟨Nat.zero_le _, fun _ => Nat.zero_le _⟩
    · next hflush =>
      split
      · exact ⟨Nat.min_le_right _ _, fun h => absurd h hflush⟩
      · exact ⟨Nat.zero_le _, fun _ => Nat.zero_le _⟩
  · exact ⟨Nat.zero_le _, fun _ => Nat.zero_le _⟩

theorem reserveSlot_log (hi : LogInv st s) (hpc : s.writer = .stage len .reserve) :
    LogInv st (reserveSlot st cfg s len) := by
  obtain ⟨hdue, hroom, hrunway⟩ := hi.pcAt hpc
  have htail := tailFillEnd_le st cfg s.words.gen (s.words.cursor + roundUp8 len) (roundUp8 len)
  have hlen := le_roundUp8 len
  refine hi.of_pc rfl rfl rfl rfl ⟨hdue, rfl, rfl, rfl, hroom, hrunway, ?_, ?_⟩
  · simp only [WriteSlot.fillLimit]
    split
    · omega
    · exact htail.1
  · intro hretain
    have := hrunway hretain
    simp only [WriteSlot.fillLimit]
    split
    · omega
    · exact htail.2 hretain

theorem gatePassed_ok {w : Words} {due : Nat} (hdue : due = w.gen) (hg : GateOk st w g) :
    PcOk st w due (gatePassed st g) := by
  unfold gatePassed
  split
  · next hk =>
    obtain ⟨hflush, -, -, hroom⟩ := hg.flush hk
    refine ⟨?_, ?_⟩
    · rw [hg.pass]; exact .marking hdue
    · exact ⟨hroom, fun h => by rw [hflush] at h; cases h⟩
  · next hk =>
    obtain ⟨hretain, hlo, hlt⟩ := hg.advance (by rw [hk]; decide)
    refine ⟨?_, ?_⟩
    · rw [hg.pass]
      exact .advancing g.hi hdue hretain (by omega) hg.hi
    · refine ⟨hretain, ?_⟩
      show w.cursor + roundUp8 g.len ≤ st.frontierRelOf (st.frontierOf (st.genOf g.pass g.hi))
      rw [Stripe.frontierOf_genOf hg.hi]
      exact hg.mandatory hk
  · next hk =>
    obtain ⟨hretain, hlo, hlt⟩ := hg.advance (by rw [hk]; decide)
    have hroom : w.cursor + roundUp8 g.len ≤ st.frontierRelOf g.hi :=
      Nat.le_trans (hg.early hk) (Stripe.frontierRelOf_mono (Nat.le_of_lt hlt))
    refine ⟨?_, ?_⟩
    · rw [hg.pass]
      exact .advancing g.hi hdue hretain (by omega) hg.hi
    · refine ⟨Nat.le_trans hroom (st.frontierRelOf_le_size _), fun _ => ?_⟩
      show w.cursor + roundUp8 g.len ≤ st.frontierRelOf (st.frontierOf (st.genOf g.pass g.hi))
      rw [Stripe.frontierOf_genOf hg.hi]
      exact hroom

theorem gateDeferred_ok {w : Words} {due : Nat} (hdue : due = w.gen) (hg : GateOk st w g) :
    PcOk st w due (gateDeferred g) := by
  unfold gateDeferred
  split
  · exact hdue
  · exact hdue
  · next hk =>
    obtain ⟨hretain, hlo, hlt⟩ := hg.advance (by rw [hk]; decide)
    have hroom := hg.early hk
    rw [hlo] at hroom
    exact ⟨hdue, Nat.le_trans hroom (st.frontierRelOf_le_size _), fun _ => hroom⟩

theorem WriterMove.log (h : WriterMove st cfg s s') (hi : LogInv st s) : LogInv st s' := by
  cases h with
  | raise g hpc =>
    have hg := hi.pcAt hpc
    exact hi.intent ⟨hg.1, hg.2.intent _⟩
  | expiry g hpc | count g expiry sh c sum todo hpc | counted g expiry sum hpc
  | defer g expiry sum since hpc =>
    have hg := hi.pcAt hpc
    exact hi.of_pc rfl rfl rfl rfl hg
  | pass g expiry sum slots hpc =>
    have hg := hi.pcAt hpc
    exact hi.of_pc rfl rfl rfl rfl (gatePassed_ok hg.1 hg.2)
  | lower g hpc =>
    have hg := hi.pcAt hpc
    exact hi.intent (gateDeferred_ok hg.1 (hg.2.intent _))
  | store len w todo next hpc =>
    have hst := hi.pcAt hpc
    exact hi.store hst.1 ⟨hst.1.step, hst.2⟩
  | stored len next hpc =>
    have hst := hi.pcAt hpc
    cases hst.1 with
    | closed h => exact hi.of_pc rfl rfl rfl rfl ⟨h, hst.2⟩
  | ask g stage hpc hk hpass hhi hgate =>
    have hst := hi.pcAt hpc
    exact hi.of_pc rfl rfl rfl rfl ⟨hst.1, hgate hst.2⟩
  | skip len stage next hpc hfits =>
    have hst := hi.pcAt hpc
    exact hi.of_pc rfl rfl rfl rfl ⟨hst.1, hfits hst.2⟩
  | reserve len hpc => exact reserveSlot_log hi hpc

theorem fillBytes_log {slot : WriteSlot} {a b : Nat} (hi : LogInv st s)
    (hpc : s.writer = .filling slot) : LogInv st (fillBytes s slot a b) := by
  have hslot := hi.pcAt hpc
  have hpass : slot.pass = st.passOf s.due := by
    rw [hslot.1, hslot.2.pass]
  refine ⟨hi.cursor_ge, hi.cursor_le, hi.cursor_aligned, hi.flushed, ?_, ?_, ?_, hi.pc⟩
  · intro d hd
    have h := hi.doc d hd
    exact ⟨h.start_ge, h.aligned, h.end_le, h.pass_le, h.behind⟩
  · intro x
    simp only [fillBytes]
    split
    · exact Nat.le_of_eq hpass
    · exact hi.bytes_le x
  · intro o h₁ h₂ h₃
    simp only [fillBytes]
    split
    · exact Nat.le_of_eq hpass.symm
    · exact hi.bytes_cursor o h₁ h₂ h₃

theorem aligned_in_doc {w o : Nat} (hw : w % 8 = 0) (ho : o % 8 = 0) (h : o < w + roundUp8 len) :
    o < w + len := by
  simp only [roundUp8] at h
  omega

theorem commitWriteSlot_log {slot : WriteSlot} (hi : LogInv st s) (hpc : s.writer = .filling slot)
    (hbytes : filled s slot = true) : LogInv st (commitWriteSlot s slot true) := by
  obtain ⟨hdue, hslot⟩ := hi.pcAt hpc
  simp only [filled, List.all_eq_true, List.mem_range, beq_iff_eq] at hbytes
  have hpass : slot.pass = st.passOf s.due := by rw [hdue, hslot.pass]
  have hnext := hslot.next
  have hoff := hslot.offset
  have hnext_le := hslot.next_le
  have hge := hi.cursor_ge
  have hlen := le_roundUp8 slot.len
  have hround := roundUp8_mod slot.len
  have haligned := hi.cursor_aligned
  refine ⟨?_, hnext_le, ?_, hi.flushed, ?_, hi.bytes_le, ?_, hdue⟩
  · show st.dataStart ≤ slot.newWritePos
    omega
  · show slot.newWritePos % 8 = 0
    omega
  · intro d hd
    rcases List.mem_cons.mp hd with rfl | hd
    · refine ⟨?_, ?_, ?_, Nat.le_of_eq hpass, fun _ => ?_⟩
      · show st.dataStart ≤ slot.writeOffset
        omega
      · show slot.writeOffset % 8 = 0
        omega
      · show slot.writeOffset + slot.len ≤ st.size
        omega
      · show slot.writeOffset + slot.len ≤ slot.newWritePos
        omega
    · have h := hi.doc d hd
      refine ⟨h.start_ge, h.aligned, h.end_le, h.pass_le, fun hd' => ?_⟩
      have := h.behind hd'
      show d.start + d.len ≤ slot.newWritePos
      omega
  · intro o h₁ h₂ h₃
    show st.passOf s.due ≤ (s.bytes o).2
    by_cases hold : o < s.words.cursor
    · exact hi.bytes_cursor o h₁ hold h₃
    · have hin : o < s.words.cursor + slot.len :=
        aligned_in_doc haligned h₃ (by rw [← hnext]; exact h₂)
      have hbyte := hbytes (o - s.words.cursor) (by omega)
      rw [hoff, Nat.add_sub_cancel' (Nat.le_of_not_lt hold)] at hbyte
      rw [hbyte]
      exact Nat.le_of_eq hpass.symm

theorem LogInv.read (hi : LogInv st s) (h : ReadFrame s s') : LogInv st s' :=
  hi.of_pc h.words h.due h.bytes h.docs (by rw [h.writer]; exact hi.pc)

variable {l : StripeAct}

theorem StripeMove.log (h : StripeMove st cfg s l s') (hi : LogInv st s) : LogInv st s' := by
  cases h with
  | tick d => exact hi.of_pc rfl rfl rfl rfl hi.pc
  | refuse len => exact hi
  | alloc len pc hrest hlen hto => exact hto.log hi (hi.pcAt hrest)
  | writer _ h => exact h.log hi
  | fill slot a b hpc => exact fillBytes_log hi hpc
  | commit slot hpc hfilled => exact commitWriteSlot_log hi hpc hfilled
  | abandon slot hpc => exact hi.of_pc rfl rfl rfl rfl (hi.pcAt hpc).1
  | read r act _ h => exact hi.read (h.frame)

theorem stripeStep_log (hi : LogInv st s) (h : stripeStep st cfg s l = some s') : LogInv st s' :=
  (stripeStep_move h).log hi

theorem log_run {ls : List StripeAct} (hi : LogInv st s)
    (h : runs (stripeStep st cfg) s ls = some s') : LogInv st s' :=
  runs_inv (fun _ _ _ hinv hs => stripeStep_log hinv hs) h hi

structure Later (s s' : StripeState) : Prop where
  gen : s.words.gen ≤ s'.words.gen
  docs : ∀ d ∈ s.docs, d ∈ s'.docs
  bytes : ∀ x, (s.bytes x).2 ≤ (s'.bytes x).2

theorem Later.of_eq (hgen : s'.words.gen = s.words.gen) (hdocs : s'.docs = s.docs)
    (hbytes : s'.bytes = s.bytes) : Later s s' :=
  ⟨Nat.le_of_eq hgen.symm, fun _ hd => hdocs ▸ hd, fun x => Nat.le_of_eq (by rw [hbytes])⟩

theorem Later.trans {t u : StripeState} (h₁ : Later s t) (h₂ : Later t u) : Later s u :=
  ⟨Nat.le_trans h₁.gen h₂.gen, fun d hd => h₂.docs d (h₁.docs d hd),
    fun x => Nat.le_trans (h₁.bytes x) (h₂.bytes x)⟩

theorem StoresAt.gen_le (h : StoresAt st s.words s.due (w :: todo)) :
    s.words.gen ≤ (s.store w todo).words.gen := by
  generalize hl : w :: todo = l at h
  cases h with
  | marking h | marked h | dropped b hcursor hdue | closing h =>
    cases hl
    exact Nat.le_refl _
  | phased hcursor hdue =>
    cases hl
    have hlt := Stripe.genOf_lt_of_pass_lt (Nat.lt_succ_self (st.passOf s.words.gen))
      (st.frontierOf_le s.words.gen) st.wrapFrontier
    rw [st.genOf_passOf] at hlt
    show s.words.gen ≤ s.due
    rw [hdue]
    exact Nat.le_of_lt hlt
  | advancing upTo h hretain hlo hhi =>
    cases hl
    show s.words.gen ≤ st.genOf (st.passOf s.words.gen) upTo
    nth_rewrite 1 [← st.genOf_passOf s.words.gen]
    exact Nat.add_le_add_left hlo _
  | closed h => cases hl

theorem stripeStep_later (hi : LogInv st s) (h : stripeStep st cfg s l = some s') : Later s s' := by
  cases stripeStep_move h with
  | tick | refuse | alloc | abandon => exact .of_eq rfl rfl rfl
  | writer _ h =>
    cases h with
    | store len w todo next hpc =>
      exact ⟨(hi.pcAt hpc).1.gen_le, fun _ hd => hd, fun _ => Nat.le_refl _⟩
    | raise | expiry | count | counted | pass | defer | lower | stored | ask | skip | reserve =>
      exact .of_eq rfl rfl rfl
  | fill slot a b hpc =>
    have hslot := hi.pcAt hpc
    refine ⟨Nat.le_refl _, fun _ hd => hd, fun x => ?_⟩
    simp only [fillBytes]
    split
    · show (s.bytes x).2 ≤ slot.pass
      rw [hslot.2.pass, ← hslot.1]
      exact hi.bytes_le x
    · exact Nat.le_refl _
  | commit slot hpc =>
    exact ⟨Nat.le_refl _, fun _ hd => List.mem_cons_of_mem _ hd, fun _ => Nat.le_refl _⟩
  | read r act _ h =>
    have hf := h.frame
    exact .of_eq (by rw [hf.words]) hf.docs hf.bytes

theorem later_run {ls : List StripeAct} (hi : LogInv st s)
    (h : runs (stripeStep st cfg) s ls = some s') : Later s s' := by
  let past : StripeState → Prop := fun t => LogInv st t ∧ Later s t
  have hpast : past s' :=
    runs_inv (fun t l t' ht hl => ⟨stripeStep_log ht.1 hl,
      ht.2.trans (stripeStep_later ht.1 hl)⟩) h ⟨hi, .of_eq rfl rfl rfl⟩
  exact hpast.2

/-- However the writer and the readers take turns, the log is kept and nothing goes back. -/
theorem stripe_log {ls ls' : List StripeAct}
    (h : runs (stripeStep st cfg) (.fresh st) ls = some s)
    (h' : runs (stripeStep st cfg) s ls' = some s') : LogInv st s' ∧ Later s s' :=
  have hi := log_run (logInv_fresh st) h
  ⟨log_run hi h', later_run hi h'⟩

theorem stripe_log_document : ∃ s, LogInv (smallStripe true) s ∧ s.docs.length = 1 := by
  obtain ⟨s, h, hlen⟩ : ∃ s, runs (stripeStep (smallStripe true) ⟨1, 1, 1, false, Nat.one_pos⟩)
      (.fresh (smallStripe true)) (.alloc 136 :: .replicate 11 .writer ++ [.fill 8 144,
        .commit true]) = some s ∧ s.docs.length = 1 := by decide +kernel
  exact ⟨s, (stripe_log h runs_nil).1, hlen⟩

end CycloneCache.Ref

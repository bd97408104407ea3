import CycloneCache.Proofs.StripeLog

namespace CycloneCache.Ref

open Lib Function

variable {cls : AdmitClass} {snap : StripeSnapshot} {st : Stripe} {cfg : LeaseConfig} {d : Doc}
  {r : Nat} {s s' : StripeState} {b : Borrow}

structure SnapOk (st : Stripe) (s : StripeState) (snap : StripeSnapshot) : Prop where
  gen_le : snap.gen ≤ s.words.gen
  pass : snap.pass = st.passOf snap.gen
  behind : ∀ o, st.dataStart ≤ o → o < snap.cursorRel → o % 8 = 0 → snap.pass ≤ (s.bytes o).2

structure BorrowOk (st : Stripe) (s : StripeState) (b : Borrow) : Prop where
  doc : b.doc ∈ s.docs
  threshold : ∃ p, b.threshold = st.exposureThreshold p b.doc.start ∧
    (p ≤ b.doc.pass ∨ (st.retain = true ∧ p + 1 ≤ st.passOf s.words.gen))

structure TokenOk (st : Stripe) (cfg : LeaseConfig) (b : Borrow) (tok : BorrowToken) : Prop where
  chunk : tok.chunk = st.chunkOf b.doc.start
  shard : tok.shard < cfg.shards

def ReaderOk (st : Stripe) (cfg : LeaseConfig) (s : StripeState) : ReaderPc → Prop
  | .idle => True
  | .snapGen gen => gen ≤ s.words.gen
  | .snapped snap => SnapOk st s snap
  | .located snap cls b => SnapOk st s snap ∧ ClassOk st snap b.doc.start cls ∧ BorrowOk st s b
  | .counted b tok | .stamped b tok | .intentClear b tok | .genOk b tok
  | .valid b tok | .discarding b tok => BorrowOk st s b ∧ TokenOk st cfg b tok

structure ReadersInv (st : Stripe) (cfg : LeaseConfig) (s : StripeState) : Prop where
  reader : ∀ r, ReaderOk st cfg s (s.readers r)
  served : ∀ b ∈ s.served, BorrowOk st s b

theorem readersInv_fresh (st : Stripe) (cfg : LeaseConfig) :
    ReadersInv st cfg (StripeState.fresh st) :=
  ⟨fun _ => trivial, by intro b hb; cases hb⟩

theorem SnapOk.later (h : SnapOk st s snap) (hl : Later s s') : SnapOk st s' snap :=
  ⟨Nat.le_trans h.gen_le hl.gen, h.pass,
    fun o h₁ h₂ h₃ => Nat.le_trans (h.behind o h₁ h₂ h₃) (hl.bytes o)⟩

theorem BorrowOk.later (h : BorrowOk st s b) (hl : Later s s') : BorrowOk st s' b := by
  obtain ⟨p, hthr, hp⟩ := h.threshold
  refine ⟨hl.docs _ h.doc, p, hthr, ?_⟩
  rcases hp with hp | ⟨hretain, hp⟩
  · exact .inl hp
  · exact .inr ⟨hretain, Nat.le_trans hp (Stripe.passOf_mono hl.gen)⟩

theorem ReaderOk.later {pc : ReaderPc} (h : ReaderOk st cfg s pc) (hl : Later s s') :
    ReaderOk st cfg s' pc := by
  cases pc with
  | idle => trivial
  | snapGen gen => exact Nat.le_trans h hl.gen
  | snapped snap => exact SnapOk.later h hl
  | located snap cls b => exact ⟨h.1.later hl, h.2.1, h.2.2.later hl⟩
  | counted b tok | stamped b tok | intentClear b tok | genOk b tok
  | valid b tok | discarding b tok => exact ⟨h.1.later hl, h.2⟩

theorem ReadersInv.later (hi : ReadersInv st cfg s) (hl : Later s s')
    (hreaders : s'.readers = s.readers) (hserved : s'.served = s.served) : ReadersInv st cfg s' :=
  ⟨fun r => by rw [hreaders]; exact (hi.reader r).later hl,
    fun b hb => (hi.served b (hserved ▸ hb)).later hl⟩

theorem ReaderOk.of_held {pc : ReaderPc} {tok : BorrowToken} (h : ReaderOk st cfg s pc)
    (hheld : pc.held = some (b, tok)) : BorrowOk st s b ∧ TokenOk st cfg b tok := by
  cases pc with
  | idle | snapGen | snapped | located => cases hheld
  | counted | stamped | intentClear | genOk | valid | discarding =>
    cases hheld
    exact h

theorem snapOk_snapshot {gen : Nat} (hi : LogInv st s) (hgen : gen ≤ s.words.gen)
    (hdue : s.words.gen ≤ s.due) : SnapOk st s (st.snapshot gen s.words.cursor) := by
  refine ⟨hgen, rfl, fun o h₁ h₂ h₃ => ?_⟩
  have hcursor : o < s.words.cursor := Nat.lt_of_lt_of_le h₂ (Nat.min_le_left _ _)
  exact Nat.le_trans (Stripe.passOf_mono (Nat.le_trans hgen hdue)) (hi.bytes_cursor o h₁ hcursor h₃)

theorem header_pass (h : headerIntact s d = true) : (s.bytes d.start).2 = d.pass := by
  simp only [headerIntact, List.all_eq_true, List.mem_range, beq_iff_eq] at h
  have := h 0 (by decide)
  rw [Nat.add_zero] at this
  rw [this]

theorem borrowOk_map {threshold : Nat} (hlog : LogInv st s) (hsnap : SnapOk st s snap)
    (hcls : ClassOk st snap d.start cls) (hdoc : d ∈ s.docs) (hheader : headerIntact s d = true)
    (hadmitted : st.admitDocument snap cls d.start (d.pass % 2 ^ 32) = some threshold) :
    BorrowOk st s ⟨d, threshold⟩ := by
  obtain ⟨-, -, -, hthr⟩ := Stripe.admitDocument_eq_some.mp hadmitted
  have hd := hlog.doc d hdoc
  refine ⟨hdoc, Stripe.expectedPass cls snap, hthr, ?_⟩
  cases cls with
  | kReject => exact hcls.elim
  | kCurrent =>
    have := hsnap.behind d.start hd.start_ge hcls hd.aligned
    rw [header_pass hheader] at this
    exact .inl this
  | kRetained =>
    refine .inr ⟨hcls.1, ?_⟩
    have hpos := hcls.2
    have hmono : st.passOf snap.gen ≤ st.passOf s.words.gen := Stripe.passOf_mono hsnap.gen_le
    rw [← hsnap.pass] at hmono
    show snap.pass - 1 + 1 ≤ st.passOf s.words.gen
    omega

theorem LogInv.gen_le_due (hi : LogInv st s) : s.words.gen ≤ s.due := by
  have hwrap : ∀ due, due = st.genOf (st.passOf s.words.gen + 1) st.wrapFrontier →
      s.words.gen ≤ due := by
    intro due hdue
    have hlt := Stripe.genOf_lt_of_pass_lt
      (Nat.lt_succ_self (st.passOf s.words.gen)) (st.frontierOf_le s.words.gen)
      st.wrapFrontier
    rw [st.genOf_passOf] at hlt
    rw [hdue]
    exact Nat.le_of_lt hlt
  cases hw : s.writer with
  | rest => exact Nat.le_of_eq (hi.pcAt hw).symm
  | raise | gateExpiry | gateCounts | gateClock | lower | stage | filling =>
    exact Nat.le_of_eq (hi.pcAt hw).1.symm
  | stores len todo next =>
    cases (hi.pcAt hw).1 with
    | marking h | marked h | closing h | closed h | advancing upTo h => exact Nat.le_of_eq h.symm
    | dropped b hcursor hdue | phased hcursor hdue => exact hwrap _ hdue

section

variable (h : ReadMove st cfg s r s')
include h

theorem ReadMove.pc_other {q : Nat} (hq : q ≠ r) : s'.readers q = s.readers q := by
  cases h with
  | release b tok hpc =>
    unfold releaseBorrow
    split <;> exact update_of_ne hq _ _
  | look | snap | map | acquire | stamp | clear | genOk | serve | fail | miss =>
    exact update_of_ne hq _ _

theorem ReadMove.served_cases :
    s'.served = s.served ∨ ∃ b tok, s.readers r = .genOk b tok ∧ s'.served = b :: s.served := by
  cases h with
  | serve b tok hpc => exact .inr ⟨b, tok, hpc, rfl⟩
  | release b tok hpc =>
    unfold releaseBorrow
    split <;> exact .inl rfl
  | look | snap | map | acquire | stamp | clear | genOk | fail | miss =>
    exact .inl rfl

theorem ReadMove.readersInv (hlater : Later s s') (hlog : LogInv st s) (hi : ReadersInv st cfg s) :
    ReadersInv st cfg s' := by
  have hself : ReaderOk st cfg s (s'.readers r) := by
    have hr := hi.reader r
    cases h with
    | look hpc =>
      simp only [StripeState.setReader, update_self]
      exact Nat.le_refl _
    | snap gen hpc =>
      simp only [StripeState.setReader, update_self]
      rw [hpc] at hr
      exact snapOk_snapshot hlog hr hlog.gen_le_due
    | map snap cls d threshold hpc hcls hdoc hheader hadmitted =>
      simp only [StripeState.setReader, update_self]
      have hsnap : SnapOk st s snap := by
        rcases hpc with hpc | ⟨cls', b, hpc⟩ <;> rw [hpc] at hr
        · exact hr
        · exact hr.1
      have hcls' := hcls (fun cls' b hl => by rw [hl] at hr; exact hr.2.1)
      exact ⟨hsnap, hcls', borrowOk_map hlog hsnap hcls' hdoc hheader hadmitted⟩
    | acquire snap cls b sh hpc hsh =>
      rw [hpc] at hr
      have hlt := st.chunkOf_lt b.doc.start
      have hle := st.chunks_le
      simp only [acquireBorrow, StripeState.setReader, update_self]
      refine ⟨hr.2.2, ?_, hsh⟩
      simp only [kMaxChunks] at hle ⊢
      omega
    | stamp b tok expiry hpc | clear b tok hpc | genOk b tok hpc | serve b tok hpc =>
      simp only [StripeState.setReader, update_self]
      rw [hpc] at hr
      exact hr
    | fail b tok hpc =>
      simp only [StripeState.setReader, update_self]
      exact hr.of_held hpc
    | release | miss =>
      simp only [StripeState.setReader, update_self]
      trivial
  refine ⟨fun q => ?_, fun b hb => ?_⟩
  · by_cases hq : q = r
    · subst hq; exact hself.later hlater
    · rw [h.pc_other hq]; exact (hi.reader q).later hlater
  · rcases h.served_cases with heq | ⟨b', tok, hpc, heq⟩ <;> rw [heq] at hb
    · exact (hi.served b hb).later hlater
    · rcases List.mem_cons.mp hb with rfl | hb
      · have hr := hi.reader r
        rw [hpc] at hr
        exact hr.1.later hlater
      · exact (hi.served b hb).later hlater

end

theorem WriterMove.frame (h : WriterMove st cfg s s') :
    s'.readers = s.readers ∧ s'.served = s.served ∧ s'.docs = s.docs := by
  cases h <;> exact ⟨rfl, rfl, rfl⟩

theorem stripeStep_readers {l : StripeAct} (h : stripeStep st cfg s l = some s') :
    (∃ r act, l = .read r act ∧ ReadMove st cfg s r s') ∨
      (s'.readers = s.readers ∧ s'.served = s.served) := by
  cases stripeStep_move h with
  | tick | refuse | alloc | fill | commit | abandon => exact .inr ⟨rfl, rfl⟩
  | writer _ h => exact .inr ⟨h.frame.1, h.frame.2.1⟩
  | read r act _ h => exact .inl ⟨r, act, rfl, h⟩

theorem stripeStep_readersInv {l : StripeAct} (hlog : LogInv st s) (hi : ReadersInv st cfg s)
    (h : stripeStep st cfg s l = some s') : ReadersInv st cfg s' := by
  have hlater := stripeStep_later hlog h
  rcases stripeStep_readers h with ⟨r, -, -, hmove⟩ | ⟨hreaders, hserved⟩
  · exact hmove.readersInv hlater hlog hi
  · exact hi.later hlater hreaders hserved

theorem LogInv.exposed_of_fill {lo hi x : Nat} (hlog : LogInv st s) (hb : BorrowOk st s b)
    (hfill : stripeStep st cfg s (.fill lo hi) = some s') (hstart : b.doc.start ≤ x)
    (hend : x < b.doc.start + b.doc.len) (hlo : lo ≤ x) (hhi : x < hi) :
    b.threshold < s.words.gen := by
  cases stripeStep_move hfill with
  | fill slot _ _ hpc hfrom hto =>
  obtain ⟨hdue, hslot⟩ := hlog.pcAt hpc
  have hd := hlog.doc _ hb.doc
  have hoffset := hslot.offset
  obtain ⟨p, hthr, hp⟩ := hb.threshold
  -- the document is not of the current pass, which lies behind the cursor
  have hne : b.doc.pass ≠ st.passOf s.words.gen := by
    intro heq
    have := hd.behind (by rw [hdue]; exact heq)
    omega
  have hlt : p + 1 ≤ st.passOf s.words.gen := by
    have hle := hd.pass_le
    rw [hdue] at hle
    rcases hp with hp | ⟨-, hp⟩ <;> omega
  rw [hthr, Stripe.threshold_lt_iff]
  rcases Nat.lt_or_ge (p + 1) (st.passOf s.words.gen) with h | h
  · exact .inl h
  · refine .inr ⟨by omega, ?_⟩
    by_cases hretain : st.retain = true
    · have hrun := hslot.runway hretain
      exact Stripe.chunkOf_lt_of_lt_frontier hd.start_ge hstart (by omega)
    · have hflush : st.retain = false := by simpa using hretain
      have hfront := hlog.flushed hflush (by rw [hdue]; omega)
      rw [hdue] at hfront
      rw [hfront]
      exact st.chunkOf_lt _

end CycloneCache.Ref

import CycloneCache.Proofs.FillLog

namespace CycloneCache.Ref.Fills

open Function

variable {P : Type} {s₀ s s' : State P} {p q : P} {t u : Slot} {l : Link}

def Made (s : State P) (l : Link) : Prop := l.offset = 0 ∨ ∃ t ∈ s.commits, t.Names l

theorem Made.mono (h : Made s l) (hcommits : s.commits ⊆ s'.commits) : Made s' l :=
  h.imp_right fun ⟨t, ht, hnames⟩ => ⟨t, hcommits ht, hnames⟩

structure MemInv (s₀ s : State P) : Prop where
  retained {o : Nat} : s.frontier ≤ o → s.mem o = s₀.mem o
  writer_le {o : Nat} {d : Doc} : s.mem o = some d → d.writer ≤ s.gen
  unfilled {p : P} {ph : Phase} {t : Slot} {o : Nat} {d : Doc} : s.pc p = .writing ph t →
    ph.laid = false → s.mem o = some d → d.writer ≠ t.acq
  bound {t : Slot} {o : Nat} {d d' : Doc} : Laid s t → (o, d) ∈ t.docs → s.mem o = some d' →
    d'.fillSerial = serialOf t.acq → d'.writer = t.acq
  kept {t : Slot} {o : Nat} {d' : Doc} : Laid s t → s.mem o = some d' → d'.writer = t.acq →
    (∃ d, (o, d) ∈ t.docs ∧ d.toPiece = d'.toPiece) ∧
      (Made s d'.nextAlternate ∨ t.Names d'.nextAlternate)

def Splice.Ok (s : State P) (sp : Splice) : Prop := Made s sp.newNext ∧ sp.offset < s.frontier

def PcOk (s : State P) : Pc → Prop
  | .planned below _ => Made s below
  | .writing _ t => Made s t.below
  | .committed t => t ∈ s.commits
  | .splicing sp | .spliceHeld _ sp | .spliceChecked _ sp => sp.Ok s
  | .idle | .touching _ => True

structure RefInv (s₀ s : State P) : Prop where
  entries {e : Entry} : e ∈ s.dir →
    e.current = false ∧ e ∈ s₀.dir ∨ e.current = true ∧ ∃ t ∈ s.commits, t.Names e.toLink
  pcs (p : P) : PcOk s (s.pc p)

structure FillInv (s₀ s : State P) : Prop where
  log : LogInv s₀ s
  docs : MemInv s₀ s
  refs : RefInv s₀ s

variable {key : CacheKey} {f : Found} {pc : Pc} {a : Act P}

theorem of_look {current : Bool} {d : Doc} (h : s.look key current l = some d) :
    s.admits current l.offset = true ∧ s.mem l.offset = some d ∧ d.key = key ∧
      d.fillSerial = l.serial := by
  unfold State.look at h
  split at h
  · next hadmits =>
    obtain ⟨hmem, hbinds⟩ := Option.filter_eq_some_iff.mp h
    simp only [Bool.and_eq_true, beq_iff_eq] at hbinds
    exact ⟨hadmits, hmem, hbinds⟩
  · cases h

structure Served (s : State P) (l : Link) (d : Doc) : Prop where
  behind : l.offset < s.cursor
  serial : d.fillSerial = l.serial
  writer : d.writer = l.target
  written : ∃ t ∈ s.commits, t.Names l ∧ ∃ d₀, (l.offset, d₀) ∈ t.docs ∧ d₀.toPiece = d.toPiece

section

variable (h : FillInv s₀ s)
include h

theorem FillInv.look (ht : t ∈ s.commits) (hl : t.Names l) {d : Doc}
    (hlook : s.look key true l = some d) : Served s l d ∧ Made s d.nextAlternate := by
  obtain ⟨hadmits, hmem, _, hserial⟩ := of_look hlook
  obtain ⟨⟨d₀, hd₀⟩, hls, hlt⟩ := hl
  have hwriter : d.writer = t.acq := h.docs.bound (.inl ht) hd₀ hmem (hserial.trans hls)
  obtain ⟨hwritten, hnext⟩ := h.docs.kept (.inl ht) hmem hwriter
  have hbehind : l.offset < s.cursor := by simpa [State.admits] using hadmits
  refine ⟨⟨hbehind, hserial, hwriter.trans hlt.symm, t, ht, ⟨⟨d₀, hd₀⟩, hls, hlt⟩, hwritten⟩, ?_⟩
  exact hnext.elim id fun hown => .inr ⟨t, ht, hown⟩

theorem FillInv.follow {hops : Nat} (ht : t ∈ s.commits) (hl : t.Names l)
    (hf : s.follow key true hops l = some f) : f.current = true ∧ Served s f.link f.doc := by
  induction hops generalizing l t with
  | zero =>
    obtain ⟨d, hlook, rfl⟩ := Option.map_eq_some_iff.mp hf
    exact ⟨rfl, (h.look ht hl hlook).1⟩
  | succ hops ih =>
    obtain ⟨d, hlook, hrest⟩ := Option.bind_eq_some_iff.mp hf
    split at hrest
    · cases hrest
    · next hgoes =>
      rcases (h.look ht hl hlook).2 with hzero | ⟨u, hu, hnames⟩
      · exact absurd (.inl hzero) hgoes
      · exact ih hu hnames hrest

theorem FillInv.follow_retained {hops : Nat} (hf : s.follow key false hops l = some f) :
    s₀.follow key false hops l = some f ∧ f.current = false ∧
      s₀.mem f.link.offset = some f.doc := by
  have hlook : ∀ {l : Link} {d : Doc}, s.look key false l = some d →
      s₀.look key false l = some d ∧ s₀.mem l.offset = some d := by
    intro l d hlook
    obtain ⟨hadmits, hmem, hkey, hserial⟩ := of_look hlook
    have hahead : s.frontier ≤ l.offset := by simpa [State.admits] using hadmits
    have hold : s₀.mem l.offset = some d := (h.docs.retained hahead).symm.trans hmem
    have hadmits₀ : s₀.admits false l.offset = true := by
      simpa [State.admits] using le_trans h.log.frontier_le hahead
    refine ⟨?_, hold⟩
    rw [State.look, if_pos hadmits₀, hold]
    simp [Option.filter, hkey, hserial]
  induction hops generalizing l with
  | zero =>
    obtain ⟨d, hd, rfl⟩ := Option.map_eq_some_iff.mp hf
    refine ⟨?_, rfl, (hlook hd).2⟩
    simp only [State.follow, (hlook hd).1, Option.map_some]
  | succ hops ih =>
    obtain ⟨d, hd, hrest⟩ := Option.bind_eq_some_iff.mp hf
    split at hrest
    · cases hrest
    · next hgoes =>
      simp only [State.follow, (hlook hd).1, Option.bind_some, if_neg hgoes]
      exact ih hrest

theorem FillInv.read {path : Nat × Nat} (hf : s.read key path = some f) :
    f.current = true ∧ Served s f.link f.doc ∨
      f.current = false ∧ s₀.mem f.link.offset = some f.doc ∧
        ∃ path₀, s₀.read key path₀ = some f := by
  obtain ⟨e, he, hfollow⟩ := Option.bind_eq_some_iff.mp hf
  rcases h.refs.entries (List.mem_of_getElem? he) with ⟨hold, hmem⟩ | ⟨hcur, t, ht, hnames⟩
  · rw [hold] at hfollow
    obtain ⟨hfollow₀, hcurrent, hdoc⟩ := h.follow_retained hfollow
    obtain ⟨i, hi⟩ := List.getElem?_of_mem hmem
    refine .inr ⟨hcurrent, hdoc, (i, path.2), ?_⟩
    simp only [State.read, hi, Option.bind_some, hold, hfollow₀]
  · rw [hcur] at hfollow
    exact .inl (h.follow ht hnames hfollow)

theorem FillInv.linkFor (key : CacheKey) (path : Option (Nat × Nat)) :
    Made s (s.linkFor key path) := by
  unfold State.linkFor
  split
  · next f hf =>
    obtain ⟨path, _, hread⟩ := Option.bind_eq_some_iff.mp hf
    split
    · next hcurrent =>
      rcases h.read hread with ⟨_, hserved⟩ | ⟨hold, _⟩
      · obtain ⟨t, ht, ⟨hdoc, hserial, htarget⟩, _⟩ := hserved.written
        exact .inr ⟨t, ht, hdoc, hserved.serial.trans hserial, hserved.writer.trans htarget⟩
      · rw [hcurrent] at hold
        cases hold
    · exact .inl rfl
  · exact .inl rfl

end

variable [DecidableEq P]

structure Grown (s s' : State P) : Prop where
  gen : s.gen ≤ s'.gen
  frontier : s.frontier ≤ s'.frontier
  commits : s.commits ⊆ s'.commits

theorem Move.grown (h : Move s a s') : Grown s s' := by
  cases h with
  | commit _ _ => exact ⟨le_rfl, le_rfl, List.subset_cons_self ..⟩
  | take | recover => exact ⟨Nat.le_succ _, le_rfl, List.Subset.refl _⟩
  | advance => exact ⟨le_rfl, Nat.le_max_left .., List.Subset.refl _⟩
  | _ => exact ⟨le_rfl, le_rfl, List.Subset.refl _⟩

omit [DecidableEq P] in
theorem MemInv.frame (h : MemInv s₀ s) (hmem : s'.mem = s.mem) (hgrown : Grown s s')
    (hlaid : ∀ t, Laid s' t → Laid s t)
    (hpc : ∀ q ph t, s'.pc q = .writing ph t → ph.laid = false →
      (∃ ph' t', s.pc q = .writing ph' t' ∧ ph'.laid = false ∧ t'.acq = t.acq) ∨ s.gen < t.acq) :
    MemInv s₀ s' where
  retained ho := by
    rw [hmem]
    exact h.retained (le_trans hgrown.frontier ho)
  writer_le hd := by
    rw [hmem] at hd
    exact le_trans (h.writer_le hd) hgrown.gen
  unfilled hq hph hd := by
    rw [hmem] at hd
    rcases hpc _ _ _ hq hph with ⟨_, _, hq', hph', hacq⟩ | hlt
    · rw [← hacq]
      exact h.unfilled hq' hph' hd
    · have := h.writer_le hd
      omega
  bound ht hd hd' := by
    rw [hmem] at hd'
    exact h.bound (hlaid _ ht) hd hd'
  kept ht hd' hwriter := by
    rw [hmem] at hd'
    obtain ⟨hdoc, hnext⟩ := h.kept (hlaid _ ht) hd' hwriter
    exact ⟨hdoc, hnext.imp_left fun hmade => hmade.mono hgrown.commits⟩

section

variable (h : MemInv s₀ s)
include h

theorem MemInv.goto (hmem : s'.mem = s.mem) (hgrown : Grown s s') (hpcs : s'.pc = update s.pc p pc)
    (hnew : ∀ t ∈ s'.commits, Laid s t)
    (hlaid : ∀ ph u, pc = .writing ph u → ph.laid = true → Laid s u)
    (hpc : ∀ ph u, pc = .writing ph u → ph.laid = false →
      (∃ ph' t', s.pc p = .writing ph' t' ∧ ph'.laid = false ∧ t'.acq = u.acq) ∨ s.gen < u.acq) :
    MemInv s₀ s' := by
  refine h.frame hmem hgrown ?_ ?_
  · rintro t (ht | ⟨q, ph, hq, hph⟩)
    · exact hnew t ht
    · rw [hpcs, update_apply] at hq
      split at hq
      · exact hlaid ph t hq hph
      · exact .inr ⟨q, ph, hq, hph⟩
  · intro q ph t hq hph
    rw [hpcs, update_apply] at hq
    split at hq
    · next heq =>
      rw [heq]
      exact hpc ph t hq hph
    · exact .inl ⟨ph, t, hq, hph, rfl⟩

theorem MemInv.leave (hmem : s'.mem = s.mem) (hgrown : Grown s s') (hpcs : s'.pc = update s.pc p pc)
    (hnew : ∀ t ∈ s'.commits, Laid s t) (hpc : pc.pending = none) : MemInv s₀ s' := by
  have hnot : ∀ ph u, pc ≠ .writing ph u := by
    rintro ph u rfl
    cases hpc
  exact h.goto hmem hgrown hpcs hnew (fun ph u heq => absurd heq (hnot ph u))
    fun ph u heq => absurd heq (hnot ph u)

theorem MemInv.fill (hlog : LogInv s₀ s) (hp : s.pc p = .writing .reserved t)
    (hbelow : Made s t.below) :
    MemInv s₀ ({ s with mem := fill s.mem t }.goto p (.writing .filled t)) := by
  have hstop : t.stop ≤ s.frontier := hlog.stop_le hp rfl
  have hend := t.newWritePos_le_stop
  -- The slots in place are those there were, and this one.
  have hlaid : ∀ {u}, Laid ({ s with mem := Fills.fill s.mem t }.goto p (.writing .filled t)) u →
      Laid s u ∨ u = t := by
    rintro u (hu | ⟨q, ph, hq, hph⟩)
    · exact .inl (.inl hu)
    · rcases goto_writing_cases hq with ⟨_, _, rfl⟩ | ⟨_, hq'⟩
      · exact .inr rfl
      · exact .inl (.inr ⟨q, ph, hq', hph⟩)
  exact {
    retained := by
      intro o ho
      have hout : t.stop ≤ o := le_trans hstop ho
      refine Eq.trans ?_ (h.retained ho)
      exact if_pos hout
    writer_le := by
      intro o d hd
      rcases fill_cases hd with ⟨_, hold⟩ | ⟨_, hmem⟩
      · exact h.writer_le hold
      · rw [(Slot.mem_docs hmem).2.2.2.1]
        exact (hlog.acq hp).2.1
    unfilled := by
      intro q ph u o d hq hph hd
      rcases goto_writing_cases hq with ⟨_, rfl, _⟩ | ⟨hne, hq'⟩
      · cases hph
      · rcases fill_cases hd with ⟨_, hold⟩ | ⟨_, hmem⟩
        · exact h.unfilled hq' hph hold
        · rw [(Slot.mem_docs hmem).2.2.2.1]
          exact fun heq => hne (hlog.acq_inj hq' hp heq.symm)
    bound := by
      intro u o d d' hu hd hd' hserial
      rcases fill_cases hd' with ⟨hout, hold⟩ | ⟨ho, hmem⟩
      · rcases hlaid hu with hu | rfl
        · exact h.bound hu hd hold hserial
        · have hrange := Slot.mem_docs hd
          omega
      · obtain ⟨_, _, hserial', hwriter, _⟩ := Slot.mem_docs hmem
        rw [hwriter]
        rcases hlaid hu with hu | rfl
        · exact hlog.overwrites hp rfl hu hd ho (hserial'.symm.trans hserial)
        · rfl
    kept := by
      intro u o d' hu hd' hwriter
      rcases fill_cases hd' with ⟨_, hold⟩ | ⟨_, hmem⟩
      · rcases hlaid hu with hu | rfl
        · exact h.kept hu hold hwriter
        · exact absurd hwriter (h.unfilled hp rfl hold)
      · obtain ⟨_, _, _, hwriter', hnext⟩ := Slot.mem_docs hmem
        have hacq : t.acq = u.acq := hwriter'.symm.trans hwriter
        have hut : u = t := by
          rcases hu with hcommit | ⟨q, ph, hq, _⟩
          · exact absurd hacq.symm (hlog.commit_open hcommit hp)
          · rcases goto_writing_cases hq with ⟨_, _, heq⟩ | ⟨hne, hq'⟩
            · exact heq
            · exact absurd (hlog.acq_inj hq' hp hacq.symm) hne
        subst hut
        refine ⟨⟨d', hmem, rfl⟩, hnext.imp_left ?_⟩
        intro heq
        rw [heq]
        exact hbelow }

theorem MemInv.store {sp : Splice} {owner : Option P} (hsp : sp.Ok s) :
    MemInv s₀ ({ s with mem := sp.store s.mem, owner := owner }.goto p .idle) := by
  have hpc : ∀ {q ph t}, (State.goto { s with mem := sp.store s.mem, owner := owner } p .idle).pc q =
      .writing ph t → s.pc q = .writing ph t := fun hq => (goto_writing rfl hq).2
  have hlaid : ∀ {t}, Laid ({ s with mem := sp.store s.mem, owner := owner }.goto p .idle) t →
      Laid s t := by
    rintro t (ht | ⟨q, ph, hq, hph⟩)
    · exact .inl ht
    · exact .inr ⟨q, ph, hpc hq, hph⟩
  exact {
    retained := by
      intro o ho
      have hne : o ≠ sp.offset := by
        have := hsp.2
        have : s.frontier ≤ o := ho
        omega
      exact (update_of_ne hne ..).trans (h.retained ho)
    writer_le := by
      intro o d hd
      obtain ⟨d₀, hd₀, _, _, hwriter, _⟩ := store_cases hd
      rw [hwriter]
      exact h.writer_le hd₀
    unfilled := by
      intro q ph t o d hq hph hd
      obtain ⟨d₀, hd₀, _, _, hwriter, _⟩ := store_cases hd
      rw [hwriter]
      exact h.unfilled (hpc hq) hph hd₀
    bound := by
      intro t o d d' ht hd hd' hserial
      obtain ⟨d₀, hd₀, _, hserial₀, hwriter, _⟩ := store_cases hd'
      rw [hwriter]
      exact h.bound (hlaid ht) hd hd₀ (hserial₀.symm.trans hserial)
    kept := by
      intro t o d' ht hd' hwriter
      obtain ⟨d₀, hd₀, hpiece, _, hwriter₀, hnext⟩ := store_cases hd'
      obtain ⟨⟨d, hd, heq⟩, hnext₀⟩ := h.kept (hlaid ht) hd₀ (hwriter₀.symm.trans hwriter)
      refine ⟨⟨d, hd, heq.trans hpiece.symm⟩, ?_⟩
      rcases hnext with hsame | hspliced
      · rw [hsame]
        exact hnext₀
      · rw [hspliced]
        exact .inl hsp.1 }

theorem MemInv.step (hlog : LogInv s₀ s) (hpcs : ∀ p, PcOk s (s.pc p)) (hmove : Move s a s') :
    MemInv s₀ s' := by
  have hcommits : ∀ t ∈ s.commits, Laid s t := fun t ht => .inl ht
  have hgrown := hmove.grown
  cases hmove with
  | turn _ hnew =>
    exact h.leave rfl hgrown rfl hcommits hnew.pending
  | take _ _ hnew =>
    refine h.goto rfl hgrown rfl hcommits ?_ ?_
    · rintro ph u rfl hph
      cases hnew
      cases hph
    · rintro ph u rfl _
      cases hnew
      exact .inr (Nat.lt_succ_self _)
  | @gate _ p t hpc | @reserve _ p t fillEnd hpc hroom =>
    refine h.goto rfl hgrown rfl hcommits ?_ ?_
    · rintro ph u heq hph
      cases heq
      cases hph
    · rintro ph u heq _
      cases heq
      exact .inl ⟨_, t, hpc, rfl, rfl⟩
  | @fill _ p t hpc =>
    have hbelow := hpcs p
    rw [hpc] at hbelow
    exact h.fill hlog hpc hbelow
  | @validate _ p t hpc hlock =>
    refine h.goto rfl hgrown rfl hcommits ?_ ?_
    · rintro ph u heq _
      cases heq
      exact .inr ⟨p, _, hpc, rfl⟩
    · rintro ph u heq hph
      cases heq
      cases hph
  | @commit _ p t owner hpc howner =>
    refine h.leave rfl hgrown rfl ?_ rfl
    intro u hu
    rcases List.mem_cons.mp hu with rfl | hu'
    · exact .inr ⟨p, _, hpc, rfl⟩
    · exact .inl hu'
  | publish _ => exact h.leave rfl hgrown rfl hcommits rfl
  | @store _ p acq sp owner hpc howner =>
    have hsp := hpcs p
    rw [hpc] at hsp
    exact h.store hsp
  | recover | advance | drop =>
    exact h.frame rfl hgrown (fun _ => id) fun q ph t hq hph => .inl ⟨ph, t, hq, hph, rfl⟩

end

omit [DecidableEq P] in
theorem PcOk.mono (h : PcOk s pc) (hgrown : Grown s s') : PcOk s' pc := by
  have hsplice : ∀ {sp : Splice}, sp.Ok s → sp.Ok s' := fun hsp =>
    ⟨hsp.1.mono hgrown.commits, lt_of_lt_of_le hsp.2 hgrown.frontier⟩
  cases pc with
  | planned below pieces | writing ph t => exact Made.mono h hgrown.commits
  | committed t => exact hgrown.commits h
  | splicing sp | spliceHeld acq sp | spliceChecked acq sp => exact hsplice h
  | idle => trivial
  | touching acq => trivial

omit [DecidableEq P] in
theorem RefInv.frame (h : RefInv s₀ s) (hgrown : Grown s s')
    (hdir : ∀ e ∈ s'.dir, e ∈ s.dir ∨ e.current = true ∧ ∃ t ∈ s'.commits, t.Names e.toLink)
    (hpcs : ∀ q, s'.pc q = s.pc q ∨ PcOk s' (s'.pc q)) : RefInv s₀ s' where
  entries he := by
    rcases hdir _ he with hold | hnew
    · exact (h.entries hold).imp_right fun ⟨hcur, t, ht, hnames⟩ =>
        ⟨hcur, t, hgrown.commits ht, hnames⟩
    · exact .inr hnew
  pcs q := by
    rcases hpcs q with hsame | hok
    · rw [hsame]
      exact (h.pcs q).mono hgrown
    · exact hok

theorem RefInv.goto (h : RefInv s₀ s) (hgrown : Grown s s') (hpcs : s'.pc = update s.pc p pc)
    (hdir : s'.dir = s.dir) (hpc : PcOk s' pc) : RefInv s₀ s' := by
  refine h.frame hgrown (fun e he => .inl (hdir ▸ he)) ?_
  intro q
  rw [hpcs, update_apply]
  split
  · exact .inr hpc
  · exact .inl rfl

omit [DecidableEq P] in
theorem FillInv.turn (h : FillInv s₀ s) (hnew : Turn s (s.pc p) pc) : PcOk s pc := by
  cases hnew with
  | idle => trivial
  | planned key link pieces => exact h.linkFor key link
  | @splicing key pred f succ hread hcurrent =>
    refine ⟨h.linkFor key succ, ?_⟩
    rcases h.read hread with ⟨_, hserved⟩ | ⟨hold, _⟩
    · exact lt_of_lt_of_le hserved.behind h.log.cursor_le
    · rw [hcurrent] at hold
      cases hold
  | checked hold =>
    have hsp := h.refs.pcs p
    rw [hold] at hsp
    exact hsp

omit [DecidableEq P] in
theorem RefInv.taken (h : RefInv s₀ s) {acq : Nat} (hnew : Taken acq (s.pc p) pc) : PcOk s pc := by
  have hp := h.pcs p
  cases hnew with
  | write hold | splice hold =>
    rw [hold] at hp
    exact hp
  | touch => trivial

theorem FillInv.refs_step (h : FillInv s₀ s) (hmove : Move s a s') : RefInv s₀ s' := by
  have hpcs := h.refs.pcs
  have hgrown := hmove.grown
  cases hmove with
  | turn _ hnew => exact h.refs.goto hgrown rfl rfl ((h.turn hnew).mono hgrown)
  | take _ _ hnew => exact h.refs.goto hgrown rfl rfl ((h.refs.taken hnew).mono hgrown)
  | @gate _ p t hpc | @fill _ p t hpc | @validate _ p t hpc _ | @reserve _ p t _ hpc _ =>
    have hbelow := hpcs p
    rw [hpc] at hbelow
    exact h.refs.goto hgrown rfl rfl (Made.mono hbelow hgrown.commits)
  | commit _ _ => exact h.refs.goto hgrown rfl rfl List.mem_cons_self
  | @publish _ p t hpc =>
    have ht := hpcs p
    rw [hpc] at ht
    refine h.refs.frame hgrown ?_ ?_
    · intro e he
      rcases List.mem_append.mp he with hnew | hold
      · obtain ⟨hcur, hnames⟩ := Slot.names_of_entry (Option.mem_toList.mp hnew)
        exact .inr ⟨hcur, t, ht, hnames⟩
      · exact .inl hold
    · intro q
      by_cases hq : q = p
      · subst hq
        rw [goto_self]
        exact .inr trivial
      · exact .inl (goto_of_ne hq)
  | store _ _ => exact h.refs.goto hgrown rfl rfl trivial
  | recover | advance =>
    exact h.refs.frame hgrown (fun e he => .inl he) fun q => .inl rfl
  | drop i =>
    exact h.refs.frame hgrown (fun e he => .inl (List.mem_of_mem_eraseIdx he)) fun q => .inl rfl

theorem FillInv.step (h : FillInv s₀ s) (hfew : FewBumps s a) (hwhole : CommitsWhole s a)
    (hstep : Fills.step s a = some s') : FillInv s₀ s' := by
  have hmove := step_move hstep
  exact ⟨h.log.step hfew hwhole hmove, h.docs.step h.log h.refs.pcs hmove, h.refs_step hmove⟩

end CycloneCache.Ref.Fills

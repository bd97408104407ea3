import CycloneCache.Proofs.FillMoves

namespace CycloneCache.Ref.Fills

variable {P : Type} {s₀ s s' : State P} {p q : P} {t u : Slot}

def Laid (s : State P) (t : Slot) : Prop :=
  t ∈ s.commits ∨ ∃ p ph, s.pc p = .writing ph t ∧ ph.laid = true

structure LogInv (s₀ s : State P) : Prop where
  gen_le : s₀.gen ≤ s.gen
  acq {p : P} {ph : Phase} {t : Slot} : s.pc p = .writing ph t →
    s₀.gen < t.acq ∧ t.acq ≤ s.gen ∧ s.gen < t.acq + 2 ^ 16
  acq_inj {p q : P} {ph ph' : Phase} {t t' : Slot} : s.pc p = .writing ph t →
    s.pc q = .writing ph' t' → t.acq = t'.acq → p = q
  commit_acq {t : Slot} : t ∈ s.commits → s₀.gen < t.acq ∧ t.acq ≤ s.gen
  commit_open {t t' : Slot} {p : P} {ph : Phase} : t ∈ s.commits →
    s.pc p = .writing ph t' → t.acq ≠ t'.acq
  validated {p : P} {t : Slot} : s.pc p = .writing .validated t → s.owner = some p ∧ s.gen = t.acq
  seat {p : P} {ph : Phase} {t : Slot} : s.pc p = .writing ph t → ph.seated = true →
    s.owner = some p → s.gen = t.acq → t.writeOffset = s.cursor
  behind {t : Slot} : t ∈ s.commits → t.newWritePos ≤ s.cursor
  after {t t' : Slot} {p : P} {ph : Phase} : t ∈ s.commits → s.pc p = .writing ph t' →
    ph.seated = true → t.acq < t'.acq → t.newWritePos ≤ t'.writeOffset
  cursor_le : s.cursor ≤ s.frontier
  stop_le {p : P} {ph : Phase} {t : Slot} : s.pc p = .writing ph t → ph.seated = true →
    t.stop ≤ s.frontier
  frontier_le : s₀.frontier ≤ s.frontier

def FewBumps (s : State P) (a : Act P) : Prop :=
  a.bumps s = true → ∀ p, ∀ g ∈ (s.pc p).pending, s.gen + 1 < g + 2 ^ 16

def Pc.storing : Pc → Bool
  | .writing .validated _ => true
  | _ => false

def CommitsWhole (s : State P) : Act P → Prop
  | .recover => ∀ p, (s.pc p).storing = false
  | _ => True

theorem LogInv.frame (h : LogInv s₀ s) (hcommits : s'.commits = s.commits)
    (hgen : s'.gen = s.gen) (hcursor : s'.cursor = s.cursor) (hfrontier : s.frontier ≤ s'.frontier)
    (howner : ∀ q, s'.owner = some q → s.owner = some q)
    (hpc : ∀ q ph t, s'.pc q = .writing ph t → ∃ ph' t', s.pc q = .writing ph' t' ∧
      t'.acq = t.acq ∧ (ph.seated = true → ph'.seated = true ∧ t' = t ∨
        t.writeOffset = s.cursor ∧ t.stop ≤ s'.frontier))
    (hvalid : ∀ q t, s'.pc q = .writing .validated t → s'.owner = some q ∧ s.gen = t.acq) :
    LogInv s₀ s' where
  gen_le := by
    rw [hgen]
    exact h.gen_le
  acq hp := by
    obtain ⟨_, _, hp', heq, _⟩ := hpc _ _ _ hp
    rw [hgen, ← heq]
    exact h.acq hp'
  acq_inj hp hq heq := by
    obtain ⟨_, _, hp', hpacq, _⟩ := hpc _ _ _ hp
    obtain ⟨_, _, hq', hqacq, _⟩ := hpc _ _ _ hq
    exact h.acq_inj hp' hq' (hpacq.trans (heq.trans hqacq.symm))
  commit_acq ht := by
    rw [hcommits] at ht
    rw [hgen]
    exact h.commit_acq ht
  commit_open ht hp := by
    obtain ⟨_, _, hp', heq, _⟩ := hpc _ _ _ hp
    rw [hcommits] at ht
    rw [← heq]
    exact h.commit_open ht hp'
  validated hp := by
    rw [hgen]
    exact hvalid _ _ hp
  seat hp hseated hown hg := by
    rw [hcursor]
    obtain ⟨_, _, hp', _, hseat⟩ := hpc _ _ _ hp
    rcases hseat hseated with ⟨hseated', rfl⟩ | ⟨hoffset, _⟩
    · exact h.seat hp' hseated' (howner _ hown) (hgen ▸ hg)
    · exact hoffset
  behind ht := by
    rw [hcommits] at ht
    rw [hcursor]
    exact h.behind ht
  after ht hp hseated hlt := by
    rw [hcommits] at ht
    obtain ⟨_, _, hp', _, hseat⟩ := hpc _ _ _ hp
    rcases hseat hseated with ⟨hseated', rfl⟩ | ⟨hoffset, _⟩
    · exact h.after ht hp' hseated' hlt
    · rw [hoffset]
      exact h.behind ht
  cursor_le := by
    rw [hcursor]
    exact le_trans h.cursor_le hfrontier
  stop_le hp hseated := by
    obtain ⟨_, _, hp', _, hseat⟩ := hpc _ _ _ hp
    rcases hseat hseated with ⟨hseated', rfl⟩ | ⟨_, hstop⟩
    · exact le_trans (h.stop_le hp' hseated') hfrontier
    · exact hstop
  frontier_le := le_trans h.frontier_le hfrontier

theorem LogInv.bump (h : LogInv s₀ s) (hcommits : s'.commits = s.commits)
    (hgen : s'.gen = s.gen + 1) (hcursor : s'.cursor = s.cursor)
    (hfrontier : s'.frontier = s.frontier)
    (hfew : ∀ q g, (s.pc q).pending = some g → s.gen + 1 < g + 2 ^ 16)
    (hvalid : ∀ q t, s.pc q ≠ .writing .validated t)
    (hpc : ∀ q ph t, s'.pc q = .writing ph t → s.pc q = .writing ph t ∧ s'.owner ≠ some q ∨
        ph = .acquired ∧ t.acq = s.gen + 1 ∧ s'.owner = some q) : LogInv s₀ s' where
  gen_le := by
    have := h.gen_le
    omega
  acq hp := by
    have := h.gen_le
    rcases hpc _ _ _ hp with ⟨hp', _⟩ | ⟨_, hacq, _⟩
    · obtain ⟨hnew, hle, _⟩ := h.acq hp'
      have := hfew _ _ (by rw [hp']; rfl)
      omega
    · omega
  acq_inj hp hq heq := by
    rcases hpc _ _ _ hp with ⟨hp', _⟩ | ⟨_, hpacq, hpown⟩ <;>
      rcases hpc _ _ _ hq with ⟨hq', _⟩ | ⟨_, hqacq, hqown⟩
    · exact h.acq_inj hp' hq' heq
    · have := h.acq hp'
      omega
    · have := h.acq hq'
      omega
    · exact Option.some.inj (hpown.symm.trans hqown)
  commit_acq ht := by
    rw [hcommits] at ht
    have := h.commit_acq ht
    omega
  commit_open ht hp := by
    rw [hcommits] at ht
    rcases hpc _ _ _ hp with ⟨hp', _⟩ | ⟨_, hacq, _⟩
    · exact h.commit_open ht hp'
    · have := h.commit_acq ht
      omega
  validated hp := by
    rcases hpc _ _ _ hp with ⟨hp', _⟩ | ⟨hph, _⟩
    · exact absurd hp' (hvalid _ _)
    · cases hph
  seat hp hseated hown _ := by
    rcases hpc _ _ _ hp with ⟨_, hnot⟩ | ⟨hph, _⟩
    · exact absurd hown hnot
    · rw [hph] at hseated
      cases hseated
  behind ht := by
    rw [hcommits] at ht
    rw [hcursor]
    exact h.behind ht
  after ht hp hseated := by
    rw [hcommits] at ht
    rcases hpc _ _ _ hp with ⟨hp', _⟩ | ⟨hph, _⟩
    · exact h.after ht hp' hseated
    · rw [hph] at hseated
      cases hseated
  cursor_le := by
    rw [hcursor, hfrontier]
    exact h.cursor_le
  stop_le hp hseated := by
    rw [hfrontier]
    rcases hpc _ _ _ hp with ⟨hp', _⟩ | ⟨hph, _⟩
    · exact h.stop_le hp' hseated
    · rw [hph] at hseated
      cases hseated
  frontier_le := by
    rw [hfrontier]
    exact h.frontier_le

theorem LogInv.overwrites (h : LogInv s₀ s) {ph : Phase} (hp : s.pc p = .writing ph t)
    (hseated : ph.seated = true) (hu : Laid s u) {o : Nat} {d : Doc} (hd : (o, d) ∈ u.docs)
    (ho : t.writeOffset ≤ o) (hserial : serialOf t.acq = serialOf u.acq) : t.acq = u.acq := by
  obtain ⟨_, htle, htlt⟩ := h.acq hp
  rcases hu with hcommit | ⟨q, ph', hq, _⟩
  · have hule := (h.commit_acq hcommit).2
    rcases Nat.lt_or_ge u.acq t.acq with hlt | hge
    · have hafter := h.after hcommit hp hseated hlt
      have hend := (Slot.mem_docs hd).2.1
      omega
    · exact serialOf_inj hge (by omega) hserial
  · obtain ⟨_, hule, hult⟩ := h.acq hq
    rcases Nat.le_total t.acq u.acq with hle | hle
    · exact serialOf_inj hle (by omega) hserial
    · exact (serialOf_inj hle (by omega) hserial.symm).symm

variable [DecidableEq P]

section

variable (h : LogInv s₀ s)
include h

theorem LogInv.reserve {fillEnd : Nat} (hp : s.pc p = .writing .gated t)
    (hu : u = { t with writeOffset := s.cursor, fillEnd := fillEnd }) (hroom : u.stop ≤ s.frontier) :
    LogInv s₀ (s.goto p (.writing .reserved u)) := by
  refine h.frame rfl rfl rfl le_rfl (fun q => id) ?_ ?_
  · intro q ph v hq
    rcases goto_writing_cases hq with ⟨rfl, _, rfl⟩ | ⟨_, hq'⟩
    · exact ⟨_, t, hp, by rw [hu], fun _ => .inr ⟨by rw [hu], hroom⟩⟩
    · exact ⟨ph, v, hq', rfl, fun hseated => .inl ⟨hseated, rfl⟩⟩
  · intro q v hq
    rcases goto_writing_cases hq with ⟨_, hph, _⟩ | ⟨_, hq'⟩
    · cases hph
    · exact h.validated hq'

theorem LogInv.commit {owner : Option P} (hp : s.pc p = .writing .validated t)
    (howner : Freed s p owner) :
    LogInv s₀ ({ s with cursor := t.newWritePos, commits := t :: s.commits,
                        owner := owner }.goto p (.committed t)) := by
  have hback : ∀ {q ph v},
      (State.goto { s with cursor := t.newWritePos, commits := t :: s.commits, owner := owner }
        p (.committed t)).pc q = .writing ph v →
      q ≠ p ∧ s.pc q = .writing ph v := fun hq => goto_writing rfl hq
  obtain ⟨hown, hgen⟩ := h.validated hp
  have hseat : t.writeOffset = s.cursor := h.seat hp rfl hown hgen
  have hgrows : s.cursor ≤ t.newWritePos := hseat ▸ t.writeOffset_le
  have hother : ∀ {q}, q ≠ p → s.owner ≠ some q := by
    intro q hne heq
    exact hne (Option.some.inj (heq.symm.trans hown))
  exact {
    gen_le := h.gen_le
    acq := fun hq => h.acq (hback hq).2
    acq_inj := fun hq hr => h.acq_inj (hback hq).2 (hback hr).2
    commit_acq := by
      intro v hv
      rcases List.mem_cons.mp hv with rfl | hv'
      · exact ⟨(h.acq hp).1, (h.acq hp).2.1⟩
      · exact h.commit_acq hv'
    commit_open := by
      intro v v' q ph hv hq heq
      obtain ⟨hne, hq'⟩ := hback hq
      rcases List.mem_cons.mp hv with rfl | hv'
      · exact hne (h.acq_inj hq' hp heq.symm)
      · exact h.commit_open hv' hq' heq
    validated := by
      intro q v hq
      obtain ⟨hne, hq'⟩ := hback hq
      exact absurd (h.validated hq').1 (hother hne)
    seat := by
      intro q ph v hq _ hown' _
      exact absurd (howner.of_some hown') (hother (hback hq).1)
    behind := by
      intro v hv
      rcases List.mem_cons.mp hv with rfl | hv'
      · exact le_rfl
      · exact le_trans (h.behind hv') hgrows
    after := by
      intro v v' q ph hv hq hseated hlt
      obtain ⟨_, hq'⟩ := hback hq
      rcases List.mem_cons.mp hv with rfl | hv'
      · have := (h.acq hq').2.1
        omega
      · exact h.after hv' hq' hseated hlt
    cursor_le := le_trans t.newWritePos_le_stop (h.stop_le hp rfl)
    stop_le := fun hq => h.stop_le (hback hq).2
    frontier_le := h.frontier_le }

theorem LogInv.leave {m : Memory} {dir : List Entry} {owner : Option P} {pc : Pc}
    (howner : Freed s p owner) (hpc : pc.pending = none) :
    LogInv s₀ ({ s with mem := m, dir := dir, owner := owner }.goto p pc) := by
  refine h.frame rfl rfl rfl le_rfl (fun q => howner.of_some) ?_ ?_
  · intro q ph t hq
    exact ⟨ph, t, (goto_writing hpc hq).2, rfl, fun hseated => .inl ⟨hseated, rfl⟩⟩
  · intro q t hq
    obtain ⟨hne, hq'⟩ := goto_writing hpc hq
    obtain ⟨hown, hgen⟩ := h.validated hq'
    exact ⟨howner.keeps hown hne, hgen⟩

theorem LogInv.advance {m : Memory} {ph ph' : Phase} (hp : s.pc p = .writing ph t)
    (hseated : ph'.seated = true → ph.seated = true)
    (hvalid : ph' = .validated → s.owner = some p ∧ s.gen = t.acq) :
    LogInv s₀ ({ s with mem := m }.goto p (.writing ph' t)) := by
  refine h.frame rfl rfl rfl le_rfl (fun q => id) ?_ ?_
  · intro q ph₁ u hq
    rcases goto_writing_cases hq with ⟨rfl, rfl, rfl⟩ | ⟨_, hq'⟩
    · exact ⟨ph, _, hp, rfl, fun h => .inl ⟨hseated h, rfl⟩⟩
    · exact ⟨ph₁, u, hq', rfl, fun h => .inl ⟨h, rfl⟩⟩
  · intro q u hq
    rcases goto_writing_cases hq with ⟨rfl, hph, rfl⟩ | ⟨_, hq'⟩
    · exact hvalid hph.symm
    · exact h.validated hq'

theorem LogInv.revalidates {ph : Phase} (hp : s.pc p = .writing ph t)
    (hlock : s.revalidates p t.acq = true) : s.owner = some p ∧ s.gen = t.acq := by
  simp only [State.revalidates, Bool.and_eq_true, beq_iff_eq] at hlock
  obtain ⟨_, hle, hlt⟩ := h.acq hp
  exact ⟨hlock.2, (serialOf_inj hle hlt hlock.1.symm).symm⟩

theorem LogInv.take {pc : Pc} (howner : s.owner = none)
    (hfew : ∀ q, ∀ g ∈ (s.pc q).pending, s.gen + 1 < g + 2 ^ 16)
    (hnew : Taken (s.gen + 1) (s.pc p) pc) :
    LogInv s₀ ({ s with gen := s.gen + 1, owner := some p }.goto p pc) := by
  have hother : ∀ {q}, q ≠ p → some p ≠ some q := fun hne heq => hne (Option.some.inj heq).symm
  refine h.bump rfl rfl rfl rfl hfew ?_ ?_
  · intro q t hq
    have hown := (h.validated hq).1
    rw [howner] at hown
    cases hown
  · intro q ph t hq
    cases hnew with
    | write _ =>
      rcases goto_writing_cases hq with ⟨rfl, rfl, rfl⟩ | ⟨hne, hq'⟩
      · exact .inr ⟨rfl, rfl, rfl⟩
      · exact .inl ⟨hq', hother hne⟩
    | splice _ | touch => exact .inl ⟨(goto_writing rfl hq).2, hother (goto_writing rfl hq).1⟩

theorem LogInv.step {a : Act P} (hfew : FewBumps s a) (hwhole : CommitsWhole s a)
    (hmove : Move s a s') : LogInv s₀ s' := by
  cases hmove with
  | turn howner hnew => exact h.leave howner hnew.pending
  | take hbumps howner hnew => exact h.take howner (hfew hbumps) hnew
  | gate hpc => exact h.advance hpc nofun nofun
  | reserve fillEnd hpc hroom => exact h.reserve hpc rfl hroom
  | fill hpc => exact h.advance hpc (fun _ => rfl) nofun
  | validate hpc hlock =>
    exact h.advance hpc (fun _ => rfl) fun _ => h.revalidates hpc hlock
  | commit hpc howner => exact h.commit hpc howner
  | publish _ => exact h.leave (.inl rfl) rfl
  | store _ howner => exact h.leave howner rfl
  | recover howner =>
    refine h.bump rfl rfl rfl rfl (hfew rfl) ?_ fun q ph t hq => .inl ⟨hq, nofun⟩
    intro q t hq
    have hstoring := hwhole q
    rw [hq] at hstoring
    cases hstoring
  | advance frontier =>
    exact h.frame rfl rfl rfl (Nat.le_max_left ..) (fun q => id)
      (fun q ph t hq => ⟨ph, t, hq, rfl, fun hseated => .inl ⟨hseated, rfl⟩⟩) fun q t => h.validated
  | drop i =>
    exact h.frame rfl rfl rfl le_rfl (fun q => id)
      (fun q ph t hq => ⟨ph, t, hq, rfl, fun hseated => .inl ⟨hseated, rfl⟩⟩) fun q t => h.validated

end

end CycloneCache.Ref.Fills

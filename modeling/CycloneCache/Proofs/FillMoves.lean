import CycloneCache.Ref.LateFills

namespace CycloneCache.Ref.Fills

open Lib Function

theorem serialOf_inj {a b : Nat} (hab : a ≤ b) (hb : b < a + 2 ^ 16)
    (h : serialOf a = serialOf b) : a = b := by
  unfold serialOf at h
  omega

def Slot.Names (t : Slot) (l : Link) : Prop :=
  (∃ d, (l.offset, d) ∈ t.docs) ∧ l.serial = serialOf t.acq ∧ l.target = t.acq

theorem mem_layout {acq start : Nat} {below : Link} {pieces : List Piece} {o : Nat} {d : Doc}
    (h : (o, d) ∈ layout acq start below pieces) :
    start ≤ o ∧ o < start + (pieces.map Piece.len).sum ∧ d.fillSerial = serialOf acq ∧
      d.writer = acq ∧
      (d.nextAlternate = below ∨ ∃ o' d', (o', d') ∈ layout acq start below pieces ∧
          d.nextAlternate = ⟨o', serialOf acq, acq⟩) := by
  induction pieces generalizing start below with
  | nil => cases h
  | cons piece pieces ih =>
    have hlen := piece.len_pos
    simp only [List.map_cons, List.sum_cons]
    rcases List.mem_cons.mp h with heq | hmem
    · obtain ⟨rfl, rfl⟩ := Prod.mk.inj heq
      exact ⟨le_rfl, by omega, rfl, rfl, .inl rfl⟩
    · obtain ⟨hlow, hhigh, hserial, hwriter, hnext⟩ := ih hmem
      refine ⟨by omega, by omega, hserial, hwriter, .inr ?_⟩
      rcases hnext with hbelow | ⟨o', d', hmem', hnext⟩
      · exact ⟨_, _, List.mem_cons_self, hbelow⟩
      · exact ⟨o', d', List.mem_cons_of_mem _ hmem', hnext⟩

namespace Slot

variable {t : Slot} {o : Nat} {d : Doc}

theorem newWritePos_le_stop (t : Slot) : t.newWritePos ≤ t.stop := Nat.le_max_left ..

theorem writeOffset_le (t : Slot) : t.writeOffset ≤ t.newWritePos := Nat.le_add_right ..

theorem mem_docs (h : (o, d) ∈ t.docs) :
    t.writeOffset ≤ o ∧ o < t.newWritePos ∧ d.fillSerial = serialOf t.acq ∧ d.writer = t.acq ∧
      (d.nextAlternate = t.below ∨ t.Names d.nextAlternate) := by
  obtain ⟨hlow, hhigh, hserial, hwriter, hnext⟩ := mem_layout h
  refine ⟨hlow, hhigh, hserial, hwriter, hnext.imp_right ?_⟩
  rintro ⟨o', d', hmem, heq⟩
  rw [heq]
  exact ⟨⟨d', hmem⟩, rfl, rfl⟩

theorem names_of_entry {e : Entry} (h : t.entry = some e) :
    e.current = true ∧ t.Names e.toLink := by
  obtain ⟨d, hlast, rfl⟩ := Option.map_eq_some_iff.mp h
  have hmem : (d.1, d.2) ∈ t.docs := List.mem_of_getLast? hlast
  obtain ⟨_, _, hserial, hwriter, _⟩ := mem_docs hmem
  exact ⟨rfl, ⟨d.2, hmem⟩, hserial, hwriter⟩

end Slot

theorem fill_cases {m : Memory} {t : Slot} {o : Nat} {d : Doc} (h : fill m t o = some d) :
    (o < t.writeOffset ∨ t.stop ≤ o) ∧ m o = some d ∨ t.writeOffset ≤ o ∧ (o, d) ∈ t.docs := by
  unfold fill at h
  split at h
  · next hstop => exact .inl ⟨.inr hstop, h⟩
  · split at h
    · next hstart =>
      obtain ⟨od, hfind, rfl⟩ := Option.map_eq_some_iff.mp h
      have ho : od.1 = o := by simpa using List.find?_some hfind
      subst ho
      exact .inr ⟨hstart, List.mem_of_find?_eq_some hfind⟩
    · next hstart => exact .inl ⟨.inl (by omega), (Option.filter_eq_some_iff.mp h).1⟩

theorem store_cases {m : Memory} {sp : Splice} {o : Nat} {d : Doc} (h : sp.store m o = some d) :
    ∃ d₀, m o = some d₀ ∧ d.toPiece = d₀.toPiece ∧ d.fillSerial = d₀.fillSerial ∧
      d.writer = d₀.writer ∧
      (d.nextAlternate = d₀.nextAlternate ∨ d.nextAlternate = sp.newNext) := by
  unfold Splice.store at h
  by_cases ho : o = sp.offset
  · subst ho
    rw [update_self] at h
    obtain ⟨d₀, hd₀, rfl⟩ := Option.map_eq_some_iff.mp h
    exact ⟨d₀, hd₀, rfl, rfl, rfl, .inr rfl⟩
  · rw [update_of_ne ho] at h
    exact ⟨d, h, rfl, rfl, rfl, .inl rfl⟩

variable {P : Type} {s s' : State P} {p q : P}

def Freed (s : State P) (p : P) (owner : Option P) : Prop :=
  owner = s.owner ∨ s.owner = some p ∧ owner = none

theorem Freed.of_some {owner : Option P} (h : Freed s p owner) (hq : owner = some q) :
    s.owner = some q := by
  rcases h with rfl | ⟨_, rfl⟩
  · exact hq
  · cases hq

theorem Freed.keeps {owner : Option P} (h : Freed s p owner) (hq : s.owner = some q)
    (hne : q ≠ p) : owner = some q := by
  rcases h with rfl | ⟨hp, _⟩
  · exact hq
  · exact absurd (Option.some.inj (hq.symm.trans hp)) hne

inductive Turn (s : State P) (old : Pc) : Pc → Prop where
  | idle : Turn s old .idle
  | planned (key : CacheKey) (link : Option (Nat × Nat)) (pieces : List Piece) :
      Turn s old (.planned (s.linkFor key link) pieces)
  | splicing {key : CacheKey} {pred : Nat × Nat} {f : Found} (succ : Option (Nat × Nat))
      (hread : s.read key pred = some f) (hcurrent : f.current = true) :
      Turn s old (.splicing ⟨f.link.offset, key, f.doc.alternateId, s.linkFor key succ⟩)
  | checked {acq : Nat} {sp : Splice} (hold : old = .spliceHeld acq sp) :
      Turn s old (.spliceChecked acq sp)

theorem Turn.pending {old pc : Pc} (h : Turn s old pc) : pc.pending = none := by
  cases h <;> rfl

theorem planned_turn (s : State P) (old : Pc) (head : Piece) (link : Option (Nat × Nat))
    (carry : List (Nat × Nat)) : Turn s old (s.planned head link carry) := by
  unfold State.planned
  split
  · exact .planned ..
  · exact .planned head.key none _

inductive Taken (acq : Nat) (old : Pc) : Pc → Prop where
  | write {below : Link} {pieces : List Piece} (hold : old = .planned below pieces) :
      Taken acq old (.writing .acquired ⟨acq, 0, 0, below, pieces⟩)
  | splice {sp : Splice} (hold : old = .splicing sp) : Taken acq old (.spliceHeld acq sp)
  | touch : Taken acq old (.touching acq)

variable [DecidableEq P]

theorem goto_self (s : State P) (p : P) (pc : Pc) : (s.goto p pc).pc p = pc := update_self ..

theorem goto_of_ne {pc : Pc} (h : q ≠ p) : (s.goto p pc).pc q = s.pc q := update_of_ne h ..

theorem goto_writing {pc : Pc} {ph : Phase} {t : Slot} (hpc : pc.pending = none)
    (h : (s.goto p pc).pc q = .writing ph t) : q ≠ p ∧ s.pc q = .writing ph t := by
  by_cases hq : q = p
  · subst hq
    rw [goto_self] at h
    rw [h] at hpc
    cases hpc
  · exact ⟨hq, (goto_of_ne hq).symm.trans h⟩

theorem goto_writing_cases {ph ph₁ : Phase} {t t₁ : Slot}
    (h : (s.goto p (.writing ph₁ t₁)).pc q = .writing ph t) :
    (q = p ∧ ph = ph₁ ∧ t = t₁) ∨ q ≠ p ∧ s.pc q = .writing ph t := by
  by_cases hq : q = p
  · subst hq
    rw [goto_self] at h
    cases h
    exact .inl ⟨rfl, rfl, rfl⟩
  · exact .inr ⟨hq, (goto_of_ne hq).symm.trans h⟩

theorem release_eq (s : State P) (p : P) (acq : Nat) :
    ∃ owner, Freed s p owner ∧ s.release p acq = { s with owner := owner } := by
  unfold State.release
  split
  · next h =>
    simp only [State.revalidates, Bool.and_eq_true, beq_iff_eq] at h
    exact ⟨none, .inr ⟨h.2, rfl⟩, rfl⟩
  · exact ⟨s.owner, .inl rfl, rfl⟩

inductive Move (s : State P) : Act P → State P → Prop where
  | turn {a : Act P} {p : P} {pc : Pc} {owner : Option P} (howner : Freed s p owner)
      (hnew : Turn s (s.pc p) pc) : Move s a ({ s with owner := owner }.goto p pc)
  | take {a : Act P} {p : P} {pc : Pc} (hbumps : a.bumps s = true) (howner : s.owner = none)
      (hnew : Taken (s.gen + 1) (s.pc p) pc) :
      Move s a ({ s with gen := s.gen + 1, owner := some p }.goto p pc)
  | gate {a : Act P} {p : P} {t : Slot} (hpc : s.pc p = .writing .acquired t) :
      Move s a (s.goto p (.writing .gated t))
  | reserve {a : Act P} {p : P} {t : Slot} (fillEnd : Nat) (hpc : s.pc p = .writing .gated t)
      (hroom : ({ t with writeOffset := s.cursor, fillEnd := fillEnd } : Slot).stop ≤ s.frontier) :
      Move s a (s.goto p
        (.writing .reserved { t with writeOffset := s.cursor, fillEnd := fillEnd }))
  | fill {a : Act P} {p : P} {t : Slot} (hpc : s.pc p = .writing .reserved t) :
      Move s a ({ s with mem := fill s.mem t }.goto p (.writing .filled t))
  | validate {a : Act P} {p : P} {t : Slot} (hpc : s.pc p = .writing .filled t)
      (hlock : s.revalidates p t.acq = true) : Move s a (s.goto p (.writing .validated t))
  | commit {a : Act P} {p : P} {t : Slot} {owner : Option P}
      (hpc : s.pc p = .writing .validated t) (howner : Freed s p owner) :
      Move s a ({ s with cursor := t.newWritePos, commits := t :: s.commits,
                         owner := owner }.goto p (.committed t))
  | publish {a : Act P} {p : P} {t : Slot} (hpc : s.pc p = .committed t) :
      Move s a ({ s with dir := t.entry.toList ++ s.dir }.goto p .idle)
  | store {a : Act P} {p : P} {acq : Nat} {sp : Splice} {owner : Option P}
      (hpc : s.pc p = .spliceChecked acq sp) (howner : Freed s p owner) :
      Move s a ({ s with mem := sp.store s.mem, owner := owner }.goto p .idle)
  | recover {q : P} (howner : s.owner = some q) :
      Move s .recover { s with gen := s.gen + 1, owner := none }
  | advance {a : Act P} (frontier : Nat) : Move s a { s with frontier := max s.frontier frontier }
  | drop {a : Act P} (i : Nat) : Move s a { s with dir := s.dir.eraseIdx i }

theorem take_move {a : Act P} {pc : Nat → Pc} (hbumps : a.bumps s = true)
    (hnew : Taken (s.gen + 1) (s.pc p) (pc (s.gen + 1)))
    (h : s.take p pc = some s') : Move s a s' := by
  unfold State.take at h
  split at h <;> cases h
  next howner =>
  exact .take hbumps howner hnew

theorem release_move {a : Act P} (acq : Nat) : Move s a ((s.release p acq).goto p .idle) := by
  obtain ⟨owner, howner, heq⟩ := release_eq s p acq
  rw [heq]
  exact .turn howner .idle

theorem next_move (h : next s p = some s') : Move s (.next p) s' := by
  unfold next at h
  split at h
  · cases h
  · next hpc =>
    exact take_move (by simp [Act.bumps, hpc]) (.write hpc) h
  · next hpc =>
    split at h <;> cases h
    · exact .gate hpc
    · exact .turn (.inl rfl) .idle
  · cases h
  · next hpc =>
    cases h
    exact .fill hpc
  · next hpc =>
    split at h <;> cases h
    · next hlock => exact .validate hpc hlock
    · exact .turn (.inl rfl) .idle
  · next t hpc =>
    cases h
    obtain ⟨owner, howner, heq⟩ :=
      release_eq { s with cursor := t.newWritePos, commits := t :: s.commits } p t.acq
    rw [heq]
    exact .commit hpc howner
  · next hpc =>
    cases h
    exact .publish hpc
  · next hpc =>
    exact take_move (by simp [Act.bumps, hpc]) (.splice hpc) h
  · next acq _ hpc =>
    split at h <;> cases h
    · exact .turn (.inl rfl) (.checked hpc)
    · exact release_move acq
  · next acq sp hpc =>
    cases h
    obtain ⟨owner, howner, heq⟩ := release_eq { s with mem := sp.store s.mem } p acq
    rw [heq]
    exact .store hpc howner
  · next acq hpc =>
    cases h
    exact release_move acq

theorem step_move {a : Act P} (h : step s a = some s') : Move s a s' := by
  cases a with simp only [step] at h
  | plan p head link carry =>
    split at h <;> cases h
    exact .turn (.inl rfl) (planned_turn s _ head link carry)
  | splice p key pred succ =>
    split at h
    · next f _ hread =>
      split at h <;> cases h
      next hcurrent =>
      exact .turn (.inl rfl) (.splicing succ hread hcurrent)
    · cases h
  | touch p =>
    split at h
    · exact take_move rfl .touch h
    · cases h
  | next p => exact next_move h
  | reserve p fillEnd =>
    split at h
    · next hpc =>
      split at h <;> cases h
      next hroom =>
      exact .reserve fillEnd hpc hroom
    · cases h
  | giveUp p =>
    split at h <;> cases h
    · next t _ _ =>
      exact release_move t.acq
    · exact .turn (.inl rfl) .idle
    · exact .turn (.inl rfl) .idle
    · exact .turn (.inl rfl) .idle
  | recover =>
    split at h <;> cases h
    next howner =>
    exact .recover howner
  | advance frontier =>
    cases h
    exact .advance frontier
  | drop i =>
    cases h
    exact .drop i

end CycloneCache.Ref.Fills

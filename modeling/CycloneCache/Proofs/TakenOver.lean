import CycloneCache.Proofs.LateFills

namespace CycloneCache.Ref.Fills

open Lib Function

variable {P : Type} {s₀ s : State P} {p : P}

structure Settled (s : State P) : Prop where
  idle (p : P) : s.pc p = .idle
  commits : s.commits = []
  entries {e : Entry} : e ∈ s.dir → e.current = false
  writers {o : Nat} {d : Doc} : s.mem o = some d → d.writer ≤ s.gen
  room : s.cursor ≤ s.frontier
  faithful {key : CacheKey} {path : Nat × Nat} {f : Found} : s.read key path = some f →
    f.doc.writer = f.link.target

theorem Settled.inv (h : Settled s) : FillInv s s := by
  have hnone : ∀ {p ph t}, s.pc p ≠ .writing ph t := fun {p ph t} => by simp [h.idle p]
  have hcommits : ∀ {t}, t ∉ s.commits := fun {t} => by simp [h.commits]
  have hlaid : ∀ {t}, ¬ Laid s t := by
    rintro t (ht | ⟨p, ph, hp, _⟩)
    · exact hcommits ht
    · exact hnone hp
  exact {
    log := {
      gen_le := le_rfl
      acq := fun hp => absurd hp hnone
      acq_inj := fun hp => absurd hp hnone
      commit_acq := fun ht => absurd ht hcommits
      commit_open := fun ht => absurd ht hcommits
      validated := fun hp => absurd hp hnone
      seat := fun hp => absurd hp hnone
      behind := fun ht => absurd ht hcommits
      after := fun ht => absurd ht hcommits
      cursor_le := h.room
      stop_le := fun hp => absurd hp hnone
      frontier_le := le_rfl }
    docs := {
      retained := fun _ => rfl
      writer_le := h.writers
      unfilled := fun hp => absurd hp hnone
      bound := fun ht => absurd ht hlaid
      kept := fun ht => absurd ht hlaid }
    refs := {
      entries := fun he => .inl ⟨h.entries he, he⟩
      pcs := fun p => by rw [h.idle p]; trivial } }

variable [DecidableEq P]

/-- In every run from the beginning of a pass in which fewer than `2 ^ 16`
generations pass over a pending write, and no holder is taken over between
the check and the store of its commit, a read finds by an entry or a link
only the document that entry or link was made to. One of this pass was put
there by a commit, as it is; one of the pass before has not changed. -/
theorem taken_over_fill_unserved {acts : List (Act P)} (h₀ : Settled s₀)
    (hfew : StepsOk step FewBumps s₀ acts) (hwhole : StepsOk step CommitsWhole s₀ acts)
    (hrun : runs step s₀ acts = some s) {key : CacheKey} {path : Nat × Nat} {f : Found}
    (hread : s.read key path = some f) :
    f.doc.writer = f.link.target ∧ (f.current = true → ∃ t ∈ s.commits, t.acq = f.link.target ∧
        ∃ d, (f.link.offset, d) ∈ t.docs ∧ d.toPiece = f.doc.toPiece) ∧
      (f.current = false → s₀.mem f.link.offset = some f.doc) := by
  have hinv : FillInv s₀ s :=
    runs_inv_of_ok (fun s a s' hi hok hstep => hi.step hok.1 hok.2 hstep) (hfew.and hwhole) hrun
      h₀.inv
  rcases hinv.read hread with ⟨hcur, hserved⟩ | ⟨hold, hmem, path₀, hread₀⟩
  · obtain ⟨t, ht, ⟨_, _, htarget⟩, hwritten⟩ := hserved.written
    refine ⟨hserved.writer, fun _ => ⟨t, ht, htarget.symm, hwritten⟩, fun hfalse => ?_⟩
    rw [hcur] at hfalse
    cases hfalse
  · refine ⟨h₀.faithful hread₀, fun htrue => ?_, fun _ => hmem⟩
    rw [hold] at htrue
    cases htrue

instance {n : Nat} (s : State (Fin n)) (a : Act (Fin n)) : Decidable (FewBumps s a) :=
  inferInstanceAs
    (Decidable (a.bumps s = true → ∀ p, ∀ g ∈ (s.pc p).pending, s.gen + 1 < g + 2 ^ 16))

instance {n : Nat} (s : State (Fin n)) : (a : Act (Fin n)) → Decidable (CommitsWhole s a)
  | .recover => inferInstanceAs (Decidable (∀ p, (s.pc p).storing = false))
  | .plan .. | .splice .. | .touch _ | .next _ | .reserve .. | .giveUp _ | .advance _ | .drop _ =>
    isTrue trivial

def piece (key : CacheKey) (body : Nat) : Piece := ⟨key, body, body, 136, by decide⟩

def keptDoc : Doc := ⟨piece 7 5, 9, noLink, 9⟩

def keptStripe : State (Fin 4) where
  mem := Function.update (fun _ => none) 131072 (some keptDoc)
  dir := [⟨keptDoc.linkTo 131072, false⟩]
  cursor := 8192
  frontier := 65536
  gen := 20
  owner := none
  pc := fun _ => .idle
  commits := []

theorem mem_keptStripe {o : Nat} {d : Doc} (h : keptStripe.mem o = some d) : d = keptDoc := by
  simp only [keptStripe, update_apply] at h
  split at h
  · exact (Option.some.inj h).symm
  · cases h

theorem settled_keptStripe : Settled keptStripe where
  idle _ := rfl
  commits := rfl
  entries he := by
    rw [List.mem_singleton.mp he]
  writers hd := by
    rw [mem_keptStripe hd]
    decide
  room := by decide
  faithful := by
    intro key path f hread
    obtain ⟨e, he, hfollow⟩ := Option.bind_eq_some_iff.mp hread
    obtain rfl := List.mem_singleton.mp (List.mem_of_getElem? he)
    obtain ⟨i, hops⟩ := path
    cases hops with
    | zero =>
      obtain ⟨d, hlook, rfl⟩ := Option.map_eq_some_iff.mp hfollow
      obtain rfl := mem_keptStripe (of_look hlook).2.1
      rfl
    | succ hops =>
      obtain ⟨d, hlook, hrest⟩ := Option.bind_eq_some_iff.mp hfollow
      obtain rfl := mem_keptStripe (of_look hlook).2.1
      cases hrest

def writes (p : Fin 4) (head : Piece) (carry : List (Nat × Nat)) : List (Act (Fin 4)) :=
  [.plan p head none carry, .next p, .next p, .reserve p 0, .next p, .next p, .next p, .next p]

def stalledFill : List (Act (Fin 4)) :=
  [.plan 0 (piece 7 11) none [], .next 0, .next 0, .reserve 0 0, .recover] ++
    writes 1 (piece 7 12) [(0, 0)] ++ [.next 0, .next 0]

theorem taken_over_fill_unserved_stalled : ∃ s f, runs step keptStripe stalledFill = some s ∧
      (∃ d, s.mem 8192 = some d ∧ d.key = 7 ∧ d.writer = 21) ∧
      s.read 7 (0, 1) = none ∧ s.read 7 (0, 0) = some f ∧ f.doc.writer = f.link.target := by
  obtain ⟨s, hrun, hlate, hmiss, hsome⟩ : ∃ s, runs step keptStripe stalledFill = some s ∧
      (∃ d, s.mem 8192 = some d ∧ d.key = 7 ∧ d.writer = 21) ∧
      (s.read 7 (0, 1)).isNone ∧ (s.read 7 (0, 0)).isSome := by decide +kernel
  obtain ⟨f, hread⟩ := Option.isSome_iff_exists.mp hsome
  exact ⟨s, f, hrun, hlate, Option.isNone_iff_eq_none.mp hmiss, hread, (taken_over_fill_unserved
    settled_keptStripe (by decide +kernel) (by decide +kernel) hrun hread).1⟩

def touches (p : P) : Nat → List (Act P)
  | 0 => []
  | n + 1 => .touch p :: .next p :: touches p n

theorem touch_step (s : State P) (hidle : s.pc p = .idle) (hfree : s.owner = none) :
    ∃ mid, step s (.touch p) = some mid ∧ mid.pc p = .touching (s.gen + 1) ∧
      step mid (.next p) = some { s with gen := s.gen + 1 } := by
  refine ⟨{ s with gen := s.gen + 1, owner := some p }.goto p (.touching (s.gen + 1)), ?_,
    goto_self .., ?_⟩
  · simp only [step, hidle, State.take, hfree]
  · have hpc : update (update s.pc p (.touching (s.gen + 1))) p .idle = s.pc := by
      rw [update_idem, ← hidle, update_eq_self]
    simp only [step, next, State.goto, update_self, State.release, State.revalidates,
      beq_self_eq_true, Bool.and_self, if_true, hpc, hfree]

theorem runs_touches (n : Nat) (s : State P) (hidle : s.pc p = .idle) (hfree : s.owner = none)
    (hopen : ∀ q, (s.pc q).pending = none) :
    runs step s (touches p n) = some { s with gen := s.gen + n } ∧
      StepsOk step FewBumps s (touches p n) := by
  induction n generalizing s with
  | zero => exact ⟨rfl, trivial⟩
  | succ n ih =>
    obtain ⟨mid, htouch, hmid, hnext⟩ := touch_step s hidle hfree
    obtain ⟨hrun, hok⟩ := ih { s with gen := s.gen + 1 } hidle hfree hopen
    constructor
    · rw [touches, runs_cons, htouch, Option.bind_some, runs_cons, hnext, Option.bind_some, hrun]
      simp only [Nat.add_assoc, Nat.add_comm 1]
    · refine ⟨fun _ q g hg => ?_, fun s₁ hs₁ => ⟨fun hbumps => ?_, fun s₂ hs₂ => ?_⟩⟩
      · rw [hopen q] at hg
        cases hg
      · obtain rfl := Option.some.inj (htouch.symm.trans hs₁)
        simp [Act.bumps, hmid] at hbumps
      · obtain rfl := Option.some.inj (htouch.symm.trans hs₁)
        obtain rfl := Option.some.inj (hnext.symm.trans hs₂)
        exact hok

def emptyStripe : State (Fin 4) where
  mem := fun _ => none
  dir := []
  cursor := 8192
  frontier := 1048576
  gen := 0
  owner := none
  pc := fun _ => .idle
  commits := []

theorem settled_emptyStripe : Settled emptyStripe where
  idle _ := rfl
  commits := rfl
  entries he := (nomatch he)
  writers hd := (nomatch hd)
  room := by decide
  faithful hread := (nomatch hread)

def movedBack : List (Act (Fin 4)) :=
  (writes 0 (piece 1 10) []).take 6 ++ [.recover] ++ writes 1 (piece 2 20) [] ++
    writes 2 (piece 7 30) [] ++ [.next 0, .next 0]

def writesOver : List (Act (Fin 4)) := (writes 1 (piece 7 40) []).take 7

/-- After `2 ^ 16 - 1` hits, with no write pending, the next slot has the
offset and the serial of the document of process 2. -/
theorem late_cursor_store_unbinds :
    ∃ acts s f, Settled emptyStripe ∧ StepsOk step FewBumps emptyStripe acts ∧
      runs step emptyStripe acts = some s ∧ s.read 7 (1, 0) = some f ∧
      f.doc.writer ≠ f.link.target := by
  obtain ⟨s, hrun, hidle, hfree, hopen, hlast, s', hrun', f, hf, hne⟩ : ∃ s,
      runs step emptyStripe movedBack = some s ∧ s.pc 3 = .idle ∧ s.owner = none ∧
      (∀ q, (s.pc q).pending = none) ∧
      StepsOk step FewBumps { s with gen := s.gen + 65535 } writesOver ∧
      ∃ s', runs step { s with gen := s.gen + 65535 } writesOver = some s' ∧
        ∃ f, s'.read 7 (1, 0) = some f ∧ f.doc.writer ≠ f.link.target := by decide +kernel
  obtain ⟨htouches, hoktouches⟩ := runs_touches 65535 s hidle hfree hopen
  have hstart : StepsOk step FewBumps emptyStripe movedBack := by decide +kernel
  refine ⟨movedBack ++ (touches 3 65535 ++ writesOver), s', f, settled_emptyStripe, ?_, ?_, hf, hne⟩
  · refine stepsOk_append.mpr ⟨hstart, fun mid hmid => ?_⟩
    obtain rfl := Option.some.inj (hrun.symm.trans hmid)
    refine stepsOk_append.mpr ⟨hoktouches, fun mid hmid => ?_⟩
    obtain rfl := Option.some.inj (htouches.symm.trans hmid)
    exact hlast
  · rw [runs_append, hrun, Option.bind_some, runs_append, htouches, Option.bind_some, hrun']

end CycloneCache.Ref.Fills

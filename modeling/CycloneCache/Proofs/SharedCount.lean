import CycloneCache.Lib.Tally
import CycloneCache.Proofs.DirectoryCounts
import CycloneCache.Ref.SharedCount

namespace CycloneCache.Ref.Directories.SharedCount

open Lib Function

structure Places.Ok (bucket : Bucket) (found : Places) : Prop where
  firstEmpty : SlotOf bucket false found.firstEmpty
  firstStale : SlotOf bucket true found.firstStale
  firstCollider : SlotOf bucket true found.firstCollider
  nearestToClobber : SlotOf bucket true (found.nearestToClobber.map Prod.fst)

theorem scanUnadmitted_spec (tag : Nat) (c : Insert) (es : Bucket) :
    ∀ (pre : Bucket) (found : Places), found.Ok (pre ++ es) →
      match scanUnadmitted tag c es pre.length found with
      | .inl i => ∃ e, (pre ++ es)[i]? = some e ∧ inUse e = true ∧ e.tag = tag
      | .inr found => found.Ok (pre ++ es) := by
  induction es with
  | nil => exact fun _ _ h => h
  | cons e es ih =>
    intro pre found h
    have hi : (pre ++ e :: es)[pre.length]? = some e := by simp
    have hnext : ∀ found : Places, found.Ok (pre ++ e :: es) →
        match scanUnadmitted tag c es (pre.length + 1) found with
        | .inl i => ∃ e', (pre ++ e :: es)[i]? = some e' ∧ inUse e' = true ∧ e'.tag = tag
        | .inr found => found.Ok (pre ++ e :: es) := by
      intro found h
      have hpre := ih (pre ++ [e]) found
      rw [List.append_assoc, List.singleton_append, List.length_append,
        List.length_singleton] at hpre
      exact hpre h
    unfold scanUnadmitted
    by_cases hempty : e.isEmpty
    · rw [if_pos hempty]
      exact hnext _ { h with firstEmpty := h.firstEmpty.first hi (by simp [hempty]) }
    · rw [if_neg hempty]
      have hused : inUse e = true := by simpa using hempty
      have h : Places.Ok (pre ++ e :: es)
          { found with nearestToClobber := lower found.nearestToClobber pre.length e } :=
        { h with nearestToClobber := h.nearestToClobber.lower hi hused }
      dsimp only
      by_cases hmine : e.tag = tag ∧ e.phase = c.phase
      · rw [if_pos hmine]
        by_cases hver : c.verified = kMatchAnyTag ∨ e.offset = c.verified
        · rw [if_pos hver]
          exact ⟨e, hi, hused, hmine.1⟩
        · rw [if_neg hver]
          exact hnext _ { h with firstCollider := h.firstCollider.first hi hused }
      · rw [if_neg hmine]
        by_cases hstale : e.phase ≠ c.phase
        · rw [if_pos hstale]
          exact hnext _ { h with firstStale := h.firstStale.first hi hused }
        · rw [if_neg hstale]
          exact hnext _ h

theorem chooseUnadmitted_spec (tag : Nat) (c : Insert) (bucket : Bucket) :
    (chooseUnadmitted tag c bucket).Ok tag bucket := by
  intro slot h
  have hnone : ∀ used, SlotOf bucket used none := nofun
  have hscan := scanUnadmitted_spec tag c bucket [] {} ⟨hnone _, hnone _, hnone _, hnone _⟩
  unfold chooseUnadmitted at h ⊢
  rw [List.length_nil] at hscan
  cases hs : scanUnadmitted tag c bucket 0 {} with rw [hs] at hscan h
  | inl i =>
    obtain ⟨e, he, hused, htag⟩ := hscan
    cases h
    exact ⟨e, he, hused, fun _ => htag⟩
  | inr found =>
    simp only [List.nil_append] at hscan h ⊢
    split at h
    · next hempty => exact hscan.firstEmpty.chosen (hempty.trans h) tag
    · next _ hstale => exact hscan.firstStale.chosen (hstale.trans h) tag
    · next _ _ hcoll => exact hscan.firstCollider.chosen (hcoll.trans h) tag
    · next _ _ _ hnear =>
      have hslot := hscan.nearestToClobber
      rw [hnear] at hslot
      exact hslot.chosen h tag
    · cases h

theorem insertUnadmitted_count {c : Insert} (hok : c.Ok) (tag : Nat) (bucket : Bucket) :
    (insertUnadmitted tag c bucket).bucket.countP inUse + (insertUnadmitted tag c bucket).cleared =
      bucket.countP inUse + (insertUnadmitted tag c bucket).added.toNat := by
  have hchoice := chooseUnadmitted_spec tag c bucket
  rw [insertUnadmitted]
  generalize chooseUnadmitted tag c bucket = choice at hchoice
  cases hslot : choice.slot with
  | none => simp
  | some slot =>
    obtain ⟨e, he, hused, -⟩ := hchoice slot hslot
    have hstored := countP_modify (inUse_store hok tag choice e) bucket slot he
    rw [hused] at hstored
    cases hr : choice.replaces <;> simp [hr] at hstored ⊢ <;> omega

theorem work_count {op : Op} (hok : op.Ok) (bucket : Bucket) :
    (op.work bucket).bucket.countP inUse + (op.work bucket).cleared =
      bucket.countP inUse + (op.work bucket).added.toNat := by
  cases op with
  | insert key c admitted =>
    cases admitted with
    | true =>
      have hcount := (bracket_count hok key.tag bucket).1
      rw [← bracket_store_eq] at hcount
      exact hcount
    | false => exact insertUnadmitted_count hok key.tag bucket
  | removeAt key target =>
    have hcount := countP_sweep key.tag [target] bucket
    show (Directories.removeAt key.tag target bucket).1.countP inUse +
      (Directories.removeAt key.tag target bucket).2 = bucket.countP inUse
    rw [removeAt_eq]
    exact hcount
  | removeAllAt key offsets =>
    have hcount := countP_sweep key.tag offsets bucket
    obtain ⟨hfst, hsnd⟩ := clearListed_eq key.tag offsets bucket 0
    show (MmapDirectory.clearListed key.tag offsets bucket 0).1.countP inUse +
      (MmapDirectory.clearListed key.tag offsets bucket 0).2.1 = bucket.countP inUse
    rw [hfst, hsnd]
    exact hcount

variable {z : Size} {P : Type}

def Pc.owed : Pc → ℤ
  | .idle | .waiting _ | .holding _ | .writing _ _ => 0
  | .leaving _ work => work.added.toNat - work.cleared
  | .counting added cleared => added.toNat - cleared
  | .clearing cleared => -cleared
  | .exchanging cleared _ => -(cleared + 1)

def Pc.Ok (s : State z P) (p : P) : Pc → Prop
  | .idle | .counting _ _ | .clearing _ | .exchanging _ _ => True
  | .waiting op => op.Ok
  | .holding op => op.Ok ∧ s.holder (z.bucketIdx op.key) = some p
  | .writing op work =>
    op.Ok ∧ s.holder (z.bucketIdx op.key) = some p ∧ work = op.work (s.entries (z.bucketIdx op.key))
  | .leaving op _ => s.holder (z.bucketIdx op.key) = some p

def State.drift (s : State z P) : ℤ := occupied s.entries + s.lost - s.entryCount.toNat

structure Inv (s : State z P) : Prop where
  pc : ∀ p, (s.pc p).Ok s p
  owed : ∃ n, Tally (fun p => (s.pc p).owed) n ∧ (s.drift - n) % 2 ^ 32 = 0

variable {s : State z P} {pc : Pc}

theorem Inv.initial (h : s.Initial) : Inv s where
  pc := by
    intro p
    rw [h.pc]
    trivial
  owed := by
    refine ⟨0, ?_, ?_⟩
    · have hzero : (fun p => (s.pc p).owed) = fun _ => 0 := by
        funext p
        rw [h.pc]
        rfl
      rw [hzero]
      exact Tally.zero
    · rw [State.drift, h.lost, h.entryCount, BitVec.toNat_ofNat]
      omega

variable {s' : State z P}

theorem Pc.Ok.other {p : P} (h : pc.Ok s p)
    (hkept : ∀ b, s.holder b = some p → s'.holder b = some p ∧ s'.entries b = s.entries b) :
    pc.Ok s' p := by
  cases pc with
  | idle => trivial
  | waiting op => exact h
  | holding op => exact ⟨h.1, (hkept _ h.2).1⟩
  | writing op work =>
    obtain ⟨hok, hholder, hwork⟩ := h
    obtain ⟨hholder', hentries⟩ := hkept _ hholder
    refine ⟨hok, hholder', ?_⟩
    rw [hentries]
    exact hwork
  | leaving op work => exact (hkept _ h).1
  | counting added cleared => trivial
  | clearing cleared => trivial
  | exchanging cleared current => trivial

theorem Inv.move [DecidableEq P] {p : P} (h : Inv s) (hpc : s'.pc = update s.pc p pc)
    (hok : pc.Ok s' p)
    (hkept : ∀ q b, q ≠ p → s.holder b = some q → s'.holder b = some q ∧ s'.entries b = s.entries b)
    (hdrift : (s'.drift - s.drift - (pc.owed - (s.pc p).owed)) % 2 ^ 32 = 0) : Inv s' where
  pc := by
    rw [hpc]
    exact (forall_update_iff s.pc fun q pc => pc.Ok s' q).mpr
      ⟨hok, fun q hq => (h.pc q).other fun b => hkept q b hq⟩
  owed := by
    obtain ⟨n, htally, hn⟩ := h.owed
    refine ⟨n - (s.pc p).owed + pc.owed, ?_, by omega⟩
    have howed : (fun q => (s'.pc q).owed) = update (fun q => (s.pc q).owed) p pc.owed := by
      funext q
      rw [hpc, Function.apply_update (fun _ pc => Pc.owed pc)]
    rw [howed]
    exact htally.update p pc.owed

section Steps

variable [DecidableEq P] {p : P} {s : State z P} {cleared : Nat}

section

variable (h : Inv s)
include h

theorem Inv.goto {pc : Pc} (hok : pc.Ok s p) (howed : pc.owed = (s.pc p).owed) :
    Inv (s.goto p pc) := by
  refine h.move rfl (hok.other fun b hb => ⟨hb, rfl⟩) (fun q b _ hb => ⟨hb, rfl⟩) ?_
  show (s.drift - s.drift - (pc.owed - (s.pc p).owed)) % 2 ^ 32 = 0
  omega

theorem Inv.lock {pc : Pc} {b : Fin z.buckets} {holder : Option P}
    (hfree : s.holder b = none ∨ s.holder b = some p) (hok : pc.Ok ((s.lock b holder).goto p pc) p)
    (howed : pc.owed = (s.pc p).owed) : Inv ((s.lock b holder).goto p pc) := by
  refine h.move rfl hok (fun q b' hq hb' => ⟨?_, rfl⟩) ?_
  · have hne : b' ≠ b := by
      rintro rfl
      rcases hfree with hfree | hfree
      · rw [hfree] at hb'
        cases hb'
      · rw [hfree] at hb'
        exact hq (Option.some.inj hb').symm
    exact (update_of_ne hne ..).trans hb'
  · show (s.drift - s.drift - (pc.owed - (s.pc p).owed)) % 2 ^ 32 = 0
    omega

theorem Inv.write {op : Op} {work : Work} (hpc : s.pc p = .writing op work) :
    Inv { s.goto p (.leaving op work) with
      entries := update s.entries (z.bucketIdx op.key) work.bucket } := by
  have hpcOk := h.pc p
  rw [hpc] at hpcOk
  obtain ⟨hok, hholder, hwork⟩ := hpcOk
  refine h.move rfl hholder (fun q b hq hb => ⟨hb, ?_⟩) ?_
  · have hne : b ≠ z.bucketIdx op.key := by
      rintro rfl
      rw [hholder] at hb
      exact hq (Option.some.inj hb).symm
    exact update_of_ne hne ..
  · have hupdate := occupied_update s.entries (z.bucketIdx op.key) work.bucket
    have hcount := work_count hok (s.entries (z.bucketIdx op.key))
    rw [← hwork] at hcount
    rw [hpc]
    simp only [State.drift, Pc.owed, State.goto]
    omega

theorem Inv.tryDecrement (howed : (s.pc p).owed = -(cleared + 1)) :
    Inv (tryDecrement s p cleared s.entryCount) := by
  rw [SharedCount.tryDecrement]
  split
  next hzero =>
    refine h.move rfl trivial (fun q b _ hb => ⟨hb, rfl⟩) ?_
    rw [howed]
    simp only [State.drift, Pc.owed, State.goto]
    omega
  next => exact h.goto trivial howed.symm

theorem Inv.decrement {current : BitVec 32} (hpc : s.pc p = .exchanging cleared current)
    (hfound : s.entryCount = current) :
    Inv { s.goto p (.clearing cleared) with entryCount := current - 1 } := by
  refine h.move rfl trivial (fun q b _ hb => ⟨hb, rfl⟩) ?_
  have hsub : ((current - 1).toNat : ℤ) % 2 ^ 32 = (current.toNat - 1) % 2 ^ 32 := by
    rw [BitVec.toNat_sub]
    have hone : (1 : BitVec 32).toNat = 1 := rfl
    rw [hone]
    omega
  rw [hpc]
  simp only [State.drift, Pc.owed, State.goto, hfound]
  omega

theorem Inv.increment {added : Bool} (hpc : s.pc p = .counting added cleared) :
    Inv { s.goto p (.clearing cleared) with
      entryCount := if added then s.entryCount + 1 else s.entryCount } := by
  refine h.move rfl trivial (fun q b _ hb => ⟨hb, rfl⟩) ?_
  rw [hpc]
  cases added with
  | false =>
    simp only [State.drift, Pc.owed, State.goto]
    simp
  | true =>
    have hadd : (s.entryCount + 1).toNat = (s.entryCount.toNat + 1) % 2 ^ 32 := BitVec.toNat_add ..
    simp only [State.drift, Pc.owed, State.goto, if_true, hadd, Bool.toNat_true]
    omega

theorem Inv.go {spurious : Bool} (hstep : go s p spurious = some s') : Inv s' := by
  have hok := h.pc p
  rw [SharedCount.go] at hstep
  split at hstep
  next => cases hstep
  next op hpc =>
    rw [hpc] at hok
    split at hstep <;> cases hstep
    next hfree => exact h.lock (.inl hfree) ⟨hok, update_self ..⟩ (by rw [hpc]; rfl)
  next op hpc =>
    rw [hpc] at hok
    cases hstep
    exact h.goto ⟨hok.1, hok.2, rfl⟩ (by rw [hpc]; rfl)
  next op work hpc =>
    cases hstep
    exact h.write hpc
  next op work hpc =>
    rw [hpc] at hok
    cases hstep
    exact h.lock (.inr hok) trivial (by rw [hpc]; rfl)
  next added cleared hpc =>
    cases hstep
    exact h.increment hpc
  next hpc =>
    cases hstep
    exact h.goto trivial (by rw [hpc]; rfl)
  next cleared hpc =>
    cases hstep
    exact h.tryDecrement (by rw [hpc]; rfl)
  next cleared current hpc =>
    cases hstep
    split
    next hfound => exact h.decrement hpc hfound.1
    next => exact h.tryDecrement (by rw [hpc]; rfl)

end

theorem Inv.step {l : P × Act} (hl : l.2.Ok) (h : Inv s) (hstep : step s l = some s') : Inv s' := by
  obtain ⟨p, act⟩ := l
  cases act with rw [SharedCount.step] at hstep
  | call op =>
    split at hstep <;> cases hstep
    next hpc =>
    split
    · exact h
    · exact h.goto hl (by rw [hpc]; rfl)
  | giveUp =>
    split at hstep <;> cases hstep
    next op hpc => exact h.goto trivial (by rw [hpc]; rfl)
  | yield =>
    split at hstep
    next op hpc =>
      split at hstep <;> cases hstep
      have hok := h.pc p
      rw [hpc] at hok
      exact h.lock (.inr hok.2) hok.1 (by rw [hpc]; rfl)
    next => cases hstep
  | go spurious => exact h.go hstep

/-- The count is the number of slots in use and of decrements that were lost, as
far as it can hold it; so it is right just when none was lost. -/
theorem shared_count_settles {s₀ s : State z P} {labels : List (P × Act)} (hinit : s₀.Initial)
    (hok : ∀ l ∈ labels, l.2.Ok) (hrun : runs step s₀ labels = some s)
    (hidle : ∀ p, s.pc p = .idle) :
    s.entryCount.toNat = (occupied s.entries + s.lost) % 2 ^ 32 ∧ (occupied s.entries < 2 ^ 32 →
        (s.entryCount.toNat = occupied s.entries ↔ s.lost % 2 ^ 32 = 0)) := by
  have hinv : Inv s :=
    runs_inv_mem (fun l hl _ _ h hstep => h.step (hok l hl) hstep) hrun (Inv.initial hinit)
  obtain ⟨n, htally, hn⟩ := hinv.owed
  have hsettled : n = 0 := htally.settled fun p => by rw [hidle]; rfl
  have hlt := s.entryCount.isLt
  rw [State.drift] at hn
  constructor
  · omega
  · intro hfits
    omega

end Steps

def fresh : State ⟨1, Nat.one_pos, single.fits⟩ Bool where
  entries := noEntries _
  holder := fun _ => none
  entryCount := 0
  pc := fun _ => .idle
  lost := 0

theorem fresh_initial : fresh.Initial where
  pc := fun _ => rfl
  entryCount := by decide +kernel
  lost := rfl

def overtaken : List (Bool × Act) :=
  (false, .call (.insert (keyOf 0 1) filler true)) :: List.replicate 4 (false, .go false) ++
    (true, .call (.removeAt (keyOf 0 1) 8)) :: List.replicate 7 (true, .go false) ++
    List.replicate 2 (false, .go false)

theorem overtaken_ok : ∀ l ∈ overtaken, l.2.Ok := by
  have hfiller : filler.Ok := ⟨by decide, by decide⟩
  intro l hl
  simp only [overtaken, List.cons_append, List.append_assoc, List.mem_cons, List.mem_append,
    List.mem_replicate] at hl
  rcases hl with rfl | ⟨-, rfl⟩ | rfl | ⟨-, rfl⟩ | ⟨-, rfl⟩
  · exact hfiller
  · trivial
  · trivial
  · trivial
  · trivial

def Pc.isIdle : Pc → Bool
  | .idle => true
  | _ => false

theorem Pc.eq_idle (h : pc.isIdle = true) : pc = .idle := by
  cases pc with
  | idle => rfl
  | _ => cases h

theorem runs_overtaken :
    ∃ s, runs step fresh overtaken = some s ∧ (∀ p, s.pc p = .idle) ∧ s.entryCount = 1 ∧
      occupied s.entries = 0 ∧ s.lost = 1 := by
  obtain ⟨s, hrun, hidle, hidle', hs⟩ : ∃ s, runs step fresh overtaken = some s ∧
      (s.pc false).isIdle ∧ (s.pc true).isIdle ∧ s.entryCount = 1 ∧ occupied s.entries = 0 ∧
      s.lost = 1 := by decide +kernel
  refine ⟨s, hrun, ?_, hs⟩
  rintro (_ | _)
  · exact Pc.eq_idle hidle
  · exact Pc.eq_idle hidle'

theorem shared_count_settles_overtaken : ∃ s, runs step fresh overtaken = some s ∧
      s.entryCount.toNat = (occupied s.entries + s.lost) % 2 ^ 32 ∧
      ¬s.entryCount.toNat = occupied s.entries := by
  obtain ⟨s, hrun, hidle, -, hoccupied, hlost⟩ := runs_overtaken
  obtain ⟨hcount, hexact⟩ := shared_count_settles fresh_initial overtaken_ok hrun hidle
  refine ⟨s, hrun, hcount, fun heq => ?_⟩
  have hnone := (hexact (by omega)).mp heq
  omega

/-- The count need not be exact when every call is back. -/
theorem shared_count_not_exact :
    ¬ ∀ (z : Size) (P : Type) [DecidableEq P] (s₀ s : State z P) (labels : List (P × Act)),
      s₀.Initial → (∀ l ∈ labels, l.2.Ok) → runs step s₀ labels = some s →
        (∀ p, s.pc p = .idle) → s.entryCount.toNat = occupied s.entries := by
  intro hexact
  obtain ⟨s, hrun, hidle, hcount, hoccupied, -⟩ := runs_overtaken
  have heq := hexact _ Bool fresh s overtaken fresh_initial overtaken_ok hrun hidle
  rw [hcount, hoccupied] at heq
  cases heq

end CycloneCache.Ref.Directories.SharedCount

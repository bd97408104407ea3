import CycloneCache.Proofs.RamOrder

namespace CycloneCache.Ref.Ram

open Lib Function

def RamCoherent (s : State) : Prop := ∀ id c, s.ram id = some c → s.floor id ≤ c.body

def NeverGoesBack (answers : List Answer) : Prop :=
  answers.Pairwise fun new old =>
    new.alternate = true → old.alternate = true → new.id = old.id → old.body ≤ new.body

structure NoCopies (s : State) : Prop where
  ram : ∀ i c, s.ram i ≠ some c
  stages : ∀ t r n stage, s.pcs t = .altServe r n stage → stage = .disk

section

variable {cfg : Config} {s s' : State} {a : Act} {t : Nat} {pc pc' : Pc}

theorem NoCopies.quiet (h : NoCopies s) (hpcs : s'.pcs = update s.pcs t pc')
    (hram : ∀ i c, s'.ram i = some c → s.ram i = some c)
    (hstage : ∀ r n stage, pc' = .altServe r n stage → stage = .disk) : NoCopies s' := by
  constructor
  · exact fun i c hc => h.ram i c (hram i c hc)
  · intro u r n stage hu
    rcases moved_cases hu hpcs with ⟨-, hu⟩ | ⟨-, hu⟩
    · exact hstage r n stage hu
    · exact h.stages u r n stage hu

theorem NoCopies.glance (h : NoCopies s) (hram : cfg.ramCache = false) (hpc : s.pcs t = pc)
    (hg : Glance cfg s t a pc pc') : ∀ r n stage, pc' = .altServe r n stage → stage = .disk := by
  intro r n stage hpc'
  have hstage := h.stages t
  rw [hpc] at hstage
  cases hg with
  | pick r' nodes k n' hn =>
    have hno : useRamCache cfg n' = false := by
      rw [useRamCache, hram, Bool.false_and]
    rw [if_neg (Bool.eq_false_iff.mp hno)] at hpc'
    cases hpc'
    rfl
  | miss r' n' hl hnone =>
    cases hpc'
    rfl
  | copy r' n' c hl hsome => exact absurd hsome (h.ram _ c)
  | stale r' n' c | offer r' n' he | accept r' n' hv hs | undo r' n' =>
    exact nomatch hstage r' n' _ rfl
  | loaded r' n' hu =>
    rw [useRamCache, hram, Bool.false_and] at hu
    cases hu
  | _ => cases hpc'

theorem NoCopies.move (hn : NoCopies s) (hram : cfg.ramCache = false) (h : Move cfg s a s') :
    NoCopies s' := by
  cases h with
  | call t c result hpc =>
    refine hn.quiet rfl (fun _ _ h => h) ?_
    intro r n stage hpc'
    rcases beginCall_cases cfg s c with h | h | h | h <;> rw [h] at hpc' <;> cases hpc'
  | glance t a pc pc' hpc hg => exact hn.quiet rfl (fun _ _ h => h) (hn.glance hram hpc hg)
  | serve t pc ans hpc hs | store t st todo out hpc hst | bump t todo out hpc | finish t out hpc =>
    exact hn.quiet rfl (fun _ _ h => h) nofun
  | readDrop t f hpc hl =>
    exact hn.quiet rfl (fun _ _ h => dropCopy_le h) nofun
  | drop t r n hpc hl | undo t r n hpc hl | lock t r n hpc hl he | insert t r n hpc =>
    exact nomatch hn.stages t r n _ hpc
  | refuse t a r n hpc =>
    rcases hpc with hpc | hpc <;> exact nomatch hn.stages t r n _ hpc
  | prepare t a m pc pc' hpc hp =>
    refine hn.quiet rfl (fun _ _ h => h) ?_
    intro r n stage h
    cases hp <;> cases h
  | wrap t al hpc | advance t o al hpc => exact { hn with }
  | evict t target todo out hpc hl =>
    exact hn.quiet rfl (fun _ _ h => (evictCopies_eq_some h).2) nofun
  | ramEvict id => exact ⟨fun i c hc => hn.ram i c (dropCopy_le hc), hn.stages⟩

def Pc.start? : Pc → Option Start
  | .altEpoch f => some f
  | .altVersion f _ => some f
  | .altProbe r => some r.start
  | .altWalk r _ _ => some r.start
  | .altSelect r _ => some r.start
  | .altServe r _ _ => some r.start
  | _ => none

structure AnswersOk (s : State) : Prop where
  served : ∀ t, ∀ ans ∈ s.answers t, ans.alternate = true → ans.body ≤ s.served ans.id
  active : ∀ t f, (s.pcs t).start? = some f →
    ∀ ans ∈ s.answers t, ans.alternate = true → ans.body ≤ f.served ans.id
  order : ∀ t, NeverGoesBack (s.answers t)

theorem AnswersOk.quiet (h : AnswersOk s) (hans : s'.answers = s.answers)
    (hserved : s'.served = s.served) (hpcs : s'.pcs = update s.pcs t pc')
    (hstart : ∀ f, pc'.start? = some f → (s.pcs t).start? = some f ∨ f = s.begins) :
    AnswersOk s' := by
  refine ⟨?_, ?_, ?_⟩
  · rw [hans, hserved]
    exact h.served
  · intro u f hu
    rw [hans]
    rw [hpcs] at hu
    by_cases hut : u = t
    · rw [hut, update_self] at hu
      rw [hut]
      rcases hstart f hu with hf | rfl
      · exact h.active t f hf
      · exact h.served t
    · rw [update_of_ne hut] at hu
      exact h.active u f hu
  · rw [hans]
    exact h.order

theorem AnswersOk.answer (h : AnswersOk s) {ans : Answer}
    (hans : s'.answers = update s.answers t (ans :: s.answers t))
    (hserved : s'.served = (s.answer t ans).served)
    (hpcs : s'.pcs = update s.pcs t (.idle (some ans))) (hnew : ans.alternate = true →
      (s.pcs t).start? = some ans.start ∧ ans.start.served ans.id ≤ ans.body) : AnswersOk s' := by
  have hold : ∀ old ∈ s.answers t, old.alternate = true → ans.alternate = true →
      ans.id = old.id → old.body ≤ ans.body := by
    intro old hmem halt halt' hid
    obtain ⟨hstart, hle⟩ := hnew halt'
    have := h.active t _ hstart old hmem halt
    rw [← hid] at this
    exact le_trans this hle
  have hself : ans.alternate = true → ans.body ≤ (s.answer t ans).served ans.id := by
    intro halt
    simp only [State.answer, if_pos halt, update_self]
    exact Nat.le_max_right _ _
  refine ⟨?_, ?_, ?_⟩
  · intro u a ha halt
    rw [hserved]
    rw [hans] at ha
    by_cases hut : u = t
    · rw [hut, update_self] at ha
      rcases List.mem_cons.mp ha with rfl | ha
      · exact hself halt
      · exact le_trans (h.served t a ha halt) (served_le_answer s t ans _)
    · rw [update_of_ne hut] at ha
      exact le_trans (h.served u a ha halt) (served_le_answer s t ans _)
  · intro u f hu
    rw [hpcs] at hu
    rw [hans]
    by_cases hut : u = t
    · rw [hut, update_self] at hu
      cases hu
    · rw [update_of_ne hut] at hu ⊢
      exact h.active u f hu
  · rw [hans]
    refine (forall_update_iff s.answers fun _ => NeverGoesBack).mpr ⟨?_, fun u _ => h.order u⟩
    exact List.pairwise_cons.mpr ⟨fun old hmem halt' halt hid => hold old hmem halt halt' hid,
      h.order t⟩

theorem Glance.start? (h : Glance cfg s t a pc pc') {f : Start} (hf : pc'.start? = some f) :
    pc.start? = some f := by
  cases h with
  | epoch f' | version f' e | head r o hv he | next r nodes o x hx hn | last r nodes o x hx
  | cut a r nodes o | pick r nodes k n hn | miss r n hl hnone | copy r n c hl hsome | stale r n c
  | loaded r n hu | offer r n he | accept r n hv hs | undo r n =>
    exact hf
  | _ => cases hf

theorem Serves.start? {ans : Answer} (h : Serves cfg s pc ans) (halt : ans.alternate = true) :
    pc.start? = some ans.start := by
  cases h with
  | readHit f c hl hc | readStamp f c | readDisk f o x hx => cases halt
  | _ => rfl

theorem AnswersOk.move (ha : AnswersOk s) (ho : Ordered cfg s) (hcov : Covered s)
    (h : Move cfg s a s') : AnswersOk s' := by
  cases h with
  | call t c result hpc =>
    refine ha.quiet rfl rfl rfl ?_
    intro f hf
    rcases beginCall_cases cfg s c with h | h | h | h <;> rw [h] at hf <;> cases hf
    exact .inr rfl
  | glance t a pc pc' hpc hg =>
    exact ha.quiet rfl rfl rfl fun f hf => .inl (hpc ▸ hg.start? hf)
  | serve t pc ans hpc hs =>
    refine ha.answer rfl rfl rfl fun halt => ⟨hpc ▸ hs.start? halt, ?_⟩
    exact (@Ordered.serves cfg s s t pc ho hcov hpc ans hs rfl halt).2.1
  | readDrop t f hpc hl | store t st todo out hpc hst | bump t todo out hpc
  | evict t target todo out hpc hl | finish t out hpc => exact ha.quiet rfl rfl rfl nofun
  | drop t r n hpc hl | lock t r n hpc hl he =>
    exact ha.quiet rfl rfl rfl fun f hf => .inl (hpc ▸ hf)
  | undo t r n hpc hl =>
    have hread := ho.readers t
    rw [hpc] at hread
    exact ha.answer rfl rfl rfl fun _ => ⟨by rw [hpc]; rfl, hread.start⟩
  | refuse t a r n hpc =>
    have hread := ho.readers t
    refine ha.answer rfl rfl rfl fun _ => ?_
    rcases hpc with hpc | hpc <;> rw [hpc] at hread ⊢ <;> exact ⟨rfl, hread.start⟩
  | insert t r n hpc =>
    exact @AnswersOk.quiet s _ t (.altServe r n .recheck) ha rfl rfl rfl fun f hf => .inl (hpc ▸ hf)
  | prepare t a m pc pc' hpc hp =>
    refine ha.quiet rfl rfl rfl fun f hf => ?_
    cases hp <;> cases hf
  | wrap t al hpc | advance t o al hpc | ramEvict id => exact { ha with }

structure CopiesOk (cfg : Config) (s : State) : Prop where
  writers : WritersOk cfg s
  guarded : cfg.ramCache = true → Guarded .versions s
  without : cfg.ramCache = false → NoCopies s

theorem CopiesOk.covered (h : CopiesOk cfg s) : Covered s := by
  cases hram : cfg.ramCache with
  | true =>
    have hg := h.guarded hram
    exact ⟨fun i c hc => (hg.copies i c hc rfl).1, fun t n hn => (hg.offers t n hn).1⟩
  | false =>
    have hn := h.without hram
    refine ⟨fun i c hc => absurd hc (hn.ram i c), fun t n ⟨r, hpc⟩ => ?_⟩
    rcases hpc with hpc | hpc <;> exact nomatch hn.stages t r n _ hpc

theorem copiesOk_step (hu : cfg.unlinkSupersededAlternates = true) (hi : CopiesOk cfg s)
    (h : step cfg s a = some s') : CopiesOk cfg s' := by
  have hmove := step_move h
  exact ⟨hi.writers.move hmove, fun hram => (hi.guarded hram).move hi.writers hram (fun _ => hu) hmove,
    fun hram => (hi.without hram).move hram hmove⟩

theorem copiesOk_opened {d : Disk} (h : OpensOn cfg d)
    (hu : cfg.unlinkSupersededAlternates = true) : CopiesOk cfg (State.opened d) :=
  ⟨writersOk_opened h, fun _ => guarded_opened h fun _ => hu, fun _ => ⟨nofun, nofun⟩⟩

theorem answersOk_step (hu : cfg.unlinkSupersededAlternates = true)
    (hi : CopiesOk cfg s ∧ Ordered cfg s ∧ AnswersOk s) (hok : ReadsInOrder s a)
    (h : step cfg s a = some s') : CopiesOk cfg s' ∧ Ordered cfg s' ∧ AnswersOk s' := by
  obtain ⟨hc, ho, ha⟩ := hi
  have hmove := step_move h
  exact ⟨copiesOk_step hu hc h, ho.move hc.covered hc.writers hu hok hmove,
    ha.move ho hc.covered hmove⟩

/-- No copy is older than what the calls that returned have published or
removed, and what one thread reads of an alternate never goes back. -/
theorem ram_coherent {d : Disk} {ls : List Act} (hu : cfg.unlinkSupersededAlternates = true)
    (hd : OpensOn cfg d) (hrun : runs (step cfg) (State.opened d) ls = some s) :
    RamCoherent s ∧
      (StepsOk (step cfg) ReadsInOrder (State.opened d) ls → ∀ t, NeverGoesBack (s.answers t)) := by
  constructor
  · have hc := runs_inv (fun s a s' => copiesOk_step hu) hrun (copiesOk_opened hd hu)
    exact hc.covered.copies
  · intro hok
    have hstart : AnswersOk (State.opened d) := ⟨nofun, nofun, fun _ => List.Pairwise.nil⟩
    exact (runs_inv_of_ok (fun s a s' hi hok h => answersOk_step hu hi hok h) hok hrun
      ⟨copiesOk_opened hd hu, ordered_opened hd hu, hstart⟩).2.2.order

instance (answers : List Answer) : Decidable (NeverGoesBack answers) :=
  inferInstanceAs (Decidable (List.Pairwise _ answers))

def readsInOrderB (s : State) : Act → Bool
  | .select t (some i) =>
    match s.pcs t with
    | .altSelect _ nodes => nodes[i]?.all fun n => (nodes.take i).all (·.id != n.id)
    | _ => true
  | .step t =>
    match s.pcs t with
    | .altServe r _ .pred => decide (s.disk.version < r.version + 2 ^ 32)
    | _ => true
  | _ => true

theorem readsInOrderB_sound (s : State) (a : Act) (h : readsInOrderB s a = true) :
    ReadsInOrder s a := by
  cases a with
  | select t i =>
    cases i with
    | none => trivial
    | some i =>
      intro r nodes n hpc hn
      refine ⟨hn, fun j m hj hm => ?_⟩
      simp only [readsInOrderB, hpc, hn, Option.all_some, List.all_eq_true] at h
      have hmem : m ∈ nodes.take i := by
        refine List.mem_iff_getElem?.mpr ⟨j, ?_⟩
        rw [List.getElem?_take_of_lt hj]
        exact hm
      simpa using h m hmem
  | step t =>
    intro r n hpc
    simp only [readsInOrderB, hpc] at h
    exact of_decide_eq_true h
  | _ => trivial

def writeAlternateRun (t id : Nat) : List Act :=
  [.call t (.writeAlternate id 136), .step t, .plan t fun _ => true] ++ List.replicate 7 (.step t)

def readAlternateRun (t nodes : Nat) : List Act :=
  .call t .readAlternate :: List.replicate (3 + nodes) (.step t) ++ [.select t (some 0)] ++
    List.replicate 5 (.step t) ++ [.insert t true, .step t]

def removeAlternateRun (t id : Nat) : List Act :=
  .call t (.removeAlternate id) :: List.replicate 7 (.step t)

def plainSettings (unlink : Bool) : Config :=
  ⟨true, unlink, true, false, false, false, fun _ => true⟩

theorem ram_coherent_two_versions : ∃ s, runs (step (plainSettings true)) (State.opened Disk.fresh)
        (writeAlternateRun 0 1 ++ readAlternateRun 1 1 ++ writeAlternateRun 0 1 ++
          readAlternateRun 1 1) = some s ∧
      s.floor 1 = 2 ∧ s.ram 1 = some ⟨2, 4⟩ ∧ (s.answers 1).map Answer.body = [2, 1] ∧
      RamCoherent s ∧ ∀ t, NeverGoesBack (s.answers t) := by
  obtain ⟨s, hrun, hfloor, hram, hans⟩ : ∃ s, runs (step (plainSettings true)) (State.opened
      Disk.fresh) (writeAlternateRun 0 1 ++ readAlternateRun 1 1 ++ writeAlternateRun 0 1 ++
      readAlternateRun 1 1) = some s ∧ s.floor 1 = 2 ∧ s.ram 1 = some ⟨2, 4⟩ ∧ (s.answers 1).map
      Answer.body = [2, 1] := by decide +kernel
  obtain ⟨hcoherent, hback⟩ := ram_coherent rfl opensOn_fresh hrun
  exact ⟨s, hrun, hfloor, hram, hans, hcoherent,
    hback (stepsOk_of_sound readsInOrderB_sound (by decide +kernel))⟩

/-- With superseded alternates left linked, the removal of the second version
brings back the first, for readers and in RAM. -/
theorem superseded_comes_back : ∃ s, runs (step (plainSettings false)) (State.opened Disk.fresh)
        (writeAlternateRun 0 1 ++ readAlternateRun 1 1 ++ writeAlternateRun 0 1 ++
          readAlternateRun 1 2 ++ removeAlternateRun 0 1 ++ readAlternateRun 1 1) = some s ∧
      (s.answers 1).map Answer.body = [1, 2, 1] ∧ (∃ c, s.ram 1 = some c ∧ c.body < 2) ∧
      ¬ RamCoherent s ∧ ¬ NeverGoesBack (s.answers 1) ∧
      StepsOk (step (plainSettings false)) ReadsInOrder (State.opened Disk.fresh)
        (writeAlternateRun 0 1 ++ readAlternateRun 1 1 ++ writeAlternateRun 0 1 ++
          readAlternateRun 1 2 ++ removeAlternateRun 0 1 ++ readAlternateRun 1 1) := by
  obtain ⟨s, hrun, hans, hram, hfloor, hback⟩ : ∃ s, runs (step (plainSettings false))
      (State.opened Disk.fresh) (writeAlternateRun 0 1 ++ readAlternateRun 1 1 ++ writeAlternateRun
      0 1 ++ readAlternateRun 1 2 ++ removeAlternateRun 0 1 ++ readAlternateRun 1 1) = some s ∧
      (s.answers 1).map Answer.body = [1, 2, 1] ∧ s.ram 1 = some ⟨1, 6⟩ ∧ s.floor 1 = 3 ∧ ¬
      NeverGoesBack (s.answers 1) := by decide +kernel
  refine ⟨s, hrun, hans, ⟨_, hram, by decide⟩, ?_, hback,
    stepsOk_of_sound readsInOrderB_sound (by decide +kernel)⟩
  intro hcoherent
  have := hcoherent 1 _ hram
  rw [hfloor] at this
  exact absurd this (by decide)

end

end CycloneCache.Ref.Ram

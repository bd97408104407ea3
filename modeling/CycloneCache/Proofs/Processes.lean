import CycloneCache.Proofs.Reads
import CycloneCache.Ref.Processes

namespace CycloneCache.Ref.Volume

open Lib Function

def ProcPc.publishing : ProcPc → Option (Record × View)
  | .elected r el => some (r, el.view)
  | .fencedAlternate c => some (c.record, c.view)
  | _ => none

inductive ProcMove (env : Env) (s : State) : ProcAct → ProcPc → State → ProcPc → Prop
  | stop (act : ProcAct) (pc : ProcPc) : ProcMove env s act pc s .idle
  | fillFails {key : CacheKey} {header content : List UInt8} {a : Weather} {s' : State}
      {e : CacheError} :
      env.fillWrite s (plainBuilder key header content) a.gates a.short = (s', .error e) →
      ProcMove env s (.write key header content a) .idle s' .idle
  | fill {key : CacheKey} {header content : List UInt8} {a : Weather} {s' : State} {r : Record} :
      env.fillWrite s (plainBuilder key header content) a.gates a.short = (s', .ok r) →
      ProcMove env s (.write key header content a) .idle s' (.laid r)
  | plan (w : AlternateWrite) (now : Nat) (allowRestart : Bool) :
      ProcMove env s (.writeAlternate w now allowRestart) .idle s
        (env.planCall s w now allowRestart)
  | collect (key : CacheKey) :
      ProcMove env s (.remove key) .idle s (.collected key (env.snapshot s) (env.probe s key))
  | fence {a : Weather} {r : Record} : env.stripe.passOf s.gen = r.pass →
      ProcMove env s (.next a) (.laid r) s (.fenced r)
  | snap (a : Weather) (r : Record) :
      ProcMove env s (.next a) (.fenced r) s (.snapped r (env.snapshot s))
  | probe (a : Weather) (r : Record) (snap : StripeSnapshot) :
      ProcMove env s (.next a) (.snapped r snap) s (.electing r snap (s.versions (bucketIdx r.key))
          (probeEach env.stripe (s.bucket r.key) r.key.tag snap) .start)
  | elect (a : Weather) (r : Record) (snap : StripeSnapshot) (version : Nat)
      (c : DirEntry × AdmitClass) (todo : List (DirEntry × AdmitClass)) (el : Election) :
      ProcMove env s (.next a) (.electing r snap version (c :: todo) el) s
        (.electing r snap version todo (env.electStep s.bytes snap r.key el c))
  | validate {a : Weather} {r : Record} {snap : StripeSnapshot} {version : Nat}
      {el : Election} : s.versions (bucketIdx r.key) = version →
      ProcMove env s (.next a) (.electing r snap version [] el) s (.elected r el)
  | reprobe (a : Weather) (r : Record) (snap : StripeSnapshot) (version : Nat) (el : Election) :
      ProcMove env s (.next a) (.electing r snap version [] el) s (.snapped r snap)
  | retry (a : Weather) (r : Record) (el : Election) :
      ProcMove env s (.next a) (.elected r el) s (.laid r)
  | publish {a : Weather} {r : Record} {el : Election} {b : Bucket} :
      env.publishView s r el.view = .published b →
      ProcMove env s (.next a) (.elected r el) (Env.publishedState s r b) .idle
  | planFails {a : Weather} {w : AlternateWrite} {plan : AltPlan} {d : Document} {old s' : State}
      {allowRestart : Bool} : env.fillPlanned s w plan d old allowRestart a = (s', none) →
      ProcMove env s (.next a) (.planned w plan d old allowRestart) s' .idle
  | fillPlan {a : Weather} {w : AlternateWrite} {plan : AltPlan} {d : Document} {old s' : State}
      {allowRestart : Bool} {c : AltCommit} :
      env.fillPlanned s w plan d old allowRestart a = (s', some c) →
      ProcMove env s (.next a) (.planned w plan d old allowRestart) s' (.laidAlternate c)
  | fenceAlternate {a : Weather} {c : AltCommit} : env.stripe.passOf s.gen = c.record.pass →
      ProcMove env s (.next a) (.laidAlternate c) s (.fencedAlternate c)
  | publishAlternate {a : Weather} {c : AltCommit} {b : Bucket} :
      env.publishView s c.record c.view = .published b →
      ProcMove env s (.next a) (.fencedAlternate c) (Env.publishedState s c.record b)
        (.splicing c.record.key c.pass c.repoints)
  | splice (a : Weather) (key : CacheKey) (pass : Nat) (p : PendingRepoint × Nat)
      (ps : List (PendingRepoint × Nat)) :
      ProcMove env s (.next a) (.splicing key pass (p :: ps))
        (env.repointChainLink s key pass p.1 p.2 a.lockFree) (.splicing key pass ps)
  | read (a : Weather) (key : CacheKey) (snap : StripeSnapshot)
      (found : List (DirEntry × AdmitClass)) :
      ProcMove env s (.next a) (.collected key snap found) s
        (.removing key ((found.filterMap fun c =>
          env.removeCandidate s.bytes snap key c.1 c.2).map Prod.fst))
  | remove (a : Weather) (key : CacheKey) (offsets : List Nat) :
      ProcMove env s (.next a) (.removing key offsets)
        (s.setBucket key (removeAllAt (s.bucket key) key.tag offsets)) .idle

variable {s s' : State}

theorem procNext_move {env : Env} {a : Weather} {pc pc' : ProcPc}
    (h : env.procNext s a pc = some (s', pc')) : ProcMove env s (.next a) pc s' pc' := by
  unfold Env.procNext at h
  split at h
  · cases h
  · split at h <;> cases h
    · exact .stop _ _
    · next hpass =>
      exact .fence (not_not.mp hpass)
  · cases h
    exact .snap a _
  · cases h
    exact .probe a _ _
  · cases h
    exact .elect a _ _ _ _ _ _
  · split at h <;> cases h
    · next hversion =>
      exact .validate hversion
    · exact .reprobe a _ _ _ _
  · split at h <;> cases h
    · exact .retry a _ _
    · exact .stop _ _
    · next b hpub =>
      exact .publish hpub
  · split at h <;> cases h
    · next hfill =>
      exact .planFails hfill
    · next hfill =>
      exact .fillPlan hfill
  · split at h <;> cases h
    · exact .stop _ _
    · next hpass =>
      exact .fenceAlternate (not_not.mp hpass)
  · split at h <;> cases h
    · exact .stop _ _
    · exact .stop _ _
    · next b hpub =>
      exact .publishAlternate hpub
  · cases h
    exact .splice a _ _ (_, _) _
  · cases h
    exact .stop _ _
  · cases h
    exact .read a _ _ _
  · split at h <;> cases h
    · exact .stop _ _
    · exact .remove a _ _

section

variable {P : Type} [DecidableEq P]

theorem procStep_move {env : Env} {sh sh' : Shared P} {p : P} {act : ProcAct}
    (h : env.procStep sh (p, act) = some sh') :
    ∃ s' pc', ProcMove env sh.vol act (sh.pc p) s' pc' ∧ sh' = ⟨s', update sh.pc p pc'⟩ := by
  cases act with simp only [Env.procStep] at h
  | write key header content a =>
    split at h <;> cases h
    · next hpc hfill =>
      rw [hpc]
      exact ⟨_, _, .fill hfill, rfl⟩
    · next hpc hfill =>
      rw [hpc]
      exact ⟨_, _, .fillFails hfill, rfl⟩
  | writeAlternate w now allowRestart =>
    split at h <;> cases h
    next hpc =>
    rw [hpc]
    exact ⟨_, _, .plan w now allowRestart, rfl⟩
  | remove key =>
    split at h <;> cases h
    next hpc =>
    rw [hpc]
    exact ⟨_, _, .collect key, rfl⟩
  | next a =>
    obtain ⟨⟨s', pc'⟩, hnext, rfl⟩ := Option.map_eq_some_iff.mp h
    exact ⟨s', pc', procNext_move hnext, rfl⟩
  | giveUp =>
    cases h
    exact ⟨sh.vol, .idle, .stop _ _, rfl⟩

end

structure Grows (s s' : State) : Prop where
  laid : ∀ r ∈ s.laid, r ∈ s'.laid
  gen_le : s.gen ≤ s'.gen

theorem Grows.refl (s : State) : Grows s s := ⟨fun _ hr => hr, le_rfl⟩

theorem Grows.trans {s'' : State} (h : Grows s s') (h' : Grows s' s'') : Grows s s'' :=
  ⟨fun r hr => h'.laid r (h.laid r hr), le_trans h.gen_le h'.gen_le⟩

structure Quiet (s s' : State) : Prop extends Grows s s' where
  buckets : s'.buckets = s.buckets
  versions : s'.versions = s.versions

theorem Quiet.refl (s : State) : Quiet s s := ⟨.refl s, rfl, rfl⟩

theorem Moved.quiet {env : Env} (h : Moved env s s') : Quiet s s' := by
  refine ⟨⟨fun r hr => ?_, h.gen_le⟩, ?_, ?_⟩ <;> rw [h.frame]
  exact hr

theorem Quiet.trans {s'' : State} (h : Quiet s s') (h' : Quiet s' s'') : Quiet s s'' :=
  ⟨h.toGrows.trans h'.toGrows, h'.buckets.trans h.buckets, h'.versions.trans h.versions⟩

theorem fillSlot_quiet (s : State) (slot : Slot) (bytes : List UInt8) (short : Option Nat)
    (rs ps : List Record) :
    Quiet s { fillSlot s slot bytes short with laid := rs ++ s.laid, pending := ps } := by
  cases short <;> exact ⟨⟨fun _ hr => List.mem_append_right _ hr, le_rfl⟩, rfl, rfl⟩

section

variable {env : Env} {s s' : State} {res : Except CacheError Record}

theorem fillWrite_quiet {b : DocumentBuilder} {gates : Gates} {short : Option Nat}
    (hc : CursorOk env s) (h : env.fillWrite s b gates short = (s', res)) :
    Quiet s s' ∧ ∀ r, res = .ok r → r ∈ s'.laid := by
  rcases fillWrite_cases h hc with ⟨hmoved, e, rfl⟩ | ⟨d, slot, s₁, -, hmoved, -,
    ⟨n, rfl, rfl⟩ | ⟨rfl, rfl, -⟩⟩
  · exact ⟨hmoved.quiet, nofun⟩
  · exact ⟨hmoved.quiet.trans (fillSlot_quiet s₁ slot _ (some n) [] s₁.pending), nofun⟩
  · refine ⟨hmoved.quiet.trans (fillSlot_quiet s₁ slot _ none [_] _), fun r hr => ?_⟩
    cases hr
    exact List.mem_cons_self

theorem fillWrite_plain_ok (h : VolumeOk env s) {key : CacheKey} {header content : List UInt8}
    {gates : Gates} {short : Option Nat}
    (hfill : env.fillWrite s (plainBuilder key header content) gates short = (s', res)) :
    VolumeOk env s' := by
  have hok := fillWrite_ok (b := plainBuilder key header content) h rfl gates short
  rwa [hfill] at hok

variable {a : Weather} {allowRestart : Bool} {d : Document} {old : State} {plan : AltPlan}
  {res : Option AltCommit} {w : AlternateWrite} {pc pc' : ProcPc} {act : ProcAct}

theorem fillPlanned_cases (h : env.fillPlanned s w plan d old allowRestart a = (s', res))
    (hc : CursorOk env s) :
    (Moved env s s' ∧ res = none) ∨
      ∃ slot s₁, Moved env s s₁ ∧ Granted env s₁ (carriedBytes plan.carried + d.len) slot ∧
        ((∃ n, s' = fillSlot s₁ slot (Env.slotImage
              (Env.slotRecords old.bytes w d slot plan (raced env old s₁ plan))) (some n) ∧
            res = none) ∨
          (s' = filledRound env old w plan d slot s₁ ∧
            ∃ repoints, (∀ p ∈ repoints, p ∈ plan.repoints) ∧ res = some ⟨plan.view,
                (Env.slotRecords old.bytes w d slot plan (raced env old s₁ plan)).2, repoints,
                env.stripe.passOf old.gen⟩)) := by
  unfold Env.fillPlanned at h
  cases hslot : env.allocateWriteSlot s (carriedBytes plan.carried + d.len) a.gates with
  | mk s₁ granted =>
    obtain ⟨hmoved, hgrant⟩ := allocateWriteSlot_ok hslot hc
    rw [hslot] at h
    cases granted with
    | error e =>
      cases h
      exact .inl ⟨hmoved, rfl⟩
    | ok slot =>
      simp only [] at h
      split at h
      · cases h
        exact .inl ⟨hmoved, rfl⟩
      · split at h
        · cases h
          exact .inl ⟨hmoved, rfl⟩
        · refine .inr ⟨slot, s₁, hmoved, hgrant slot rfl, ?_⟩
          cases hshort : a.short with rw [hshort] at h
          | some n =>
            cases h
            exact .inl ⟨n, rfl, rfl⟩
          | none =>
            cases h
            refine .inr ⟨rfl, _, ?_, rfl⟩
            intro p hp
            split at hp
            · cases hp
            · exact hp

theorem fillPlanned_quiet (hc : CursorOk env s)
    (h : env.fillPlanned s w plan d old allowRestart a = (s', res)) : Quiet s s' := by
  rcases fillPlanned_cases h hc with ⟨hmoved, -⟩ | ⟨slot, s₁, hmoved, -, ⟨n, rfl, -⟩ | ⟨rfl, -⟩⟩
  · exact hmoved.quiet
  · exact hmoved.quiet.trans (fillSlot_quiet s₁ slot _ (some n) [] s₁.pending)
  · exact hmoved.quiet.trans (fillSlot_quiet s₁ slot _ none (_ :: _) s₁.pending)

structure RepointIn (s : State) (pass : Nat) (p : PendingRepoint × Nat) : Prop where
  pred : ∃ q ∈ s.laid, q.start = p.1.predRel ∧ q.pass = pass
  link : LinkOk s pass p.2

theorem RepointIn.mono {pass : Nat} {p : PendingRepoint × Nat} (h : RepointIn s pass p)
    (hgrow : Grows s s') : RepointIn s' pass p := by
  obtain ⟨q, hq, hrest⟩ := h.pred
  exact ⟨⟨q, hgrow.laid q hq, hrest⟩, h.link.mono hgrow.laid⟩

def PcOk (env : Env) (s : State) : ProcPc → Prop
  | .idle => True
  | .laid r => r ∈ s.laid
  | .fenced r => r ∈ s.laid
  | .snapped r _ => r ∈ s.laid
  | .electing r _ _ _ _ => r ∈ s.laid
  | .elected r _ => r ∈ s.laid
  | .planned w plan d old _ =>
    env.stripe.size ≤ 2 ^ 48 ∧ PlanOk env old w.key plan ∧ Grows old s ∧
      ∃ now, DocumentBuilder.build ⟨w.key, w.header, w.content, w.id, plan.nextLink, now⟩ = some d
  | .laidAlternate c => c.record ∈ s.laid ∧ ∀ p ∈ c.repoints, RepointIn s c.pass p
  | .fencedAlternate c => c.record ∈ s.laid ∧ ∀ p ∈ c.repoints, RepointIn s c.pass p
  | .splicing _ pass ps => ∀ p ∈ ps, RepointIn s pass p
  | .collected _ _ _ => True
  | .removing _ _ => True

theorem PcOk.mono (h : PcOk env s pc) (hgrow : Grows s s') : PcOk env s' pc := by
  cases pc with
  | idle => trivial
  | laid r | fenced r | snapped r snap | electing r snap version todo el | elected r el =>
    exact hgrow.laid r h
  | planned w plan d old allowRestart => exact ⟨h.1, h.2.1, h.2.2.1.trans hgrow, h.2.2.2⟩
  | laidAlternate c | fencedAlternate c =>
    exact ⟨hgrow.laid _ h.1, fun p hp => (h.2 p hp).mono hgrow⟩
  | splicing key pass ps => exact fun p hp => (h p hp).mono hgrow
  | collected key snap found => trivial
  | removing key offsets => trivial

def StartOk (env : Env) (s : State) : ProcAct → Prop
  | .writeAlternate w _ _ => NoImpostor env s w.key ∧ env.stripe.size ≤ 2 ^ 48
  | _ => True

theorem planCall_ok (h : VolumeOk env s)
    (hstart : NoImpostor env s w.key ∧ env.stripe.size ≤ 2 ^ 48) (now : Nat) (allowRestart : Bool) :
    PcOk env s (env.planCall s w now allowRestart) := by
  unfold Env.planCall
  split
  · trivial
  · next plan hplan =>
    split
    · trivial
    · next d hbuild =>
      exact ⟨hstart.2, planAlternate_ok h hstart.2 hstart.1 hplan, .refl s, now, hbuild⟩

inductive DirectoryMove (env : Env) (s : State) (pc : ProcPc) (s' : State) : Prop
  | publish {r : Record} {v : View} {b : Bucket} (hpc : pc.publishing = some (r, v))
      (hpub : env.publishView s r v = .published b)
      (heq : s' = Env.publishedState s r b)
  | remove {key : CacheKey} {offsets : List Nat}
      (heq : s' = s.setBucket key (removeAllAt (s.bucket key) key.tag offsets))

theorem repointChainLink_quiet (key : CacheKey) (pass : Nat) (p : PendingRepoint × Nat)
    (lockFree : Bool) : Quiet s (env.repointChainLink s key pass p.1 p.2 lockFree) := by
  unfold Env.repointChainLink
  obtain ⟨lockGen, heq | ⟨heq, -⟩⟩ := @commitHeaderRmw_cases env s p.1.predRel key p.1.predId
    pass lockFree fun m => writeAt m (p.1.predRel + Document.kNextAlternateOffsetPos)
      (leBytes 8 p.2)
  · rw [heq]
    exact ⟨⟨fun _ hr => hr, le_rfl⟩, rfl, rfl⟩
  · rw [heq]
    exact ⟨⟨fun _ hr => hr, le_rfl⟩, rfl, rfl⟩

theorem ProcMove.directory (hc : CursorOk env s) (h : ProcMove env s act pc s' pc') :
    Quiet s s' ∨ (∃ a, act = .next a) ∧ DirectoryMove env s pc s' := by
  cases h with
  | fillFails hfill | fill hfill => exact .inl (fillWrite_quiet hc hfill).1
  | publish hpub | publishAlternate hpub => exact .inr ⟨⟨_, rfl⟩, .publish rfl hpub rfl⟩
  | remove a key offsets => exact .inr ⟨⟨a, rfl⟩, .remove rfl⟩
  | splice a key pass p ps => exact .inl (repointChainLink_quiet key pass p a.lockFree)
  | planFails hfill | fillPlan hfill => exact .inl (fillPlanned_quiet hc hfill)
  | _ => exact .inl (.refl s)

theorem ProcMove.grows (hc : CursorOk env s) (h : ProcMove env s act pc s' pc') : Grows s s' := by
  rcases h.directory hc with hquiet | ⟨-, ⟨-, -, rfl⟩ | ⟨rfl⟩⟩
  · exact hquiet.toGrows
  · exact ⟨fun _ hr => hr, le_rfl⟩
  · exact ⟨fun _ hr => hr, le_rfl⟩

theorem fillPlanned_ok (h : VolumeOk env s) (hpc : PcOk env s (.planned w plan d old allowRestart))
    (hfill : env.fillPlanned s w plan d old allowRestart a = (s', res)) :
    VolumeOk env s' ∧ ∀ c, res = some c → PcOk env s' (.laidAlternate c) := by
  obtain ⟨hsize, hplan, hgrow, now, hbuild⟩ := hpc
  have hquiet := fillPlanned_quiet h.log.cursor hfill
  rcases fillPlanned_cases hfill h.log.cursor with ⟨hmoved, rfl⟩ | ⟨slot, s₁, hmoved, hgranted,
    ⟨n, rfl, rfl⟩ | ⟨rfl, repoints, hrepoints, rfl⟩⟩
  · exact ⟨h.moved hmoved, nofun⟩
  · have hslot : SlotFill env old w now plan d slot s₁ :=
      ⟨hbuild, hgranted, (hgrow.trans hmoved.quiet.toGrows).laid⟩
    exact ⟨(h.moved hmoved).fillShort hgranted (roundSlot_ok hplan hslot).length n, nofun⟩
  · have hslot : SlotFill env old w now plan d slot s₁ :=
      ⟨hbuild, hgranted, (hgrow.trans hmoved.quiet.toGrows).laid⟩
    refine ⟨filledRound_ok (h.moved hmoved) hsize hplan hslot, fun c hc => ?_⟩
    cases hc
    refine ⟨List.mem_append_left _ List.mem_cons_self, fun p hp => ?_⟩
    obtain ⟨hpred, hlink⟩ := hplan.repoints p (hrepoints p hp)
    exact RepointIn.mono ⟨hpred, hlink⟩ (hgrow.trans hquiet.toGrows)

theorem RepointIn.repointOk {pass : Nat} {p : PendingRepoint × Nat} (h : RepointIn s pass p)
    (hpass : env.stripe.passOf s.gen = pass) : RepointOk env s p := by
  subst hpass
  exact ⟨h.pred, h.link⟩

theorem publishing_laid (h : PcOk env s pc) {r : Record} {v : View}
    (hpc : pc.publishing = some (r, v)) : r ∈ s.laid := by
  cases pc with
  | elected r el =>
    cases hpc
    exact h
  | fencedAlternate c =>
    cases hpc
    exact h.1
  | _ => cases hpc

theorem DirectoryMove.volumeOk (h : VolumeOk env s) (hpc : PcOk env s pc)
    (hmove : DirectoryMove env s pc s') : VolumeOk env s' := by
  cases hmove with
  | publish hp hpub heq =>
    subst heq
    obtain ⟨c, -, hins⟩ := insert_ok hpub
    exact h.publish (publishing_laid hpc hp) hins fun _ hq => hq
  | remove heq =>
    subst heq
    refine h.setBucket _ (fun _ hr => hr) h.dir.published (fun _ hr => hr) ?_
    exact fun e he hne => h.dir.entries _ e (mem_removeAllAt he hne).1 hne

theorem ProcMove.ok (h : VolumeOk env s) (hpc : PcOk env s pc) (hstart : StartOk env s act)
    (hmove : ProcMove env s act pc s' pc') : VolumeOk env s' ∧ PcOk env s' pc' := by
  cases hmove with
  | fillFails hfill => exact ⟨fillWrite_plain_ok h hfill, trivial⟩
  | fill hfill =>
    exact ⟨fillWrite_plain_ok h hfill, (fillWrite_quiet h.log.cursor hfill).2 _ rfl⟩
  | plan w now allowRestart => exact ⟨h, planCall_ok h hstart now allowRestart⟩
  | publish hpub => exact ⟨DirectoryMove.volumeOk h hpc (.publish rfl hpub rfl), trivial⟩
  | publishAlternate hpub =>
    refine ⟨DirectoryMove.volumeOk h hpc (.publish rfl hpub rfl), fun p hp => ?_⟩
    exact (hpc.2 p hp).mono ⟨fun _ hr => hr, le_rfl⟩
  | planFails hfill => exact ⟨(fillPlanned_ok h hpc hfill).1, trivial⟩
  | fillPlan hfill => exact ⟨(fillPlanned_ok h hpc hfill).1, (fillPlanned_ok h hpc hfill).2 _ rfl⟩
  | splice a key pass p ps =>
    have hok := @repointChainLink_ok env key s pass h p
      (fun hsame => (hpc p List.mem_cons_self).repointOk hsame) a.lockFree
    have hquiet := @repointChainLink_quiet env s key pass p a.lockFree
    exact ⟨hok.1, fun q hq => (hpc q (List.mem_cons_of_mem _ hq)).mono hquiet.toGrows⟩
  | remove a key offsets => exact ⟨DirectoryMove.volumeOk h hpc (.remove rfl), trivial⟩
  | stop | collect | read => exact ⟨h, trivial⟩
  | fence | snap | probe | elect | validate | reprobe | retry | fenceAlternate => exact ⟨h, hpc⟩

end

structure ProcsOk {P : Type} (env : Env) (sh : Shared P) : Prop where
  vol : VolumeOk env sh.vol
  pcs : ∀ p, PcOk env sh.vol (sh.pc p)

theorem procsOk_fresh {P : Type} (env : Env) (bytes : Memory) :
    ProcsOk env (Shared.fresh P env bytes) :=
  ⟨volumeOk_fresh env bytes, fun _ => trivial⟩

section

variable {P : Type} [DecidableEq P] {env : Env}

theorem ProcsOk.step {sh sh' : Shared P} {p : P} {act : ProcAct} (h : ProcsOk env sh)
    (hstart : StartOk env sh.vol act) (hstep : env.procStep sh (p, act) = some sh') :
    ProcsOk env sh' := by
  obtain ⟨s', pc', hmove, rfl⟩ := procStep_move hstep
  obtain ⟨hvol, hpc⟩ := hmove.ok h.vol (h.pcs p) hstart
  refine ⟨hvol, fun q => ?_⟩
  show PcOk env s' (update sh.pc p pc' q)
  rw [update_apply]
  split
  · exact hpc
  · exact (h.pcs q).mono (hmove.grows h.vol.log.cursor)

end

end CycloneCache.Ref.Volume

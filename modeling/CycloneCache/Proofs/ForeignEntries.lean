import CycloneCache.Proofs.OneEntry

namespace CycloneCache.Ref.Volume

open Lib Function

def Spares (env : Env) (s : State) (r : Record) (v : View) : Prop :=
  ∀ e ∈ s.bucket r.key, ∀ r', Live env s r' e → r'.key ≠ r.key → e.tag = r.key.tag →
    e.offset ≠ r.start ∧ ¬ v.Decides e.offset

structure ElectionSpares (env : Env) (s : State) (r : Record) (snap : StripeSnapshot)
    (todo : List (DirEntry × AdmitClass)) (el : Election) : Prop where
  shown : ∀ c ∈ todo, c ∈ probeEach env.stripe (s.bucket r.key) r.key.tag snap
  older : ∀ e ∈ s.bucket r.key, ∀ r', Live env s r' e → r'.pass ≤ snap.pass
  spares : Spares env s r el.view

structure SnapOk (env : Env) (s : State) (r : Record) (snap : StripeSnapshot) : Prop where
  laid : r.pass ≤ snap.pass
  pass_le : snap.pass ≤ env.stripe.passOf s.gen
  phase : snap.phase = phaseOf snap.pass

def PcSpares (env : Env) (s : State) : ProcPc → Prop
  | .snapped r snap => SnapOk env s r snap
  | .electing r snap version todo el =>
    SnapOk env s r snap ∧ version ≤ s.versions (bucketIdx r.key) ∧
      (s.versions (bucketIdx r.key) = version → ElectionSpares env s r snap todo el)
  | .elected r el => Spares env s r el.view
  | _ => True

variable {el : Election}

section

variable {env : Env} {s s' : State} {r : Record} {v : View} {snap : StripeSnapshot}

theorem SnapOk.mono (h : SnapOk env s r snap) (hgrow : Grows s s') : SnapOk env s' r snap :=
  ⟨h.laid, le_trans h.pass_le (Stripe.passOf_mono hgrow.gen_le), h.phase⟩

theorem Spares.quiet (h : Spares env s r v) (hv : VolumeOk env s) (hv' : VolumeOk env s')
    (hquiet : Quiet s s') : Spares env s' r v := by
  intro e he r' hlive
  rw [State.bucket, hquiet.buckets] at he
  exact h e he r' (hlive.back hv hquiet.toGrows he (hlive.nonempty hv'))

variable {todo : List (DirEntry × AdmitClass)}

theorem ElectionSpares.quiet (h : ElectionSpares env s r snap todo el) (hv : VolumeOk env s)
    (hv' : VolumeOk env s') (hquiet : Quiet s s') : ElectionSpares env s' r snap todo el := by
  refine ⟨?_, ?_, h.spares.quiet hv hv' hquiet⟩
  · rw [State.bucket, hquiet.buckets]
    exact h.shown
  · intro e he r' hlive
    rw [State.bucket, hquiet.buckets] at he
    exact h.older e he r' (hlive.back hv hquiet.toGrows he (hlive.nonempty hv'))

variable {pc : ProcPc}

theorem PcSpares.quiet (h : PcSpares env s pc) (hv : VolumeOk env s) (hv' : VolumeOk env s')
    (hquiet : Quiet s s') : PcSpares env s' pc := by
  cases pc with
  | snapped r snap => exact SnapOk.mono h hquiet.toGrows
  | electing r snap version todo el =>
    obtain ⟨hsnap, hle, hspares⟩ := h
    refine ⟨hsnap.mono hquiet.toGrows, ?_, ?_⟩
    · rw [hquiet.versions]
      exact hle
    · rw [hquiet.versions]
      exact fun hversion => (hspares hversion).quiet hv hv' hquiet
  | elected r el => exact Spares.quiet h hv hv' hquiet
  | _ => trivial

theorem DirectoryMove.versions (h : DirectoryMove env s pc s') (k : Nat) :
    (s'.buckets k = s.buckets k ∧ s'.versions k = s.versions k) ∨
      s'.versions k = s.versions k + 2 := by
  have hset : ∀ (key : CacheKey) (b : Bucket), ((s.setBucket key b).buckets k = s.buckets k ∧
      (s.setBucket key b).versions k = s.versions k) ∨
        (s.setBucket key b).versions k = s.versions k + 2 := by
    intro key b
    simp only [State.setBucket, update_apply]
    split
    · next hk => exact .inr (by rw [hk])
    · exact .inl ⟨rfl, rfl⟩
  rcases h with ⟨-, -, rfl⟩ | ⟨rfl⟩ <;> exact hset _ _

def ProcPc.electedView : ProcPc → Option (Record × View)
  | .elected r el => some (r, el.view)
  | _ => none

def Aside (x y : Record × View) : Prop :=
  y.1.key ≠ x.1.key → bucketIdx y.1.key = bucketIdx x.1.key → y.1.key.tag = x.1.key.tag →
    x.1.start ≠ y.1.start ∧ ¬ y.2.Decides x.1.start

theorem Spares.directory (h : Spares env s r v) (hv' : VolumeOk env s')
    (hmove : DirectoryMove env s pc s') (hnew : ∀ x, pc.publishing = some x → Aside x (r, v)) :
    Spares env s' r v := by
  intro e he r' hlive hkey htag
  obtain ⟨i, hi⟩ := List.mem_iff_getElem?.mp he
  rcases hmove.entry hi (hlive.nonempty hv') with hold | ⟨r₁, v₁, hpc, hidx, hstored⟩
  · exact h e (List.mem_of_getElem? hold) r' (hmove.live hlive) hkey htag
  · obtain rfl : r' = r₁ := Option.some.inj (hlive.entry.origin.symm.trans hstored.origin)
    rw [← hlive.whole]
    refine hnew (r', v₁) hpc hkey.symm hidx ?_
    rw [← htag, hlive.entry.tag]

theorem PcSpares.directory {pc₁ : ProcPc} (h : PcSpares env s pc) (hv' : VolumeOk env s')
    (hmove : DirectoryMove env s pc₁ s')
    (hnew : ∀ x, pc₁.publishing = some x → ∀ y, pc.electedView = some y → Aside x y) :
    PcSpares env s' pc := by
  cases pc with
  | snapped r snap => exact SnapOk.mono h hmove.grows
  | electing r snap version todo el =>
    obtain ⟨hsnap, hle, hspares⟩ := h
    refine ⟨hsnap.mono hmove.grows, ?_⟩
    rcases hmove.versions (bucketIdx r.key) with ⟨hbucket, hversion⟩ | hversion
    · rw [hversion]
      refine ⟨hle, fun hsame => ?_⟩
      obtain ⟨hshown, holder, hsp⟩ := hspares hsame
      refine ⟨?_, ?_, ?_⟩
      · rw [State.bucket, hbucket]
        exact hshown
      · intro e he r' hlive
        rw [State.bucket, hbucket] at he
        exact holder e he r' (hmove.live hlive)
      · intro e he r' hlive
        rw [State.bucket, hbucket] at he
        exact hsp e he r' (hmove.live hlive)
    · -- the probe is void
      refine ⟨by omega, fun hsame => ?_⟩
      omega
  | elected r el =>
    exact Spares.directory h hv' hmove fun x hx => hnew x hx (r, el.view) rfl
  | _ => trivial

theorem spares_probe (hv : VolumeOk env s) (hr : r ∈ s.laid)
    (hpass : env.stripe.passOf s.gen = r.pass) : Spares env s r Election.start.view := by
  intro e he r' hlive hkey _
  refine ⟨fun hoff => ?_, ?_⟩
  · have hk : Kept env s r := kept_of_current hpass.symm
    exact hkey (congrArg Record.key (hlive.record_unique hv hr hk hoff.symm)).symm
  · rintro (h | h)
    · cases h
    · cases h

theorem Live.expectedPass {r' : Record} {e : DirEntry} (hlive : Live env s r' e)
    (hv : VolumeOk env s) (hsnap : SnapOk env s r snap) (hold : r'.pass ≤ snap.pass)
    {cls : AdmitClass} (hadm : env.stripe.admitPosition e.offset e.phase snap = cls)
    (hcls : cls ≠ .kReject) : r'.pass = Stripe.expectedPass cls snap := by
  have hphase := hsnap.phase
  have hrecent : snap.pass ≤ r'.pass + 1 := by
    have hle := hsnap.pass_le
    rcases hv.log.kept_cases hlive.laid hlive.kept with h | ⟨-, h, -⟩ <;> omega
  have hentry := hlive.entry.phase
  cases cls with
  | kReject => exact absurd rfl hcls
  | kCurrent =>
    have hsame := (Stripe.admitPosition_kCurrent.mp hadm).2.1
    rw [hentry, hphase, phaseOf_eq] at hsame
    show r'.pass = snap.pass
    omega
  | kRetained =>
    have hdiff := (Stripe.admitPosition_kRetained.mp hadm).2.1
    rw [hentry, hphase, ne_eq, phaseOf_eq] at hdiff
    show r'.pass = snap.pass - 1
    omega

theorem ElectionSpares.electStep {c : DirEntry × AdmitClass}
    (h : ElectionSpares env s r snap (c :: todo) el) (hv : VolumeOk env s) (hspread : Spread s)
    (hsnap : SnapOk env s r snap) :
    ElectionSpares env s r snap todo (env.electStep s.bytes snap r.key el c) := by
  refine ⟨fun c' hc' => h.shown c' (List.mem_cons_of_mem _ hc'), h.older, ?_⟩
  intro e he r' hlive hkey htag
  obtain ⟨hoff, hnot⟩ := h.spares e he r' hlive hkey htag
  refine ⟨hoff, fun hdec => hnot ?_⟩
  by_cases hsame : e.offset = c.1.offset
  · -- it is the entry the header is read for
    obtain ⟨hmem, hne, htag', hadm, hcls⟩ := mem_probeEach.mp (h.shown c List.mem_cons_self)
    obtain rfl : e = c.1 := hspread.eq_of_offset he hmem (hlive.nonempty hv) hne
      (htag.trans htag'.symm) hsame
    obtain ⟨hvalid, hfirst, hstamp, hbinds⟩ := hlive.header hv
    have hpass := hlive.expectedPass hv hsnap (h.older c.1 he r' hlive) hadm hcls
    refine electStep_foreign hvalid ?_ hbinds ?_ hdec
    · rw [hstamp, Stripe.stampAdmits, hpass, beq_self_eq_true, Bool.or_true]
    · rw [hfirst]
      exact fun heq => hkey (BitVec.eq_of_toNat_eq heq)
  · exact electStep_only hdec hsame

def ProcPc.probing : ProcPc → Option Record
  | .snapped r _ => some r
  | _ => none

def ProbeOk (env : Env) (s : State) (pc : ProcPc) : Prop :=
  ∀ r ∈ pc.probing, env.stripe.passOf s.gen = r.pass

theorem ProcMove.spares {act : ProcAct} {pc' : ProcPc} (hv : VolumeOk env s) (hspread : Spread s)
    (hpc : PcOk env s pc) (h : PcSpares env s pc) (hprobe : ∀ a, act = .next a → ProbeOk env s pc)
    (hmove : ProcMove env s act pc s' pc') : PcSpares env s' pc' := by
  cases hmove with
  | plan w now allowRestart =>
    unfold Env.planCall
    split
    · trivial
    · split <;> trivial
  | snap a r => exact ⟨(hv.log.placed r hpc).pass_le, le_rfl, rfl⟩
  | probe a r snap =>
    have hpass : env.stripe.passOf s.gen = r.pass := hprobe a rfl r rfl
    refine ⟨h, le_rfl, fun _ => ⟨fun _ hc => hc, ?_, spares_probe hv hpc hpass⟩⟩
    intro e he r' hlive
    have hle := (hv.log.placed r' hlive.laid).pass_le
    have hlaid := h.laid
    omega
  | elect a r snap version c todo el =>
    exact ⟨h.1, h.2.1, fun hversion => (h.2.2 hversion).electStep hv hspread h.1⟩
  | validate hversion => exact (h.2.2 hversion).spares
  | reprobe a r snap version el => exact h.1
  | _ => trivial

end

section

variable {P : Type} {env : Env}

def PublishAside (sh : Shared P) (p : P) : Prop :=
  ∀ x ∈ (sh.pc p).publishing, x.1.start < 2 ^ 40 ∧
    ∀ q, q ≠ p → ∀ y ∈ (sh.pc q).electedView, Aside x y

def SparesOk (env : Env) (sh : Shared P) : P × ProcAct → Prop
  | (p, .next _) => ProbeOk env sh.vol (sh.pc p) ∧ PublishAside sh p
  | (_, act) => StartOk env sh.vol act

theorem SparesOk.startOk {sh : Shared P} {p : P} {act : ProcAct}
    (h : SparesOk env sh (p, act)) : StartOk env sh.vol act := by
  cases act with
  | next => trivial
  | _ => exact h

structure SparesInv (env : Env) (sh : Shared P) : Prop where
  procs : ProcsOk env sh
  spread : Spread sh.vol
  pcs : ∀ p, PcSpares env sh.vol (sh.pc p)

theorem sparesInv_fresh (bytes : Memory) : SparesInv env (Shared.fresh P env bytes) :=
  ⟨procsOk_fresh env bytes, spread_fresh env bytes, fun _ => trivial⟩

variable [DecidableEq P]

theorem SparesInv.step {sh sh' : Shared P} {l : P × ProcAct} (h : SparesInv env sh)
    (hok : SparesOk env sh l) (hstep : env.procStep sh l = some sh') : SparesInv env sh' := by
  obtain ⟨p, act⟩ := l
  have hprocs := h.procs.step hok.startOk hstep
  obtain ⟨s', pc', hmove, rfl⟩ := procStep_move hstep
  have hv := h.procs.vol
  have hv' : VolumeOk env s' := hprocs.vol
  have hown : PcSpares env s' pc' := by
    refine hmove.spares hv h.spread (h.procs.pcs p) (h.pcs p) ?_
    rintro a rfl
    exact hok.1
  have hpcs : (∀ q, q ≠ p → PcSpares env s' (sh.pc q)) →
      ∀ q, PcSpares env s' (update sh.pc p pc' q) := by
    intro hothers q
    rw [update_apply]
    split
    · exact hown
    · next hq => exact hothers q hq
  rcases hmove.directory hv.log.cursor with hquiet | ⟨⟨a, rfl⟩, hdir⟩
  · exact ⟨hprocs, h.spread.quiet hquiet, hpcs fun q _ => (h.pcs q).quiet hv hv' hquiet⟩
  · refine ⟨hprocs, hdir.spread h.spread fun r v hpc => (hok.2 (r, v) hpc).1, hpcs ?_⟩
    exact fun q hq => (h.pcs q).directory hv' hdir fun x hx => (hok.2 x hx).2 q hq

end

instance (x y : Record × View) : Decidable (Aside x y) :=
  inferInstanceAs (Decidable (_ → _ → _ → _ ∧ ¬ _))

instance (env : Env) (s : State) (pc : ProcPc) : Decidable (ProbeOk env s pc) :=
  inferInstanceAs (Decidable (∀ r ∈ pc.probing, _))

instance (sh : Shared Bool) (p : Bool) : Decidable (PublishAside sh p) :=
  inferInstanceAs (Decidable (∀ x ∈ (sh.pc p).publishing, _))

def sparesOkB (env : Env) (sh : Shared Bool) : Bool × ProcAct → Bool
  | (p, .next _) => decide (ProbeOk env sh.vol (sh.pc p) ∧ PublishAside sh p)
  | (_, .writeAlternate ..) => false
  | _ => true

theorem sparesOkB_sound (env : Env) (sh : Shared Bool) (l : Bool × ProcAct)
    (h : sparesOkB env sh l = true) : SparesOk env sh l := by
  obtain ⟨p, act⟩ := l
  cases act with
  | next a =>
    have hboth : ProbeOk env sh.vol (sh.pc p) ∧ PublishAside sh p := of_decide_eq_true h
    exact hboth
  | writeAlternate w now allowRestart => cases h
  | _ => trivial

def fullBucket : List (Bool × ProcAct) :=
  (false, .write 5 [] [] calm) :: goes false 5 ++ (true, .write 6 [] [] calm) :: goes true 6 ++
    (false, .write 7 [] [] calm) :: goes false 7 ++ (true, .write 8 [] [] calm) :: goes true 8 ++
    (true, .write 10 [] [] calm) :: (false, .write 9 [] [] calm) :: goes false 8 ++ goes true 8

def electedFor (sh : Shared Bool) (p : Bool) (test : Record → Election → Bool) : Bool :=
  match sh.pc p with
  | .elected r el => test r el
  | _ => false

theorem electedFor_true {sh : Shared Bool} {p : Bool} {test : Record → Election → Bool}
    (h : electedFor sh p test = true) : ∃ r el, sh.pc p = .elected r el ∧ test r el = true := by
  unfold electedFor at h
  split at h
  · next r el hpc => exact ⟨r, el, hpc, h⟩
  · cases h

def destroysFirst (env : Env) (s : State) (mine other : CacheKey) (r : Record) (el : Election) :
    Bool :=
  decide (r.key = mine) && match env.publishView s r el.view with
    | .published b => (s.bucket mine)[0]?.any fun e =>
      decide (b[0]? ≠ some e) && decide (Resolves env s other e .kCurrent)
    | _ => false

theorem destroysFirst_true {env : Env} {s : State} {mine other : CacheKey} {r : Record}
    (h : destroysFirst env s mine other r el = true) :
    r.key = mine ∧ ∃ b e, env.publishView s r el.view = .published b ∧
      (s.bucket r.key)[0]? = some e ∧ b[0]? ≠ some e ∧ Resolves env s other e .kCurrent := by
  rw [destroysFirst, Bool.and_eq_true] at h
  obtain ⟨hkey, h⟩ := h
  have hkey := of_decide_eq_true hkey
  split at h
  · next b hpub =>
    obtain ⟨e, he, htest⟩ := (Option.any_eq_true _ _).mp h
    rw [Bool.and_eq_true] at htest
    exact ⟨hkey, b, e, hpub, hkey ▸ he, of_decide_eq_true htest.1, of_decide_eq_true htest.2⟩
  · cases h

end CycloneCache.Ref.Volume

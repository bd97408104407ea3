import CycloneCache.Proofs.Reads

namespace CycloneCache.Ref.Volume

open Lib

variable {env : Env} {s : State}

theorem readDisk_record {key : CacheKey} {h : ReadHandle} (hv : VolumeOk env s)
    (hno : NoImpostor env s key) (hread : env.readDisk s key = .ok h) :
    ∃ r ∈ s.published, r.key = key ∧ Kept env s r ∧ h.placement = some r.start ∧
      h.doc.SameOutsideInPlace r.doc ∧ h.header = r.header ∧ h.content = r.content := by
  obtain ⟨⟨e, cls⟩, hc, hserved⟩ := readDisk_served hread
  obtain ⟨hleads, -⟩ := readCandidate_leads hserved
  obtain ⟨r, hr, hentry, hstart, hpass, hk⟩ := fresh_record hv hc (hno _ hc hleads)
  have hp := hv.log.placed r (hv.dir.published r hr)
  have hintact := hp.intact hk
  have hkey : r.key = key := by
    refine BitVec.eq_of_toNat_eq ?_
    rw [← hp.ok.key, ← hintact.header.fields.2.2.1, hstart]
    exact hleads.key
  obtain ⟨-, -, -, -, hne⟩ := mem_probeEach.mp hc
  have hcand := readCandidate_intact hp.ok hintact hp.aligned hp.stop_le hstart.symm
    hentry.fillSerial (admitDocument_kept hne hpass hp.stamp hk)
  rw [hkey] at hcand
  have heq := hcand.symm.trans hserved
  split at heq <;> cases heq
  exact ⟨r, hr, hkey, hk, rfl, hintact.header, rfl, rfl⟩

def VolumeOp.plain : VolumeOp → Bool
  | .writeAlternate .. => false
  | _ => true

def FilledBy (ops : List VolumeOp) (r : Record) : Prop :=
  ∃ header content gates d slot, .fill r.key header content gates none ∈ ops ∧
    (plainBuilder r.key header content).build = some d ∧
    r = recordOf (plainBuilder r.key header content) d slot

structure AllFilled (env : Env) (ops : List VolumeOp) (s : State) : Prop where
  cursor : CursorOk env s
  pending : ∀ r ∈ s.pending, FilledBy ops r
  published : ∀ r ∈ s.published, FilledBy ops r

variable {ops : List VolumeOp}

theorem AllFilled.frame {s' : State} (h : AllFilled env ops s) (hcursor : CursorOk env s')
    (hpending : s'.pending = s.pending) (hpublished : s'.published = s.published) :
    AllFilled env ops s' :=
  ⟨hcursor, hpending ▸ h.pending, hpublished ▸ h.published⟩

theorem step_allFilled {s' : State} {op : VolumeOp} (hplain : op.plain = true) (hmem : op ∈ ops)
    (h : AllFilled env ops s) (hstep : env.step s op = some s') : AllFilled env ops s' := by
  have hcursor := step_cursorOk h.cursor hstep
  cases op with
  | fill key header content gates short =>
    cases hstep
    generalize hres : env.fillWrite s (plainBuilder key header content) gates short = out
      at hcursor ⊢
    obtain ⟨s', res⟩ := out
    rcases fillWrite_cases hres h.cursor with ⟨hmoved, -⟩ | ⟨d, slot, s₁, hbuild, hmoved, hg,
      ⟨n, rfl, -⟩ | ⟨rfl, -, rfl⟩⟩
    · exact h.frame hcursor (by rw [hmoved.frame]) (by rw [hmoved.frame])
    · exact h.frame hcursor (by rw [hmoved.frame]; rfl) (by rw [hmoved.frame]; rfl)
    · have hframe := hmoved.frame
      refine ⟨hcursor, List.forall_mem_cons.mpr ⟨?_, ?_⟩, ?_⟩
      · exact ⟨header, content, gates, d, slot, hmem, hbuild, rfl⟩
      · rw [hframe]
        exact h.pending
      · show ∀ r ∈ s₁.published, _
        rw [hframe]
        exact h.published
  | publish i =>
    obtain ⟨r, hr, rfl⟩ := Option.map_eq_some_iff.mp hstep
    generalize hres : env.publishWrite s r = out at hcursor ⊢
    obtain ⟨s', res⟩ := out
    rcases publishWrite_cases hres with ⟨rfl, -⟩ | ⟨-, -, b, slot, -, rfl⟩
    · exact h
    · refine ⟨hcursor, fun q hq => h.pending q (List.mem_of_mem_erase hq),
        List.forall_mem_cons.mpr ⟨h.pending r (List.mem_of_getElem? hr), h.published⟩⟩
  | writeAlternate w allowRestart a => cases hplain
  | remove key =>
    cases hstep
    obtain ⟨_, _, _, hframe⟩ := removeSync_frame env s key
    exact h.frame hcursor (by rw [hframe]) (by rw [hframe])
  | read key =>
    cases hstep
    obtain ⟨_, hframe⟩ := readSync_frame env s key
    exact h.frame hcursor (by rw [hframe]) (by rw [hframe])
  | readAlternate key id =>
    cases hstep
    obtain ⟨_, hframe⟩ := readAlternateSync_frame env s key id
    exact h.frame hcursor (by rw [hframe]) (by rw [hframe])
  | hit key id delta lastAccess lockFree =>
    cases hstep
    obtain ⟨_, _, hframe⟩ := updateHitCountSync_frame env s key id delta lastAccess lockFree
    exact h.frame hcursor (by rw [hframe]) (by rw [hframe])
  | ramEvict key id =>
    cases hstep
    exact h.frame hcursor rfl rfl

theorem allFilled_run {bytes : Memory} (hplain : ∀ op ∈ ops, op.plain = true)
    (hrun : runs env.step (State.fresh env bytes) ops = some s) : AllFilled env ops s := by
  refine runs_inv_mem ?_ hrun ?_
  · exact fun op hop s s' hi hstep => step_allFilled (hplain op hop) hop hi hstep
  · exact ⟨cursorOk_fresh env bytes, fun _ hr => absurd hr List.not_mem_nil,
      fun _ hr => absurd hr List.not_mem_nil⟩

/-- In a run of plain calls, what a read returns from disk is the document
that a write of the key built, up to the fields stored in place, and the
publish of that document was made. -/
theorem readDisk_authentic {env : Env} {bytes : Memory} {ops : List VolumeOp} {s : State}
    {key : CacheKey} {h : ReadHandle} (hplain : ∀ op ∈ ops, op.plain = true)
    (hok : StepsOk env.step (CallOk env) (State.fresh env bytes) ops)
    (hrun : runs env.step (State.fresh env bytes) ops = some s)
    (hno : NoImpostor env s key) (hread : env.readDisk s key = .ok h) :
    ∃ r ∈ s.published, r.key = key ∧ FilledBy ops r ∧ h.placement = some r.start ∧
      h.doc.SameOutsideInPlace r.doc ∧ h.header = r.header ∧ h.content = r.content := by
  obtain ⟨r, hr, hkey, -, hbytes⟩ := readDisk_record (volumeOk_run hok hrun) hno hread
  exact ⟨r, hr, hkey, (allFilled_run hplain hrun).published r hr, hbytes⟩

def allFresh (env : Env) (s : State) (key : CacheKey) : Bool :=
  (env.probe s key).all fun c => c.1.origin.any fun r =>
    r.start == c.1.offset && r.pass == Stripe.expectedPass c.2 (env.snapshot s)

theorem noImpostor_of_allFresh {key : CacheKey} (h : allFresh env s key = true) :
    NoImpostor env s key := by
  intro c hc _
  obtain ⟨r, hr, hfresh⟩ := (Option.any_eq_true _ _).mp (List.all_eq_true.mp h c hc)
  rw [Bool.and_eq_true, beq_iff_eq, beq_iff_eq] at hfresh
  exact ⟨r, hr, hfresh⟩

def tightVolume (verifyChecksumOnRead : Bool) : Env :=
  initStripe ⟨kVolumeHeaderSize + 655360 + 704, 1, false, false⟩
    ⟨⟨1, 1, 64, false, Nat.one_pos⟩, verifyChecksumOnRead, true, 0, false, true, false⟩ 0
    (by decide) (by decide)

def plainWrite (key : CacheKey) (content : List UInt8) : List VolumeOp :=
  [.fill key [] content openGates none, .publish 0]

theorem readDisk_authentic_small :
    ∃ s h, runs (tightVolume false).step (State.fresh (tightVolume false) fun _ => 0)
        (plainWrite 5 [1]) = some s ∧
      (tightVolume false).readDisk s 5 = .ok h ∧ h.content = [1] ∧
      ∃ r ∈ s.published, r.key = 5 ∧ FilledBy (plainWrite 5 [1]) r ∧
        h.placement = some r.start ∧ h.doc.SameOutsideInPlace r.doc ∧ h.header = r.header ∧
        h.content = r.content := by
  obtain ⟨s, hs, hfresh, h, hread, hcontent⟩ : ∃ s, runs (tightVolume false).step
      (State.fresh (tightVolume false) fun _ => 0) (plainWrite 5 [1]) = some s ∧
      allFresh (tightVolume false) s 5 ∧
      ∃ h, (tightVolume false).readDisk s 5 = .ok h ∧ h.content = [1] := by decide +kernel
  refine ⟨s, h, hs, hread, hcontent, ?_⟩
  exact readDisk_authentic (by decide) (stepsOk_of_forall fun op hop =>
    callOk_of_not_storesAlong ((by decide : ∀ op ∈ plainWrite 5 [1], op.storesAlong = false)
      op hop)) hs (noImpostor_of_allFresh hfresh) hread

def forgery (key : CacheKey) (content : List UInt8) : List UInt8 :=
  ((plainBuilder key [] content).build.map fun d => d.serialize ++ content).getD []

def forgeryRun : List VolumeOp :=
  plainWrite (2 ^ 40) [0, 0, 0, 0] ++ plainWrite 5 [1] ++
    plainWrite (2 ^ 40) (List.replicate 310 0) ++
    plainWrite (2 ^ 40) ([0, 0, 0, 0] ++ forgery 5 [9])

theorem forgery_record (start : Nat) :
    ∃ r, RecordOk r ∧ r.key = 5 ∧ r.start = start ∧ r.content = [9] ∧
      r.doc.fillSerial = 0 ∧ r.doc.writeSerial = 0 ∧ r.doc.len = 133 ∧
      Record.image r = forgery 5 [9] := by
  obtain ⟨d, hd⟩ : ∃ d, (plainBuilder 5 [] [9]).build = some d := ⟨_, if_neg (by decide)⟩
  let slot : Slot := ⟨start, 0, 0, 0, 0⟩
  refine ⟨recordOf (plainBuilder 5 [] [9]) d slot,
    recordOf_ok hd (by decide) (Nat.two_pow_pos 16), rfl, rfl, rfl, rfl, rfl, length_build hd, ?_⟩
  have hstamps : stamped d slot = d := by
    rw [DocumentBuilder.build, if_neg (by decide)] at hd
    cases hd
    rfl
  show (stamped d slot).serialize ++ [] ++ [9] = _
  rw [hstamps, forgery, hd, List.append_nil]
  rfl

def overForgery (env : Env) (s : State) : Bool :=
  decide ((env.probe s 5).map (fun c => (c.1.offset, c.1.approxSize, c.1.fillSerial, c.2)) =
    [(655496, 512, 0, .kCurrent)]) &&
  decide (∃ r ∈ s.published, r.start = 655360 ∧ r.pass = env.stripe.passOf s.gen ∧
    r.content.length = 137) &&
  (env.stripe.admitDocument (env.snapshot s) .kCurrent 655496 0).isSome &&
  decide (∀ r ∈ s.published, r.key = 5 → r.content = [1])

theorem forged_document_served : ∃ ops s h, (∀ op ∈ ops, op.plain = true) ∧
      runs (tightVolume true).step (State.fresh (tightVolume true) fun _ => 0) ops = some s ∧
      (tightVolume true).readDisk s 5 = .ok h ∧
      ∀ r ∈ s.published, r.key = 5 → h.content ≠ r.content := by
  obtain ⟨s, hs, hover⟩ : ∃ s, runs (tightVolume true).step
      (State.fresh (tightVolume true) fun _ => 0) forgeryRun = some s ∧
      overForgery (tightVolume true) s := by decide +kernel
  have hplain : ∀ op ∈ forgeryRun, op.plain = true := by decide +kernel
  have hcalls : ∀ op ∈ forgeryRun, op.storesAlong = false := by decide +kernel
  simp only [overForgery, Bool.and_eq_true, decide_eq_true_eq] at hover
  obtain ⟨⟨⟨hprobe, q, hq, hqstart, hqpass, hqlen⟩, hadm⟩, hpub⟩ := hover
  have hv := volumeOk_run (stepsOk_of_forall fun op hop =>
    callOk_of_not_storesAlong (hcalls op hop)) hs
  -- the last document is intact, and its content is the forgery behind a word
  have hq₁ := hv.log.placed q (hv.dir.published q hq)
  have hintact := hq₁.intact (kept_of_current hqpass)
  obtain ⟨header, content, gates, d, slot, hmem, -, hrec⟩ :=
    (allFilled_run hplain hs).published q hq
  have hparts : q.header = [] ∧ q.content = [0, 0, 0, 0] ++ forgery 5 [9] := by
    rw [hrec] at hqlen ⊢
    simp only [forgeryRun, plainWrite, List.mem_append, List.mem_cons, List.not_mem_nil,
      VolumeOp.fill.injEq, reduceCtorEq, or_false] at hmem
    rcases hmem with ((h | h) | h) | h <;> obtain ⟨-, rfl, rfl, -⟩ := h
    · cases hqlen
    · cases hqlen
    · rw [recordOf, plainBuilder, List.length_replicate] at hqlen
      cases hqlen
    · exact ⟨rfl, rfl⟩
  obtain ⟨r, hr, hrkey, hrstart, hrcontent, hrserial, hrstamp, hrlen, himage⟩ :=
    forgery_record 655496
  have hforged : Intact s.bytes r := by
    refine intact_of_holds hr ?_
    have hpayload := hintact.payload
    rw [hparts.1, hparts.2, List.nil_append, holds_append, hqstart] at hpayload
    rw [himage, hrstart]
    exact hpayload.2
  obtain ⟨c, hc, hprobe⟩ := List.map_eq_singleton_iff.mp hprobe
  simp only [Prod.mk.injEq] at hprobe
  obtain ⟨hoff, happrox, hserial, hcls⟩ := hprobe
  have hserved := @readCandidate_intact (tightVolume true) s.bytes c.2
    ((tightVolume true).snapshot s) c.1 r hr hforged (by rw [hrstart])
    (by rw [Record.stop, hrstart, hrlen]; decide +kernel) (hoff.trans hrstart.symm)
    (hserial.trans hrserial.symm) (by rw [hcls, hrstart, hrstamp]; exact hadm)
  rw [hrkey, happrox, hrstart, hrcontent, if_pos (by decide +kernel)] at hserved
  have hread : (tightVolume true).readDisk s 5 = .ok
      ⟨some 655496, Document.deserialize s.bytes 655496, r.header, [9]⟩ := by
    rw [Env.readDisk, hc, List.map_singleton, hserved]
    rfl
  refine ⟨forgeryRun, s, _, hplain, hs, hread, fun q hq hkey => ?_⟩
  rw [hpub q hq hkey]
  show ([9] : List UInt8) ≠ [1]
  decide

end CycloneCache.Ref.Volume

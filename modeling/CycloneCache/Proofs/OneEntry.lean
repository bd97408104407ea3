import CycloneCache.Proofs.LiveEntries
import CycloneCache.Proofs.Reservations

namespace CycloneCache.Ref.Volume

open Lib Function

def View.Decides (v : View) (o : Nat) : Prop := v.verified = some o ∨ o ∈ v.clears

instance (v : View) (o : Nat) : Decidable (v.Decides o) := inferInstanceAs (Decidable (_ ∨ _))

def ProcPc.pending : ProcPc → Option (CacheKey × View)
  | .electing r _ _ _ el => some (r.key, el.view)
  | .elected r el => some (r.key, el.view)
  | .planned w plan _ _ _ => some (w.key, plan.view)
  | .laidAlternate c => some (c.record.key, c.view)
  | .fencedAlternate c => some (c.record.key, c.view)
  | _ => none

def ViewDecides (env : Env) (s : State) (key : CacheKey) (v : View) : Prop :=
  ∀ e ∈ s.bucket key, ∀ r, Live env s r e → r.key = key → e.offset ∈ v.seen → v.Decides e.offset

variable {pc : ProcPc} {r : Record}

theorem publishing_pending {v : View} (h : pc.publishing = some (r, v)) :
    pc.pending = some (r.key, v) := by
  cases pc with
  | elected r el | fencedAlternate c =>
    cases h
    rfl
  | _ => cases h

section

variable {env : Env} {s s' : State} {key : CacheKey} {v : View}

theorem ViewDecides.quiet (h : ViewDecides env s key v) (hv : VolumeOk env s)
    (hv' : VolumeOk env s') (hquiet : Quiet s s') : ViewDecides env s' key v := by
  intro e he r hlive hkey hseen
  rw [State.bucket, hquiet.buckets] at he
  exact h e he r (hlive.back hv hquiet.toGrows he (hlive.nonempty hv')) hkey hseen

theorem DirectoryMove.grows (h : DirectoryMove env s pc s') : Grows s s' := by
  rcases h with ⟨-, -, rfl⟩ | ⟨rfl⟩ <;> exact ⟨fun _ hr => hr, le_rfl⟩

theorem ViewDecides.directory (h : ViewDecides env s key v) (hv : VolumeOk env s)
    (hv' : VolumeOk env s') (hmove : DirectoryMove env s pc s')
    (hnew : ∀ r v', pc.publishing = some (r, v') → r.key = key → r.start ∈ v.seen →
      v.Decides r.start) : ViewDecides env s' key v := by
  intro e he r hlive hkey hseen
  obtain ⟨i, hi⟩ := List.mem_iff_getElem?.mp he
  have hne := hlive.nonempty hv'
  rcases hmove.entry hi hne with hold | ⟨r', v', hpc, -, hstored⟩
  · have hmem := List.mem_of_getElem? hold
    exact h e hmem r (hlive.back hv hmove.grows hmem hne) hkey hseen
  · obtain rfl : r = r' := Option.some.inj (hlive.entry.origin.symm.trans hstored.origin)
    rw [← hlive.whole] at hseen ⊢
    exact hnew r v' hpc hkey hseen

theorem viewDecides_start (env : Env) (s : State) (key : CacheKey) :
    ViewDecides env s key Election.start.view :=
  fun _ _ _ _ _ hseen => absurd hseen List.not_mem_nil

theorem ViewDecides.electStep {snap : StripeSnapshot} {el : Election}
    (h : ViewDecides env s key el.view) (hv : VolumeOk env s) (c : DirEntry × AdmitClass) :
    ViewDecides env s key (env.electStep s.bytes snap key el c).view := by
  obtain ⟨hsee, hkeep, hnew⟩ := @electStep_decides env key s.bytes snap el c.1 c.2
  intro e he r hlive hkey hseen
  by_cases hsame : e.offset = c.1.offset
  · obtain ⟨hvalid, hfirst, -, -⟩ := hlive.header hv
    have hmap := hlive.mapRegion hv
    rw [hsame, hkey] at hfirst
    rw [hsame] at hvalid hmap ⊢
    exact hnew hmap hvalid hfirst
  · refine hkeep e.offset (h e he r hlive hkey ?_)
    change e.offset ∈ (env.electStep s.bytes snap key el c).seen at hseen
    rw [hsee] at hseen
    exact Election.of_mem_see hseen hsame

theorem viewDecides_plan (hv : VolumeOk env s) {w : AlternateWrite} {docSize : Nat} {plan : AltPlan}
    (hplan : env.planAlternate s w docSize = .ok plan) : ViewDecides env s w.key plan.view := by
  intro e he r hlive hkey _
  obtain ⟨cls, hprobe, -, hleads⟩ := leads_of_kept hv.log hlive.laid hlive.kept hlive.entry
    hlive.whole (hkey.symm ▸ he)
  rw [hkey] at hprobe hleads
  exact planAlternate_decides hplan hprobe hleads

theorem ProcMove.viewDecides {act : ProcAct} {pc' : ProcPc} (hv : VolumeOk env s)
    (hv' : VolumeOk env s') (hmove : ProcMove env s act pc s' pc')
    (hold : ∀ key v, pc.pending = some (key, v) → ViewDecides env s key v) :
    ∀ key v, pc'.pending = some (key, v) → ViewDecides env s' key v := by
  intro key v hpc
  cases hmove with
  | plan w now allowRestart =>
    unfold Env.planCall at hpc
    split at hpc
    · cases hpc
    · next plan hplan =>
      split at hpc <;> cases hpc
      exact viewDecides_plan hv hplan
  | probe a r snap =>
    cases hpc
    exact viewDecides_start env s r.key
  | elect a r snap version c todo el =>
    cases hpc
    exact (hold r.key el.view rfl).electStep hv c
  | @validate a r snap version el hversion =>
    cases hpc
    exact hold r.key el.view rfl
  | @fillPlan a w plan d old s' allowRestart c hfill =>
    have hquiet := fillPlanned_quiet hv.log.cursor hfill
    rcases fillPlanned_cases hfill hv.log.cursor with ⟨-, hnone⟩ | ⟨slot, s₁, -, -,
      ⟨n, -, hnone⟩ | ⟨-, repoints, -, hc⟩⟩
    · cases hnone
    · cases hnone
    · cases hc
      cases hpc
      exact (hold w.key plan.view rfl).quiet hv hv' hquiet
  | @fenceAlternate a c hpass =>
    cases hpc
    exact hold c.record.key c.view rfl
  | _ => cases hpc

def OneLive (env : Env) (s : State) : Prop :=
  ∀ (k i j : Nat) (e e' : DirEntry) (r r' : Record), (s.buckets k)[i]? = some e →
    (s.buckets k)[j]? = some e' → Live env s r e → Live env s r' e' → r.key = r'.key → i = j

theorem OneLive.quiet (h : OneLive env s) (hv : VolumeOk env s) (hv' : VolumeOk env s')
    (hquiet : Quiet s s') : OneLive env s' := by
  intro k i j e e' r r' he he' hlive hlive'
  rw [hquiet.buckets] at he he'
  have hback := hlive.back hv hquiet.toGrows (List.mem_of_getElem? he) (hlive.nonempty hv')
  have hback' := hlive'.back hv hquiet.toGrows (List.mem_of_getElem? he') (hlive'.nonempty hv')
  exact h k i j e e' r r' he he' hback hback'

variable {e : DirEntry}

theorem seen_of_view {bucket : Bucket} {tag newOffset : Nat} {verified : Option Nat}
    {classify : DirEntry → AdmitClass} {seen : List Nat}
    (h : viewIsCurrent bucket tag verified classify seen newOffset = true) (he : e ∈ bucket)
    (hne : e.isEmpty = false) (htag : e.tag = tag) (hver : verified ≠ some e.offset)
    (hoff : e.offset ≠ newOffset) (hadm : classify e ≠ .kReject) : e.offset ∈ seen := by
  simp only [viewIsCurrent, Bool.and_eq_true, List.all_eq_true, Bool.or_eq_true, beq_iff_eq,
    bne_iff_ne, List.contains_iff_mem] at h
  rcases h.2 e he with ((((h | h) | h) | h) | h) | h
  · rw [hne] at h
    cases h
  · exact absurd htag h
  · exact absurd h hver
  · exact absurd h.2 hoff
  · exact absurd h hadm
  · exact h

theorem publish_clears_live (hv : VolumeOk env s) (hspread : Spread s) {b : Bucket}
    (hview : ViewDecides env s r.key v) (hpub : env.publishView s r v = .published b)
    {c : InsertChoice} (hc : chooseInsertSlot (s.bucket r.key) r.key.tag v.verified
      (env.classify s) r.start = some c)
    (hins : Inserted (s.bucket r.key) b (env.publication s r) v.verified v.clears c.slot) {j : Nat}
    (hj : j ≠ c.slot) (he : b[j]? = some e) {r' : Record} (hlive : Live env s r' e) :
    r'.key ≠ r.key := by
  intro hkey
  have hne := hlive.nonempty hv
  have htag : e.tag = r.key.tag := by rw [hlive.entry.tag, hkey]
  obtain ⟨hold, hkeep⟩ := hins.others j hj e he hne
  obtain ⟨hoff, hclear⟩ := hkeep htag
  have hmem := List.mem_of_getElem? hold
  -- the verified entry is the one in the slot
  have hverified : v.verified ≠ some e.offset := by
    intro hver
    rw [Env.publishView, hver] at hpub
    rw [hver] at hc
    obtain ⟨e₁, he₁, hne₁, htag₁, hoff₁⟩ := verified_slot hpub hc
    exact hj (hspread _ j c.slot e e₁ hold he₁ hne hne₁ (htag.trans htag₁.symm) hoff₁.symm)
  have hseen := seen_of_view (insert_published hpub).1 hmem hne htag hverified hoff
    (hlive.admitted hv)
  rcases hview e hmem r' hlive hkey hseen with hver | hcl
  · exact hverified hver
  · exact hclear hcl

theorem DirectoryMove.live (hmove : DirectoryMove env s pc s') (h : Live env s' r e) :
    Live env s r e := by
  rcases hmove with ⟨-, -, rfl⟩ | ⟨rfl⟩ <;> exact ⟨h.laid, h.entry, h.whole, h.kept⟩

theorem OneLive.publish (h : OneLive env s) (hv : VolumeOk env s) (hspread : Spread s) {r₀ : Record}
    (hview : ViewDecides env s r₀.key v) {b : Bucket} (hpub : env.publishView s r₀ v = .published b)
    {i j : Nat} {e' : DirEntry} {r' : Record} (he : b[i]? = some e) (he' : b[j]? = some e')
    (hlive : Live env s r e) (hlive' : Live env s r' e') (hkey : r.key = r'.key) : i = j := by
  obtain ⟨c, hc, hins⟩ := insert_ok hpub
  -- a live entry in the new slot is that of the record just published
  have hslot : ∀ {e r}, b[c.slot]? = some e → Live env s r e → r = r₀ := by
    intro e r he hlive
    obtain ⟨e₁, he₁, hstored⟩ := hins.new
    rw [he₁] at he
    cases he
    exact Option.some.inj (hlive.entry.origin.symm.trans hstored.origin)
  by_cases hi : i = c.slot
  · by_cases hj : j = c.slot
    · exact hi.trans hj.symm
    · obtain rfl := hslot (hi ▸ he) hlive
      exact absurd hkey.symm (publish_clears_live hv hspread hview hpub hc hins hj he' hlive')
  · by_cases hj : j = c.slot
    · obtain rfl := hslot (hj ▸ he') hlive'
      exact absurd hkey (publish_clears_live hv hspread hview hpub hc hins hi he hlive)
    · exact h _ i j e e' r r' (hins.others i hi e he (hlive.nonempty hv)).1
        (hins.others j hj e' he' (hlive'.nonempty hv)).1 hlive hlive' hkey

theorem DirectoryMove.oneLive (h : OneLive env s) (hv : VolumeOk env s) (hspread : Spread s)
    (hview : ∀ r v, pc.publishing = some (r, v) → ViewDecides env s r.key v)
    (hmove : DirectoryMove env s pc s') : OneLive env s' := by
  intro k i j e e' r r' he he' hlive hlive'
  replace hlive := hmove.live hlive
  replace hlive' := hmove.live hlive'
  cases hmove with
  | @publish r₀ v b hpc hpub heq =>
    subst heq
    rw [buckets_publishedState] at he he'
    split at he
    · next hk =>
      rw [if_pos hk] at he'
      exact h.publish hv hspread (hview r₀ v hpc) hpub he he' hlive hlive'
    · next hk =>
      rw [if_neg hk] at he'
      exact h k i j e e' r r' he he' hlive hlive'
  | @remove key offsets heq =>
    have hold : ∀ {i : Nat} {e r}, (s'.buckets k)[i]? = some e → Live env s r e →
        (s.buckets k)[i]? = some e := by
      intro i e r he hlive
      rcases (@DirectoryMove.remove env s .idle s' key offsets heq).entry he
        (hlive.nonempty hv) with h | ⟨_, _, hpc, -⟩
      · exact h
      · cases hpc
    exact h k i j e e' r r' (hold he hlive) (hold he' hlive') hlive hlive'

end

section

variable {P : Type} {env : Env}

def NotOvertaken (sh : Shared P) (p : P) : Prop :=
  ∀ x ∈ (sh.pc p).publishing, x.1.start < 2 ^ 40 ∧
    ∀ q, q ≠ p → ∀ y ∈ (sh.pc q).pending, y.1 = x.1.key → x.1.start ∈ y.2.seen →
      y.2.Decides x.1.start

def OneEntryOk (env : Env) (sh : Shared P) : P × ProcAct → Prop
  | (p, .next _) => NotOvertaken sh p
  | (_, act) => StartOk env sh.vol act

theorem OneEntryOk.startOk {sh : Shared P} {p : P} {act : ProcAct}
    (h : OneEntryOk env sh (p, act)) : StartOk env sh.vol act := by
  cases act with
  | next => trivial
  | _ => exact h

structure OneEntryInv (env : Env) (sh : Shared P) : Prop where
  procs : ProcsOk env sh
  spread : Spread sh.vol
  views : ∀ p key v, (sh.pc p).pending = some (key, v) → ViewDecides env sh.vol key v
  one : OneLive env sh.vol

theorem oneEntryInv_fresh (bytes : Memory) : OneEntryInv env (Shared.fresh P env bytes) := by
  refine ⟨procsOk_fresh env bytes, spread_fresh env bytes, nofun, ?_⟩
  intro k i j e e' r r' _ _ hlive
  exact absurd hlive.laid List.not_mem_nil

variable [DecidableEq P]

theorem OneEntryInv.step {sh sh' : Shared P} {l : P × ProcAct} (h : OneEntryInv env sh)
    (hok : OneEntryOk env sh l) (hstep : env.procStep sh l = some sh') : OneEntryInv env sh' := by
  obtain ⟨p, act⟩ := l
  have hprocs := h.procs.step hok.startOk hstep
  obtain ⟨s', pc', hmove, rfl⟩ := procStep_move hstep
  have hv := h.procs.vol
  have hv' : VolumeOk env s' := hprocs.vol
  -- the views of the other processes are kept by either kind of move
  have hviews : (∀ q, q ≠ p → ∀ key v, (sh.pc q).pending = some (key, v) →
      ViewDecides env s' key v) → ∀ q key v, (update sh.pc p pc' q).pending =
        some (key, v) → ViewDecides env s' key v := by
    intro hothers q key v hpc
    rw [update_apply] at hpc
    split at hpc
    · exact hmove.viewDecides hv hv' (h.views p) key v hpc
    · next hq => exact hothers q hq key v hpc
  rcases hmove.directory hv.log.cursor with hquiet | ⟨⟨a, rfl⟩, hdir⟩
  · exact ⟨hprocs, h.spread.quiet hquiet, hviews fun q _ key v hpc =>
      (h.views q key v hpc).quiet hv hv' hquiet, h.one.quiet hv hv' hquiet⟩
  · refine ⟨hprocs, hdir.spread h.spread fun r v hpc => (hok (r, v) hpc).1, hviews ?_,
      hdir.oneLive h.one hv h.spread fun r v hpc => h.views p r.key v (publishing_pending hpc)⟩
    intro q hq key v hpc
    refine (h.views q key v hpc).directory hv hv' hdir fun r v' hpub hkey hseen => ?_
    exact (hok (r, v') hpub).2 q hq (key, v) hpc hkey.symm hseen

/-- However processes interleave, records stay whole and entries and links name records. -/
theorem processes_keep_volume {bytes : Memory} {ls : List (P × ProcAct)} {sh : Shared P}
    (hok : StepsOk env.procStep (fun sh l => StartOk env sh.vol l.2) (.fresh P env bytes) ls)
    (hrun : runs env.procStep (.fresh P env bytes) ls = some sh) : VolumeOk env sh.vol :=
  (runs_inv_of_ok (fun _ _ _ h ho hs => h.step ho hs) hok hrun (procsOk_fresh env bytes)).vol

end

instance (sh : Shared Bool) (p : Bool) : Decidable (NotOvertaken sh p) :=
  inferInstanceAs (Decidable (∀ x ∈ (sh.pc p).publishing, _))

def oneEntryOkB (sh : Shared Bool) : Bool × ProcAct → Bool
  | (p, .next _) => decide (NotOvertaken sh p)
  | (_, .writeAlternate ..) => false
  | _ => true

theorem oneEntryOkB_sound (env : Env) (sh : Shared Bool) (l : Bool × ProcAct)
    (h : oneEntryOkB sh l = true) : OneEntryOk env sh l := by
  obtain ⟨p, act⟩ := l
  cases act with
  | next a =>
    have hnot : NotOvertaken sh p := of_decide_eq_true h
    exact hnot
  | writeAlternate w now allowRestart => cases h
  | _ => trivial

def bucketFresh (env : Env) (s : State) (i : Nat) : Bool :=
  (s.buckets i).all fun e => e.isEmpty || env.classify s e == .kReject ||
    e.origin.any fun r => r.start == e.offset &&
      r.pass == Stripe.expectedPass (env.classify s e) (env.snapshot s)

theorem noneMistaken_of_bucketFresh {env : Env} {s : State} {i : Nat}
    (h : bucketFresh env s i = true) (key : CacheKey) : NoneMistaken env s i key := by
  intro e he cls hres
  have hentry := List.all_eq_true.mp h e he
  rw [hres.nonempty, hres.admitted, Bool.false_or,
    show (cls == AdmitClass.kReject) = false from beq_false_of_ne hres.notReject,
    Bool.false_or] at hentry
  obtain ⟨r, hr, hfresh⟩ := (Option.any_eq_true _ _).mp hentry
  rw [Bool.and_eq_true, beq_iff_eq, beq_iff_eq] at hfresh
  exact ⟨r, hr, hfresh⟩

instance (env : Env) (m : Memory) (snap : StripeSnapshot) (key : CacheKey) (e : DirEntry)
    (cls : AdmitClass) : Decidable (Leads env m snap key e cls) :=
  decidable_of_iff (env.readerValid m e.offset kHeaderSize = true ∧
      env.stripe.stampAdmits snap cls (Document.deserialize m e.offset).writeSerial = true ∧
      entryBinds e (Document.deserialize m e.offset) = true ∧
      (Document.deserialize m e.offset).firstKey = key.toNat)
    ⟨fun h => ⟨h.1, h.2.1, h.2.2.1, h.2.2.2⟩, fun h => ⟨h.valid, h.stamp, h.binds, h.key⟩⟩

instance (env : Env) (s : State) (key : CacheKey) (e : DirEntry) (cls : AdmitClass) :
    Decidable (Resolves env s key e cls) :=
  decidable_of_iff (e.isEmpty = false ∧ env.classify s e = cls ∧ cls ≠ .kReject ∧
      Leads env s.bytes (env.snapshot s) key e cls)
    ⟨fun h => ⟨h.1, h.2.1, h.2.2.1, h.2.2.2⟩,
      fun h => ⟨h.nonempty, h.admitted, h.notReject, h.leads⟩⟩

def calm : Weather := ⟨openGates, none, true⟩

def goes (p : Bool) (n : Nat) : List (Bool × ProcAct) := List.replicate n (p, .next calm)

def raceForKey : List (Bool × ProcAct) :=
  (false, .write 5 [] [1] calm) :: goes false 4 ++
    (true, .write 5 [] [2] calm) :: goes true 5 ++ goes false 7

theorem processes_keep_volume_race : ∃ s, VolumeOk singleEnv s ∧ s.laid.length = 2 := by
  obtain ⟨sh, hrun, hlaid⟩ : ∃ sh, runs singleEnv.procStep (.fresh Bool singleEnv fun _ => 0)
      raceForKey = some sh ∧ sh.vol.laid.length = 2 := by decide +kernel
  exact ⟨_, processes_keep_volume (stepsOk_of_forall (by simp [raceForKey, goes, StartOk])) hrun,
    hlaid⟩

def zerosDoc (key : CacheKey) (n : Nat) : Document :=
  let b := plainBuilder key [] (List.replicate n 0)
  { b.document with
    len := kHeaderSize + n
    totalLen := n
    checksum := (crc32cUpdate (crc32cUpdate b.document.checksumHeaderSeed []) b.content).toNat }

theorem build_zeros (key : CacheKey) {n : Nat} (hn : n < 2 ^ 31) :
    (plainBuilder key [] (List.replicate n 0)).build = some (zerosDoc key n) := by
  unfold DocumentBuilder.build
  rw [if_neg ?_]
  · simp [zerosDoc, DocumentBuilder.document, plainBuilder]
  · simp only [plainBuilder, List.length_nil, List.length_replicate, kHeaderSize]
    omega

def zerosStep (env : Env) (sh : Shared Bool) (p : Bool) (key : CacheKey) (n : Nat) :
    Option (Shared Bool) :=
  match sh.pc p, env.allocateWriteSlot sh.vol (kHeaderSize + n) openGates with
  | .idle, (s', .ok slot) =>
    let r := recordOf (plainBuilder key [] (List.replicate n 0)) (zerosDoc key n) slot
    let filled := fillSlot s' slot (Record.image r) none
    some ⟨{ filled with laid := r :: filled.laid, pending := r :: filled.pending },
      update sh.pc p (.laid r)⟩
  | .idle, (s', .error _) => some ⟨s', update sh.pc p .idle⟩
  | _, _ => none

theorem procStep_zeros (env : Env) (sh : Shared Bool) (p : Bool) (key : CacheKey) {n : Nat}
    (hn : n < 2 ^ 31) :
    env.procStep sh (p, .write key [] (List.replicate n 0) calm) = zerosStep env sh p key n := by
  simp only [Env.procStep, zerosStep, Env.fillWrite, build_zeros key hn, calm]
  have hlen : (zerosDoc key n).len = kHeaderSize + n := rfl
  rw [hlen]
  cases sh.pc p with
  | idle =>
    cases env.allocateWriteSlot sh.vol (kHeaderSize + n) openGates with
    | mk s' granted =>
      cases granted <;> rfl
  | _ => rfl

def overtaken (old new : CacheKey) : List (Bool × ProcAct) :=
  (true, .write (2 ^ 40) [] (List.replicate 1048444 0) calm) :: (true, .giveUp) ::
    (true, .write old [] (List.replicate 1048444 0) calm) ::
    (goes true 5 ++ (false, .write 5 [] [] calm) :: goes false 5 ++
      (true, .write (2 ^ 40) [] (List.replicate 1048308 0) calm) :: (true, .giveUp) ::
      (true, .write new [] [] calm) :: goes true 5)

def overtakenZeros (old new : CacheKey) : Option (Shared Bool) :=
  (zerosStep singleEnv (Shared.fresh Bool singleEnv fun _ => 0) true (2 ^ 40) 1048444).bind
    fun sh => (singleEnv.procStep sh (true, .giveUp)).bind
    fun sh => (zerosStep singleEnv sh true old 1048444).bind
    fun sh => (runs singleEnv.procStep sh
      (goes true 5 ++ (false, .write 5 [] [] calm) :: goes false 5)).bind
    fun sh => (zerosStep singleEnv sh true (2 ^ 40) 1048308).bind
    fun sh => runs singleEnv.procStep sh
      ((true, .giveUp) :: (true, .write new [] [] calm) :: goes true 5)

theorem runs_overtaken (old new : CacheKey) :
    runs singleEnv.procStep (Shared.fresh Bool singleEnv fun _ => 0) (overtaken old new) =
      overtakenZeros old new := by
  simp only [overtaken, overtakenZeros]
  rw [runs_cons, procStep_zeros _ _ _ _ (by decide)]
  refine Option.bind_congr fun sh _ => ?_
  rw [runs_cons]
  refine Option.bind_congr fun sh _ => ?_
  rw [runs_cons, procStep_zeros _ _ _ _ (by decide)]
  refine Option.bind_congr fun sh _ => ?_
  rw [runs_append]
  refine Option.bind_congr fun sh _ => ?_
  rw [runs_cons, procStep_zeros _ _ _ _ (by decide)]

end CycloneCache.Ref.Volume

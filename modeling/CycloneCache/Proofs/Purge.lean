import CycloneCache.Proofs.ReadBack

namespace CycloneCache.Ref.Volume

open Lib

def NoCopy (ram : List RamEntry) (key : CacheKey) : Prop := ∀ c ∈ ram, c.key = key → c.id ≠ 0

theorem NoCopy.ramGet {ram : List RamEntry} {key : CacheKey} (h : NoCopy ram key) :
    ramGet ram key 0 = none := by
  refine List.find?_eq_none.mpr fun c hc hmatch => ?_
  rw [Bool.and_eq_true, beq_iff_eq, beq_iff_eq] at hmatch
  exact h c hc hmatch.1 hmatch.2

structure Purged (env : Env) (key : CacheKey) (s : State) : Prop where
  volume : VolumeOk env s
  ram : env.ramCache = true → NoCopy s.ram key
  pending : ∀ r ∈ s.pending, r.key ≠ key
  dir : ∀ e ∈ s.bucket key, e.isEmpty = false → ∀ r, EntryOf e r → r.key = key →
    r.start = e.offset → Kept env s r → env.mapRegion e.offset e.approxSize = false

section

variable {env : Env} {key : CacheKey} {s s' : State}

section

variable (h : Purged env key s) (hno : NoImpostor env s key)
include h hno

theorem Purged.not_mapped {e : DirEntry} {cls : AdmitClass} (hc : (e, cls) ∈ env.probe s key)
    (hleads : Leads env s.bytes (env.snapshot s) key e cls) :
    env.mapRegion e.offset e.approxSize = false := by
  obtain ⟨r, hr, hentry, hstart, -, hk⟩ := fresh_record h.volume hc (hno _ hc hleads)
  obtain ⟨hmem, hne, -, -, -⟩ := mem_probeEach.mp hc
  have hp := h.volume.log.placed r (h.volume.dir.published r hr)
  have hkey : r.key = key := by
    apply BitVec.eq_of_toNat_eq
    rw [← hp.ok.key, ← (hp.intact hk).header.fields.2.2.1, hstart]
    exact hleads.key
  exact h.dir e hmem hne r hentry hkey hstart hk

theorem Purged.readDisk (hd : ReadHandle) : env.readDisk s key ≠ .ok hd := by
  intro hread
  obtain ⟨c, hc, hserved⟩ := readDisk_served hread
  obtain ⟨hleads, -, hmap⟩ := readCandidate_leads hserved
  rw [h.not_mapped hno hc hleads] at hmap
  cases hmap

theorem Purged.readSync (hd : ReadHandle) : (env.readSync s key).2 ≠ .ok hd := by
  unfold Env.readSync
  split
  · next hram =>
    rw [Env.ramLookup, (h.ram hram).ramGet]
    exact h.readDisk hno hd
  · exact h.readDisk hno hd

theorem Purged.readAlternateSync (id : Nat) :
    env.readAlternateSync s key id = (s, .error .notFound) := by
  have hnone : (env.probe s key).find?
      (fun c => env.isHead s.bytes (env.snapshot s) key c.1 c.2) = none := by
    refine List.find?_eq_none.mpr fun c hc hhead => ?_
    obtain ⟨hleads, hmap⟩ := isHead_leads hhead
    rw [h.not_mapped hno hc hleads] at hmap
    cases hmap
  unfold Env.readAlternateSync
  simp only [hnone]

end

theorem mem_bucket_setBucket {key' : CacheKey} {b : Bucket} {e : DirEntry}
    (he : e ∈ (s.setBucket key' b).bucket key) :
    (bucketIdx key = bucketIdx key' ∧ e ∈ b) ∨ e ∈ s.bucket key := by
  simp only [State.bucket, State.setBucket, Function.update_apply] at he
  split at he
  · next hidx => exact .inl ⟨hidx, he⟩
  · exact .inr he

theorem Purged.dir_mono (h : Purged env key s) (hgen : s.gen ≤ s'.gen)
    (hsub : ∀ e ∈ s'.bucket key, e.isEmpty = false →
      e ∈ s.bucket key ∨ ∃ r, e.origin = some r ∧ r.key ≠ key) :
    ∀ e ∈ s'.bucket key, e.isEmpty = false → ∀ r, EntryOf e r → r.key = key →
      r.start = e.offset → Kept env s' r → env.mapRegion e.offset e.approxSize = false := by
  intro e he hne r hentry hkey hstart hk
  rcases hsub e he hne with hold | ⟨q, hq, hother⟩
  · exact h.dir e hold hne r hentry hkey hstart (le_trans hgen hk)
  · rw [hentry.origin] at hq
    cases hq
    exact absurd hkey hother

theorem inserted_other {t : State} {r : Record} {b : Bucket} {verified : Option Nat}
    {clears : List Nat} {slot : Nat}
    (hins : Inserted (s.bucket r.key) b (env.publication t r) verified clears slot)
    (hkey : r.key ≠ key) {e : DirEntry} (he : e ∈ (s.setBucket r.key b).bucket key)
    (hne : e.isEmpty = false) : e ∈ s.bucket key ∨ ∃ q, e.origin = some q ∧ q.key ≠ key := by
  rcases mem_bucket_setBucket he with ⟨hidx, he⟩ | hold
  · rcases hins.mem he hne with hold | hstored
    · refine .inl ?_
      rw [State.bucket, hidx]
      exact hold
    · exact .inr ⟨r, hstored.origin, hkey⟩
  · exact .inl hold

theorem ramLookup_sub (env : Env) (s : State) (key : CacheKey) (id : Nat) :
    ∀ c ∈ (env.ramLookup s key id).1.ram, c ∈ s.ram := by
  unfold Env.ramLookup
  split
  · exact fun _ hc => hc
  · split
    · exact fun _ hc => (List.mem_filter.mp hc).1
    · exact fun _ hc => hc

theorem readSync_sub (env : Env) (s : State) (key : CacheKey) :
    ∀ c ∈ (env.readSync s key).1.ram, c ∈ s.ram := by
  have hsub := ramLookup_sub env s key 0
  unfold Env.readSync
  split
  · split
    · next s' _ hlook =>
      rw [hlook] at hsub
      exact hsub
    · next s' hlook =>
      rw [hlook] at hsub
      exact hsub
  · exact fun _ hc => hc

theorem readFromDisk_sub (env : Env) (s : State) (key : CacheKey) (n : AltInfo) :
    ∀ c ∈ (env.readFromDisk s key n).1.ram, c ∈ s.ram ∨ c.key = key := by
  unfold Env.readFromDisk
  split
  · exact fun _ hc => .inl hc
  · dsimp only
    split
    · unfold Env.ramPut
      simp only []
      split
      · refine List.forall_mem_cons.mpr ⟨.inr rfl, fun c hc => ?_⟩
        exact .inl (List.mem_filter.mp hc).1
      · exact fun _ hc => .inl hc
    · exact fun _ hc => .inl hc

theorem readAlternateSync_sub (env : Env) (s : State) (key : CacheKey) (id : Nat) :
    ∀ c ∈ (env.readAlternateSync s key id).1.ram, c ∈ s.ram ∨ c.key = key := by
  unfold Env.readAlternateSync
  simp only []
  split
  · exact fun _ hc => .inl hc
  · split
    · exact fun _ hc => .inl hc
    · split
      · exact fun _ hc => .inl hc
      · next n ns hwalk sel hsel =>
        have hsub := ramLookup_sub env s key sel.id
        unfold Env.readSelected
        split
        · split
          · next s' _ hlook =>
            rw [hlook] at hsub
            exact fun c hc => .inl (hsub c hc)
          · next s' hlook =>
            rw [hlook] at hsub
            exact fun c hc => (readFromDisk_sub env s' key sel c hc).imp_left (hsub c)
        · exact readFromDisk_sub env s key sel

def LiveEntry (env : Env) (s : State) (key : CacheKey) : Prop :=
  ∃ c ∈ env.probe s key,
    env.removeCandidate s.bytes (env.snapshot s) key c.1 c.2 = some (c.1.offset, true)

theorem mem_removeCandidates (h : VolumeOk env s) {r : Record} {e : DirEntry}
    (hr : r ∈ s.laid) (hk : Kept env s r) (hentry : EntryOf e r) (hstart : r.start = e.offset)
    (hmem : e ∈ s.bucket r.key) (hmap : env.mapRegion e.offset e.approxSize = true) :
    e.offset ∈ (env.removeCandidates s r.key).map Prod.fst := by
  have hp := h.log.placed r hr
  obtain ⟨cls, hprobe, -, hleads⟩ := leads_of_kept h.log hr hk hentry hstart hmem
  have hmapped := mapDocument_intact hp.ok (hp.intact hk) hp.aligned hp.stop_le
    e.header_le_approxSize
  rw [hstart, if_pos hmap] at hmapped
  have hfound : ∃ live, env.removeCandidate s.bytes (env.snapshot s) r.key e cls =
      some (e.offset, live) := by
    rw [Env.removeCandidate, hmapped]
    exact ⟨_, if_neg (not_not.mpr hleads.key)⟩
  obtain ⟨live, hlive⟩ := hfound
  exact List.mem_map.mpr ⟨_, List.mem_filterMap.mpr ⟨(e, cls), hprobe, hlive⟩, rfl⟩

theorem removeSync_sub (env : Env) (s : State) (key : CacheKey) :
    ∀ c ∈ (env.removeSync s key).1.ram, c ∈ s.ram := by
  unfold Env.removeSync
  simp only []
  split <;> split
  all_goals first
    | exact fun _ hc => hc
    | exact fun _ hc => (List.mem_filter.mp hc).1

theorem mem_removeSync {key' : CacheKey} {e : DirEntry}
    (he : e ∈ (env.removeSync s key').1.bucket key) (hne : e.isEmpty = false) :
    e ∈ s.bucket key ∧ (key = key' → e.tag = key.tag →
      e.offset ∉ (env.removeCandidates s key).map Prod.fst) := by
  have hdrop : ∀ t : State, (if (env.removeCandidates s key').any Prod.snd = true then
      (({ t with ram := ramRemoveAll t.ram key' }, .ok ()) : State × Except CacheError Unit)
      else (t, .error .notFound)).1.bucket key = t.bucket key := by
    intro t
    split <;> rfl
  unfold Env.removeSync at he
  simp only [] at he
  rw [hdrop] at he
  split at he
  · next hempty =>
    refine ⟨he, ?_⟩
    rintro rfl -
    rw [List.isEmpty_iff.mp hempty]
    exact List.not_mem_nil
  · rcases mem_bucket_setBucket he with ⟨hidx, he⟩ | hold
    · obtain ⟨hold, hkeep⟩ := mem_removeAllAt he hne
      refine ⟨?_, ?_⟩
      · rw [State.bucket, hidx]
        exact hold
      · rintro rfl htag
        exact hkeep htag
    · refine ⟨hold, ?_⟩
      rintro rfl htag
      rw [bucket_setBucket] at he
      exact (mem_removeAllAt he hne).2 htag

theorem removeSync_purged (h : VolumeOk env s) (hpending : ∀ r ∈ s.pending, r.key ≠ key)
    (hram : env.ramCache = true → NoCopy s.ram key ∨ LiveEntry env s key) :
    Purged env key (env.removeSync s key).1 := by
  refine ⟨removeSync_ok h key, ?_, ?_, ?_⟩
  · intro hcache
    rcases hram hcache with hnone | ⟨c, hc, hlive⟩
    · exact fun q hq => hnone q (removeSync_sub env s key q hq)
    · -- a live entry makes the removal drop every copy of the key
      have hany : (env.removeCandidates s key).any Prod.snd = true :=
        List.any_eq_true.mpr ⟨_, List.mem_filterMap.mpr ⟨c, hc, hlive⟩, rfl⟩
      unfold Env.removeSync
      simp only [hany, if_true]
      intro q hq hkey
      have hother := (List.mem_filter.mp hq).2
      rw [hkey] at hother
      simp at hother
  · obtain ⟨_, _, _, hframe⟩ := removeSync_frame env s key
    rw [hframe]
    exact hpending
  · intro e he hne r hentry hkey hstart hk
    subst hkey
    by_contra hmap
    rw [Bool.not_eq_false] at hmap
    have hgen : (env.removeSync s r.key).1.gen = s.gen := by
      obtain ⟨_, _, _, hframe⟩ := removeSync_frame env s r.key
      rw [hframe]
    rw [Kept, hgen] at hk
    have hfound := mem_removeSync he hne
    obtain ⟨q, hq, hentry', -⟩ := h.dir.entries _ e hfound.1 hne
    obtain rfl : r = q := Option.some.inj (hentry.origin.symm.trans hentry'.origin)
    exact hfound.2 rfl hentry.tag (mem_removeCandidates h (h.dir.published r hq) hk hentry hstart hfound.1 hmap)

def VolumeOp.writes (key : CacheKey) : VolumeOp → Bool
  | .fill key' .. => key' == key
  | .writeAlternate w .. => w.key == key
  | _ => false

def PurgeOk (env : Env) (key : CacheKey) (s : State) (op : VolumeOp) : Prop :=
  CallOk env s op ∧ op.writes key = false ∧ ∀ id, op = .readAlternate key id → NoImpostor env s key

theorem Purged.moved {s₁ : State} (h : Purged env key s) (hv : VolumeOk env s')
    (hmoved : Moved env s s₁) (hram : s'.ram = s₁.ram) (hpending : s'.pending = s₁.pending)
    (hbuckets : s'.buckets = s₁.buckets) (hgen : s'.gen = s₁.gen) : Purged env key s' := by
  have hframe := hmoved.frame
  refine ⟨hv, ?_, ?_, h.dir_mono (hgen ▸ hmoved.gen_le) fun e he _ => .inl ?_⟩
  · rw [hram, hframe]
    exact h.ram
  · rw [hpending, hframe]
    exact h.pending
  · rw [State.bucket, hbuckets, hframe] at he
    exact he

theorem step_purged (s : State) (op : VolumeOp) (s' : State) (h : Purged env key s)
    (hok : PurgeOk env key s op) (hstep : env.step s op = some s') : Purged env key s' := by
  obtain ⟨hcall, hwrites, hreads⟩ := hok
  have hv := step_volumeOk s op s' h.volume hcall hstep
  cases op with
  | fill key' header content gates short =>
    have hkey : key' ≠ key := by simpa [VolumeOp.writes] using hwrites
    cases hstep
    cases hfill : env.fillWrite s (plainBuilder key' header content) gates short with
    | mk s' res =>
      rw [hfill] at hv
      rcases fillWrite_cases hfill h.volume.log.cursor with ⟨hmoved, -⟩ | ⟨d, slot, s₁, -,
        hmoved, -, ⟨n, hs', -⟩ | ⟨hs', -⟩⟩
      · exact h.moved hv hmoved rfl rfl rfl rfl
      · rw [hs'] at hv ⊢
        exact h.moved hv hmoved rfl rfl rfl rfl
      · rw [hs'] at hv ⊢
        have hold := @Purged.moved env key s s₁ s₁ h (h.volume.moved hmoved) hmoved rfl rfl rfl rfl
        exact ⟨hv, hold.ram, List.forall_mem_cons.mpr ⟨hkey, hold.pending⟩, hold.dir⟩
  | publish i =>
    obtain ⟨r, hr, rfl⟩ := Option.map_eq_some_iff.mp hstep
    have hkey := h.pending r (List.mem_of_getElem? hr)
    cases hpub : env.publishWrite s r with
    | mk s' res =>
      rw [hpub] at hv
      rcases publishWrite_cases hpub with ⟨rfl, -⟩ | ⟨-, -, b, slot, hins, hs'⟩
      · exact h
      · refine ⟨hv, ?_, ?_, h.dir_mono ?_ ?_⟩ <;> rw [hs']
        · intro hcache c hc
          rw [if_pos hcache] at hc
          exact h.ram hcache c (List.mem_filter.mp hc).1
        · exact fun q hq => h.pending q (List.mem_of_mem_erase hq)
        · exact le_rfl
        · exact fun e he hne => inserted_other hins hkey he hne
  | writeAlternate w allowRestart a =>
    have hkey : w.key ≠ key := by simpa [VolumeOp.writes] using hwrites
    cases hstep
    cases hround : env.commitAlternateWriteOnce s w allowRestart a with
    | mk s' out =>
      rw [hround] at hv
      rcases round_cases hround h.volume.log.cursor with ⟨hmoved, -⟩ | ⟨plan, d, slot, s₁,
        hfill, ⟨n, hs', -⟩ | hpub⟩
      · exact h.moved hv hmoved rfl rfl rfl rfl
      · rw [hs'] at hv ⊢
        exact h.moved hv hfill.moved rfl rfl rfl rfl
      · rcases publishAlternate_cases hpub with ⟨hs', -⟩ | ⟨-, b, i, hins, ram, hram, -, _, _, hs'⟩
        · rw [hs'] at hv ⊢
          exact h.moved hv hfill.moved rfl rfl rfl rfl
        · have hframe := hfill.moved.frame
          have hbucket : s₁.bucket key = s.bucket key := by rw [hframe]; rfl
          refine ⟨hv, ?_, ?_, h.dir_mono ?_ ?_⟩ <;> rw [hs']
          · intro hcache c hc
            have hold : c ∈ s₁.ram := hram c hc
            rw [hframe] at hold
            exact h.ram hcache c hold
          · show ∀ r ∈ s₁.pending, r.key ≠ key
            rw [hframe]
            exact h.pending
          · exact hfill.moved.gen_le
          · intro e he hne
            have hcases := @inserted_other env key (filledRound env s w plan d slot s₁)
              (filledRound env s w plan d slot s₁)
              (Env.slotRecords s.bytes w d slot plan (raced env s s₁ plan)).2 b _ _ i hins
              hkey e he hne
            rw [← hbucket]
            exact hcases
  | remove key' =>
    cases hstep
    obtain ⟨_, _, _, hframe⟩ := removeSync_frame env s key'
    have hsub := removeSync_sub env s key'
    refine ⟨hv, fun hcache c hc => h.ram hcache c (hsub c hc), ?_, h.dir_mono ?_ ?_⟩
    · rw [hframe]
      exact h.pending
    · rw [hframe]
    · exact fun e he hne => .inl (mem_removeSync he hne).1
  | read key' =>
    cases hstep
    obtain ⟨ram, hframe⟩ := readSync_frame env s key'
    have hsub := readSync_sub env s key'
    rw [hframe] at hv hsub ⊢
    exact ⟨hv, fun hcache c hc => h.ram hcache c (hsub c hc), h.pending, h.dir⟩
  | readAlternate key' id =>
    cases hstep
    by_cases hkey : key' = key
    · subst hkey
      rw [h.readAlternateSync (hreads id rfl)]
      exact h
    · obtain ⟨ram, hframe⟩ := readAlternateSync_frame env s key' id
      have hsub := readAlternateSync_sub env s key' id
      rw [hframe] at hv hsub ⊢
      refine ⟨hv, fun hcache c hc hck => ?_, h.pending, h.dir⟩
      rcases hsub c hc with hold | hother
      · exact h.ram hcache c hold hck
      · exact absurd (hother.symm.trans hck) hkey
  | hit key' id delta lastAccess lockFree =>
    cases hstep
    obtain ⟨_, _, hframe⟩ := updateHitCountSync_frame env s key' id delta lastAccess lockFree
    rw [hframe] at hv ⊢
    exact ⟨hv, h.ram, h.pending, h.dir⟩
  | ramEvict key' id =>
    cases hstep
    exact ⟨hv, fun hcache c hc => h.ram hcache c (List.mem_filter.mp hc).1, h.pending, h.dir⟩

/-- Once a key has been removed, and no copy of its original is in RAM unless
the removal finds a live entry, no later read returns a document of it until
it is written again. -/
theorem purge_complete {bytes : Memory} {before after : List VolumeOp} {t : State}
    (hrun : runs env.step (State.fresh env bytes) before = some s)
    (hok : StepsOk env.step (CallOk env) (State.fresh env bytes) before)
    (hpending : ∀ r ∈ s.pending, r.key ≠ key)
    (hram : env.ramCache = true → NoCopy s.ram key ∨ LiveEntry env s key)
    (hafter : runs env.step (env.removeSync s key).1 after = some t)
    (hok' : StepsOk env.step (PurgeOk env key) (env.removeSync s key).1 after)
    (hread : NoImpostor env t key) :
    (∀ h, (env.readSync t key).2 ≠ .ok h) ∧ ∀ id h, (env.readAlternateSync t key id).2 ≠ .ok h := by
  have hpurged : Purged env key t := runs_inv_of_ok step_purged hok' hafter
    (removeSync_purged (volumeOk_run hok hrun) hpending hram)
  refine ⟨hpurged.readSync hread, fun id h => ?_⟩
  rw [hpurged.readAlternateSync hread id]
  exact nofun

end

def ramVolume : Env :=
  initStripe ⟨kVolumeHeaderSize + 735360, 0, false, false⟩
    ⟨⟨1, 1, 64, false, Nat.one_pos⟩, false, true, 0, true, true, false⟩ 0
    (by decide) (by decide)

def copiedOriginal : List VolumeOp :=
  [.writeAlternate ⟨5, 0, [], [7]⟩ true clearAttempt, .readAlternate 5 0]

def callCheck (env : Env) (s : State) : VolumeOp → Bool
  | .writeAlternate w _ _ => allFresh env s w.key && decide (env.stripe.size ≤ 2 ^ 48)
  | .hit key _ _ _ _ => allFresh env s key
  | _ => true

def purgeCheck (env : Env) (key : CacheKey) (s : State) (op : VolumeOp) : Bool :=
  callCheck env s op && !op.writes key && allFresh env s key

theorem callOk_of_check {env : Env} {s : State} {op : VolumeOp}
    (h : callCheck env s op = true) : CallOk env s op := by
  cases op with
  | writeAlternate w allowRestart a =>
    simp only [callCheck, Bool.and_eq_true, decide_eq_true_eq] at h
    exact ⟨noImpostor_of_allFresh h.1, h.2⟩
  | hit => exact noImpostor_of_allFresh h
  | _ => trivial

theorem purgeOk_of_check {env : Env} {key : CacheKey} {s : State} {op : VolumeOp}
    (h : purgeCheck env key s op = true) : PurgeOk env key s op := by
  simp only [purgeCheck, Bool.and_eq_true, Bool.not_eq_true'] at h
  exact ⟨callOk_of_check h.1.1, h.1.2, fun _ _ => noImpostor_of_allFresh h.2⟩

def afterRemoval : List VolumeOp := plainWrite (2 ^ 64) [1] ++ [.readAlternate 5 0]

theorem purge_complete_copied :
    ∃ s t, runs ramVolume.step (State.fresh ramVolume fun _ => 0) copiedOriginal = some s ∧
      s.ram.length = 1 ∧ (ramVolume.removeSync s 5).2 = .ok () ∧
      runs ramVolume.step (ramVolume.removeSync s 5).1 afterRemoval = some t ∧
      (∀ h, (ramVolume.readSync t 5).2 ≠ .ok h) ∧
      ∀ id h, (ramVolume.readAlternateSync t 5 id).2 ≠ .ok h := by
  obtain ⟨s, hs, hlen, hremoved, hpending, ⟨c, hc, hcand⟩, hsteps, t, ht, hfresh⟩ : ∃ s,
      runs ramVolume.step (State.fresh ramVolume fun _ => 0) copiedOriginal = some s ∧
      s.ram.length = 1 ∧ (ramVolume.removeSync s 5).2 = .ok () ∧ s.pending = [] ∧
      (∃ c ∈ ramVolume.probe s 5, ramVolume.removeCandidate s.bytes (ramVolume.snapshot s) 5
        c.1 c.2 = some (c.1.offset, true)) ∧
      stepsCheck ramVolume.step (purgeCheck ramVolume 5) (ramVolume.removeSync s 5).1
        afterRemoval ∧
      ∃ t, runs ramVolume.step (ramVolume.removeSync s 5).1 afterRemoval = some t ∧
        allFresh ramVolume t 5 := by decide +kernel
  have hcalls : stepsCheck ramVolume.step (callCheck ramVolume)
      (State.fresh ramVolume fun _ => 0) copiedOriginal = true := by decide +kernel
  refine ⟨s, t, hs, hlen, hremoved, ht, purge_complete hs
    (stepsOk_of_sound (fun _ _ h => callOk_of_check h) hcalls) ?_
    (fun _ => .inr ⟨c, hc, hcand⟩) ht
    (stepsOk_of_sound (fun _ _ h => purgeOk_of_check h) hsteps) (noImpostor_of_allFresh hfresh)⟩
  rw [hpending]
  exact List.forall_mem_nil _

def crowdedOut : List VolumeOp :=
  copiedOriginal ++ plainWrite (2 ^ 64) [1] ++ plainWrite (2 * 2 ^ 64) [2] ++
    plainWrite (3 * 2 ^ 64) [3] ++ plainWrite (4 * 2 ^ 64) [4]

theorem removed_key_served_from_ram :
    ∃ s h, runs ramVolume.step (State.fresh ramVolume fun _ => 0) crowdedOut = some s ∧
      (ramVolume.removeSync s 5).2 = .error .notFound ∧
      (ramVolume.readSync (ramVolume.removeSync s 5).1 5).2 = .ok h ∧ h.content = [7] := by
  obtain ⟨s, hs, hremove, h, hread⟩ : ∃ s, runs ramVolume.step
      (State.fresh ramVolume fun _ => 0) crowdedOut = some s ∧
      (ramVolume.removeSync s 5).2 = .error .notFound ∧
      ∃ h, (ramVolume.readSync (ramVolume.removeSync s 5).1 5).2 = .ok h ∧ h.content = [7] := by
    decide +kernel
  exact ⟨s, h, hs, hremove, hread⟩

end CycloneCache.Ref.Volume

import CycloneCache.Proofs.VolumeLog

namespace CycloneCache.Ref.Volume

open Lib

variable {b : DocumentBuilder} {env : Env} {s : State} {rel : Nat}

theorem fillWrite_cases {s' : State} {gates : Gates} {short : Option Nat}
    {res : Except CacheError Record} (h : env.fillWrite s b gates short = (s', res))
    (hc : CursorOk env s) :
    (Moved env s s' ∧ ∃ e, res = .error e) ∨
      ∃ d slot s₁, b.build = some d ∧ Moved env s s₁ ∧ Granted env s₁ d.len slot ∧
        ((∃ n, s' = fillSlot s₁ slot (Record.image (recordOf b d slot)) (some n) ∧
            res = .error .ioError) ∨
          (s' = { fillSlot s₁ slot (Record.image (recordOf b d slot)) none with
              laid := recordOf b d slot :: s₁.laid
              pending := recordOf b d slot :: s₁.pending } ∧
            res = .ok (recordOf b d slot) ∧ short = none)) := by
  unfold Env.fillWrite at h
  cases hbuild : b.build with rw [hbuild] at h
  | none =>
    cases h
    exact .inl ⟨.refl env s, _, rfl⟩
  | some d =>
    simp only [] at h
    cases hslot : env.allocateWriteSlot s d.len gates with
    | mk s₁ granted =>
      obtain ⟨hmoved, hgrant⟩ := allocateWriteSlot_ok hslot hc
      rw [hslot] at h
      cases granted with
      | error e =>
        cases h
        exact .inl ⟨hmoved, _, rfl⟩
      | ok slot =>
        refine .inr ⟨d, slot, s₁, rfl, hmoved, hgrant slot rfl, ?_⟩
        cases short with cases h
        | some n =>
          exact .inl ⟨n, rfl, rfl⟩
        | none =>
          exact .inr ⟨rfl, rfl, rfl⟩

theorem holds_fill {slot : Slot} {before bytes after : List UInt8} :
    Holds (fillSlot s slot (before ++ bytes ++ after) none).bytes
      (slot.writeOffset + before.length) bytes := by
  have h := holds_writeAt s.bytes slot.writeOffset (fillImage slot (before ++ bytes ++ after))
  change Holds (writeAt s.bytes slot.writeOffset (fillImage slot _)) _ bytes
  generalize writeAt s.bytes slot.writeOffset _ = m at h ⊢
  rw [fillImage, List.append_assoc, List.append_assoc, holds_append, holds_append] at h
  exact h.2.1

theorem length_build {d : Document} (h : b.build = some d) :
    d.len = kHeaderSize + b.header.length + b.content.length := by
  unfold DocumentBuilder.build at h
  split at h <;> cases h
  rfl

section

variable {env : Env} {s : State} {b : DocumentBuilder} {d : Document} {slot : Slot}

theorem recordOf_filled (hbuild : b.build = some d) (hg : Granted env s d.len slot)
    (hc : CursorOk env s) (hnext : b.nextAlternateOffset < 2 ^ 64) :
    let m := (fillSlot s slot (Record.image (recordOf b d slot)) none).bytes
    InSlot slot m (recordOf b d slot) ∧
      Document.deserialize m slot.writeOffset = stamped d slot := by
  intro m
  have hok := recordOf_ok hbuild hnext hg.serial
  have hholds : Holds m slot.writeOffset (Record.image (recordOf b d slot)) := by
    have h := @holds_fill s slot [] (Record.image (recordOf b d slot)) []
    rwa [List.nil_append, List.append_nil] at h
  refine ⟨⟨hok, le_rfl, ?_, ?_, rfl, rfl, intact_of_holds hok hholds⟩,
    deserialize_image hok hholds⟩
  · show slot.writeOffset + d.len ≤ slot.newWritePos
    have := le_roundUp8 d.len
    rw [hg.writeOffset, hg.newWritePos]
    omega
  · show slot.writeOffset % 8 = 0
    rw [hg.writeOffset]
    exact hc.aligned

theorem image_le_roundUp8 (hbuild : b.build = some d) (hg : Granted env s d.len slot)
    (hnext : b.nextAlternateOffset < 2 ^ 64) :
    (Record.image (recordOf b d slot)).length ≤ roundUp8 d.len := by
  rw [(recordOf_ok hbuild hnext hg.serial).length_image]
  exact le_roundUp8 d.len

end

theorem nextAlternateOffset_build {d : Document} (h : b.build = some d) :
    d.nextAlternateOffset = b.nextAlternateOffset := by
  unfold DocumentBuilder.build at h
  split at h <;> cases h
  rfl

theorem fillWrite_ok (h : VolumeOk env s) (hnext : b.nextAlternateOffset = 0) (gates : Gates)
    (short : Option Nat) : VolumeOk env (env.fillWrite s b gates short).1 := by
  have hlt : b.nextAlternateOffset < 2 ^ 64 := by omega
  cases hfill : env.fillWrite s b gates short with
  | mk s' res =>
    rcases fillWrite_cases hfill h.log.cursor with ⟨hmoved, -⟩ | ⟨d, slot, s₁, hbuild, hmoved,
      hg, ⟨n, rfl, -⟩ | ⟨rfl, -⟩⟩
    · exact h.moved hmoved
    · exact (h.moved hmoved).fillShort hg (image_le_roundUp8 hbuild hg hlt) n
    · have h₁ := h.moved hmoved
      obtain ⟨hin, hdoc⟩ := recordOf_filled hbuild hg h₁.log.cursor hlt
      have hmem : ∀ {r}, r ∈ [recordOf b d slot] → r = recordOf b d slot := List.mem_singleton.mp
      refine h₁.fill hg (image_le_roundUp8 hbuild hg hlt) [recordOf b d slot]
        [recordOf b d slot] ?_ ?_ ?_ fun _ hr => hr
      · intro r hr
        rw [hmem hr]
        exact hin
      · intro r hr r' hr'
        rw [hmem hr, hmem hr']
        exact .inl rfl
      · intro r hr
        rw [hmem hr]
        refine .inl ?_
        show Document.linkOffset (Document.deserialize _ slot.writeOffset).nextAlternateOffset = 0
        rw [hdoc]
        show Document.linkOffset d.nextAlternateOffset = 0
        rw [nextAlternateOffset_build hbuild, hnext]
        rfl

variable {r : Record}

theorem publishWrite_cases {s' : State} {res : Except CacheError Unit}
    (h : env.publishWrite s r = (s', res)) :
    (s' = s ∧ ∃ e, res = .error e) ∨ (env.stripe.passOf s.gen = r.pass ∧ res = .ok () ∧ ∃ b slot,
        Inserted (s.bucket r.key) b (env.publication s r)
          ((env.elect s r.key).verified.map Prod.fst) (env.elect s r.key).clears slot ∧
        s' = { s.setBucket r.key b with
          pending := s.pending.erase r
          published := r :: s.published
          ram := if env.ramCache then ramRemove s.ram r.key 0 else s.ram }) := by
  unfold Env.publishWrite at h
  split at h
  · cases h
    exact .inl ⟨rfl, _, rfl⟩
  · next hpass =>
    simp only [] at h
    split at h <;> cases h
    · exact .inl ⟨rfl, _, rfl⟩
    · exact .inl ⟨rfl, _, rfl⟩
    · next b hinsert =>
      obtain ⟨c, -, hins⟩ := insert_ok hinsert
      exact .inr ⟨not_not.mp hpass, rfl, b, c.slot, hins, rfl⟩

theorem publishWrite_ok (h : VolumeOk env s) (hr : r ∈ s.pending) :
    VolumeOk env (env.publishWrite s r).1 := by
  cases hpub : env.publishWrite s r with
  | mk s' res =>
    rcases publishWrite_cases hpub with ⟨rfl, -⟩ | ⟨-, -, b, slot, hins, rfl⟩
    · exact h
    · have hpending : ∀ q ∈ s.pending.erase r, q ∈ s.pending := fun _ hq => List.mem_of_mem_erase hq
      exact (h.publish (h.dir.pending r hr) hins hpending).frame _ s.lockGen _

theorem mem_removeAllAt {bucket : Bucket} {tag : Nat} {offsets : List Nat} {e : DirEntry}
    (h : e ∈ removeAllAt bucket tag offsets) (hne : e.isEmpty = false) :
    e ∈ bucket ∧ (e.tag = tag → e.offset ∉ offsets) := by
  obtain ⟨e', he', heq⟩ := List.mem_map.mp h
  split at heq
  · rw [← heq, empty_isEmpty] at hne
    cases hne
  · next hkeep =>
    subst heq
    refine ⟨he', fun htag hin => hkeep ?_⟩
    simp [hne, htag, hin]

theorem removeSync_ok (h : VolumeOk env s) (key : CacheKey) :
    VolumeOk env (env.removeSync s key).1 := by
  unfold Env.removeSync
  simp only []
  generalize hs' : (if (env.removeCandidates s key).isEmpty = true then s else _) = s'
  have h' : VolumeOk env s' := by
    rw [← hs']
    split
    · exact h
    · refine h.setBucket key (fun _ hr => hr) h.dir.published (fun _ hr => hr) ?_
      intro e he hne
      exact h.dir.entries _ e (mem_removeAllAt he hne).1 hne
  split
  · exact h'.frame s'.versions s'.lockGen _
  · exact h'

theorem ramLookup_frame (env : Env) (s : State) (key : CacheKey) (id : Nat) :
    ∃ ram, (env.ramLookup s key id).1 = { s with ram := ram } := by
  unfold Env.ramLookup
  split
  · exact ⟨s.ram, rfl⟩
  · split
    · exact ⟨_, rfl⟩
    · exact ⟨s.ram, rfl⟩

theorem readSync_frame (env : Env) (s : State) (key : CacheKey) :
    ∃ ram, (env.readSync s key).1 = { s with ram := ram } := by
  unfold Env.readSync
  split
  · obtain ⟨ram, hram⟩ := ramLookup_frame env s key 0
    split
    · next s' _ hlook =>
      rw [hlook] at hram
      exact ⟨ram, hram⟩
    · next s' hlook =>
      rw [hlook] at hram
      exact ⟨ram, hram⟩
  · exact ⟨s.ram, rfl⟩

theorem readFromDisk_frame (env : Env) (s : State) (key : CacheKey) (n : AltInfo) :
    ∃ ram, (env.readFromDisk s key n).1 = { s with ram := ram } := by
  unfold Env.readFromDisk
  split
  · exact ⟨s.ram, rfl⟩
  · dsimp only
    split
    · unfold Env.ramPut
      simp only []
      split
      · exact ⟨_, rfl⟩
      · exact ⟨s.ram, rfl⟩
    · exact ⟨s.ram, rfl⟩

theorem readSelected_frame (env : Env) (s : State) (key : CacheKey) (n : AltInfo) :
    ∃ ram, (env.readSelected s key n).1 = { s with ram := ram } := by
  unfold Env.readSelected
  split
  · obtain ⟨ram, hram⟩ := ramLookup_frame env s key n.id
    split
    · next s' _ hlook =>
      rw [hlook] at hram
      exact ⟨ram, hram⟩
    · next s' hlook =>
      rw [hlook] at hram
      obtain ⟨ram', h'⟩ := readFromDisk_frame env s' key n
      refine ⟨ram', h'.trans ?_⟩
      rw [show s' = { s with ram := ram } from hram]
  · exact readFromDisk_frame env s key n

theorem readAlternateSync_frame (env : Env) (s : State) (key : CacheKey) (id : Nat) :
    ∃ ram, (env.readAlternateSync s key id).1 = { s with ram := ram } := by
  unfold Env.readAlternateSync
  simp only []
  split
  · exact ⟨s.ram, rfl⟩
  · split
    · exact ⟨s.ram, rfl⟩
    · split
      · exact ⟨s.ram, rfl⟩
      · exact readSelected_frame env s key _

def OnLog (env : Env) (s : State) (cls : AdmitClass) (rel : Nat) : Prop :=
  ∃ r ∈ s.laid, r.start = rel ∧ r.pass = Stripe.expectedPass cls (env.snapshot s) ∧ Kept env s r

def Fresh (env : Env) (s : State) (e : DirEntry) (cls : AdmitClass) : Prop :=
  ∃ r, e.origin = some r ∧ r.start = e.offset ∧ r.pass = Stripe.expectedPass cls (env.snapshot s)

def NoImpostor (env : Env) (s : State) (key : CacheKey) : Prop :=
  ∀ c ∈ env.probe s key, Leads env s.bytes (env.snapshot s) key c.1 c.2 → Fresh env s c.1 c.2

section

variable {env : Env} {s : State} {cls : AdmitClass} {e : DirEntry} {key : CacheKey}

theorem kept_of_class (hpass : r.pass = Stripe.expectedPass cls (env.snapshot s))
    (hcls : cls = .kRetained →
      (env.snapshot s).frontierRel ≤ r.start ∧ r.start < env.stripe.size) : Kept env s r := by
  refine Nat.not_lt.mp fun hlt => ?_
  have hsnap : (env.snapshot s).pass = env.stripe.passOf s.gen := rfl
  simp only [Stripe.expectedPass, hsnap] at hpass
  rcases Stripe.threshold_lt_iff.mp hlt with hpast | ⟨hnext, hchunk⟩
  · split at hpass <;> omega
  · split at hpass
    · next hretained =>
      obtain ⟨hfront, hsize⟩ := hcls hretained
      have hcov := Stripe.lt_frontierRelOf_of_chunkOf_lt hsize hchunk
      have hrel : (env.snapshot s).frontierRel = _ := env.stripe.snapshot_frontierRel s.gen s.cursor
      omega
    · omega

theorem kept_of_current (hpass : r.pass = Stripe.expectedPass .kCurrent (env.snapshot s)) :
    Kept env s r :=
  kept_of_class hpass nofun

theorem retained_of_probe (hc : (e, cls) ∈ env.probe s key) (hcls : cls = .kRetained) :
    (env.snapshot s).frontierRel ≤ e.offset ∧ e.offset < env.stripe.size := by
  obtain ⟨-, -, -, hadm, hne⟩ := mem_probeEach.mp hc
  have hin := inDataArea_of_admitted (hadm ▸ hne)
  have hhead : 0 < kHeaderSize := by decide
  subst hcls
  exact ⟨(Stripe.admitPosition_kRetained.mp hadm).2.2.2.2, by omega⟩

theorem phase_of_probe {pass : Nat} (hc : (e, cls) ∈ env.probe s key)
    (hpass : pass = Stripe.expectedPass cls (env.snapshot s)) : e.phase = phaseOf pass := by
  obtain ⟨-, -, -, hadm, hne⟩ := mem_probeEach.mp hc
  have hsnap : (env.snapshot s).phase = phaseOf (env.snapshot s).pass := rfl
  rw [hpass]
  cases cls with
  | kReject => exact absurd rfl hne
  | kCurrent => exact (Stripe.admitPosition_kCurrent.mp hadm).2.1
  | kRetained =>
    -- the other phase is that of the pass before
    obtain ⟨-, hphase, -, hpos, -⟩ := Stripe.admitPosition_kRetained.mp hadm
    have hflip : (!(env.snapshot s).phase) = phaseOf ((env.snapshot s).pass - 1) := by
      rw [hsnap, phaseOf, phaseOf, Bool.eq_iff_iff, Bool.not_eq_true', beq_iff_eq,
        beq_eq_false_iff_ne]
      omega
    exact (Bool.eq_not_of_ne hphase).trans hflip

theorem fresh_record (h : VolumeOk env s) (hc : (e, cls) ∈ env.probe s key)
    (hfresh : Fresh env s e cls) :
    ∃ r ∈ s.published, EntryOf e r ∧ r.start = e.offset ∧
      r.pass = Stripe.expectedPass cls (env.snapshot s) ∧ Kept env s r := by
  obtain ⟨r, horigin, hstart, hpass⟩ := hfresh
  obtain ⟨hmem, hne, -, -, -⟩ := mem_probeEach.mp hc
  obtain ⟨q, hq, hentry, -⟩ := h.dir.entries _ e hmem hne
  obtain rfl : r = q := Option.some.inj (horigin.symm.trans hentry.origin)
  refine ⟨r, hq, ⟨hentry, phase_of_probe hc hpass⟩, hstart, hpass,
    kept_of_class hpass fun hcls => ?_⟩
  rw [hstart]
  exact retained_of_probe hc hcls

theorem onLog_head (h : VolumeOk env s) (hno : NoImpostor env s key)
    (hc : (e, cls) ∈ env.probe s key) (hleads : Leads env s.bytes (env.snapshot s) key e cls) :
    OnLog env s cls e.offset := by
  obtain ⟨r, hr, -, hstart, hpass, hk⟩ := fresh_record h hc (hno _ hc hleads)
  exact ⟨r, h.dir.published r hr, hstart, hpass, hk⟩

theorem onLog_hop (h : VolumeOk env s) {current next : Nat} (hon : OnLog env s cls current)
    (hnext : next = Document.linkOffset (Document.deserialize s.bytes current).nextAlternateOffset)
    (hadm : env.stripe.admitHop next current cls (env.snapshot s) ≠ .kReject) :
    env.stripe.admitHop next current cls (env.snapshot s) = cls ∧ OnLog env s cls next ∧
      next < current := by
  obtain ⟨r, hr, hstart, hpass, hk⟩ := hon
  have hlink := h.links r hr hk
  rw [hstart] at hlink
  unfold Stripe.admitHop at hadm ⊢
  split at hadm
  · exact absurd rfl hadm
  · next hin =>
    rw [not_or, not_or] at hin
    obtain ⟨hne, harea, hlt⟩ := hin
    simp only [Stripe.inDataArea, Bool.not_eq_true', Bool.not_eq_false, Bool.and_eq_true,
      decide_eq_true_eq] at harea
    rcases hlink with hzero | ⟨q, hq, hqpass, hqstart⟩
    · exact absurd (hnext.trans hzero) hne
    · rw [← hnext] at hqstart
      have hon : ∀ {cls'}, cls' = cls → (cls = .kRetained →
          (env.snapshot s).frontierRel ≤ next) → cls' = cls ∧ OnLog env s cls next ∧
            next < current := by
        intro cls' hcls hfront
        refine ⟨hcls, ⟨q, hq, hqstart, hqpass.trans hpass,
          kept_of_class (hqpass.trans hpass) fun hret => ?_⟩, Nat.not_le.mp hlt⟩
        rw [hqstart]
        exact ⟨hfront hret, harea.1.2⟩
      split at hadm
      · next hcur =>
        split at hadm
        · next hbehind =>
          rw [if_neg (by simp [hne, hlt, Stripe.inDataArea, harea]), if_pos hcur, if_pos hbehind]
          exact hon hcur.symm fun hret => absurd (hcur.symm.trans hret) (by decide)
        · exact absurd rfl hadm
      · next hcur =>
        split at hadm
        · next hret =>
          rw [if_neg (by simp [hne, hlt, Stripe.inDataArea, harea]), if_neg hcur, if_pos hret]
          exact hon hret.1.symm fun _ => hret.2.2
        · exact absurd rfl hadm

end

theorem nextAlternateOffset_eq (m : Memory) (a : Nat) :
    (Document.deserialize m a).nextAlternateOffset =
      leAt m (a + Document.kNextAlternateOffsetPos) 8 := by
  simp only [Document.deserialize, Document.widths, fieldsAt, Document.ofFields,
    Nat.add_assoc, Document.kNextAlternateOffsetPos]

theorem commitHeaderRmw_cases {key : CacheKey} {id pass : Nat} {lockFree : Bool}
    {apply : Memory → Memory} :
    ∃ lockGen, env.commitHeaderRmw s rel key id pass lockFree apply =
        { s with lockGen := lockGen } ∨
      (env.commitHeaderRmw s rel key id pass lockFree apply =
          { s with lockGen := lockGen, bytes := apply s.bytes } ∧
        env.stripe.passOf s.gen = pass) := by
  unfold Env.commitHeaderRmw
  simp only []
  generalize hs₀ : (if (env.mmapDirectory && lockFree) = true then
    { s with lockGen := s.lockGen + 1 } else s) = s₀
  have hlock : s₀ = { s with lockGen := s₀.lockGen } := by
    rw [← hs₀]
    split <;> rfl
  refine ⟨s₀.lockGen, ?_⟩
  split
  · next hcheck =>
    simp only [Bool.and_eq_true, beq_iff_eq] at hcheck
    refine .inr ⟨?_, ?_⟩
    · rw [hlock]
    · rw [← hcheck.1.1.1.1.2, hlock]
  · exact .inl hlock

theorem readerValid_header {m : Memory} {size : Nat} (h : env.readerValid m rel size = true) :
    env.readerValid m rel kHeaderSize = true := by
  simp only [Env.readerValid, Bool.and_eq_true, decide_eq_true_eq] at h ⊢
  exact ⟨⟨h.1.1, le_rfl⟩, h.2⟩

theorem hitTarget_onLog (h : VolumeOk env s) {id fuel current : Nat} {cls : AdmitClass}
    {followed : Option Nat} (hon : OnLog env s cls current)
    (htarget : env.hitTarget s.bytes (env.snapshot s) id fuel current cls followed = some rel) :
    OnLog env s cls rel := by
  induction fuel generalizing current followed with
  | zero => cases htarget
  | succ fuel ih =>
    unfold Env.hitTarget at htarget
    simp only [] at htarget
    split at htarget
    · cases htarget
    · split at htarget
      · cases htarget
        exact hon
      · split at htarget
        · cases htarget
        · next hgo =>
          rw [not_or] at hgo
          obtain ⟨hcls, hnext, -⟩ := onLog_hop h hon rfl hgo.2
          rw [hcls] at htarget
          exact ih hnext htarget

theorem storeHit_outside {delta lastAccess : Nat} {m : Memory} {x : Nat}
    (hx : x < rel + Document.kHitCountOffset ∨
      (rel + Document.kNextAlternateOffsetPos ≤ x ∧ x < rel + Document.kLastAccessOffset) ∨
      rel + Document.kLastAccessOffset + 8 ≤ x) : Env.storeHit rel delta lastAccess m x = m x := by
  simp only [Document.kHitCountOffset, Document.kNextAlternateOffsetPos,
    Document.kLastAccessOffset] at hx
  simp only [Env.storeHit, Document.kHitCountOffset, Document.kLastAccessOffset]
  rw [writeAt_outside (by rw [length_leBytes]; omega),
    writeAt_outside (by rw [length_leBytes]; omega)]

theorem updateHitCountSync_ok (h : VolumeOk env s) {key : CacheKey} (hno : NoImpostor env s key)
    (id delta lastAccess : Nat) (lockFree : Bool) :
    VolumeOk env (env.updateHitCountSync s key id delta lastAccess lockFree) := by
  unfold Env.updateHitCountSync
  simp only []
  split
  · exact h
  · next e cls hfind =>
    have hmem := List.mem_of_find?_eq_some hfind
    have hhead := List.find?_some hfind
    simp only [Bool.and_eq_true, beq_iff_eq] at hhead
    obtain ⟨⟨⟨⟨-, hvalid⟩, hkey⟩, hstamp⟩, hbinds⟩ := hhead
    have hon := onLog_head h hno hmem ⟨readerValid_header hvalid, hstamp, hbinds, hkey⟩
    split
    · exact h
    · next rel htarget =>
      obtain ⟨q, hq, rfl, -, hk⟩ := hitTarget_onLog h hon htarget
      obtain ⟨lockGen, heq | ⟨heq, -⟩⟩ := @commitHeaderRmw_cases env s q.start key id
        (env.stripe.passOf s.gen) lockFree (Env.storeHit q.start delta lastAccess)
      · rw [heq]
        exact h.frame s.versions lockGen s.ram
      · rw [heq]
        refine VolumeOk.frame (h.inPlace hq hk (m := Env.storeHit q.start delta lastAccess
          s.bytes) ?_ ?_) s.versions lockGen s.ram
        · intro x hx
          exact storeHit_outside (hx.imp_right .inr)
        · rw [nextAlternateOffset_eq]
          have hsame : leAt (Env.storeHit q.start delta lastAccess s.bytes)
              (q.start + Document.kNextAlternateOffsetPos) 8 =
              leAt s.bytes (q.start + Document.kNextAlternateOffsetPos) 8 :=
            leAt_congr fun x hle hlt => storeHit_outside (.inr (.inl ⟨hle, hlt⟩))
          rw [hsame, ← nextAlternateOffset_eq]
          exact h.links q hq hk

end CycloneCache.Ref.Volume

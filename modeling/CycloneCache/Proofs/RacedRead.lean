import CycloneCache.Proofs.ReadBack
import CycloneCache.Ref.RacedRead

namespace CycloneCache.Ref.Volume.RacedRead

open Lib Function

structure Live (c : Setting) (bytes : Memory) (cursor : Nat) (e : DirEntry) (r : Record) :
    Prop where
  ok : RecordOk r
  intact : Intact bytes r
  tag : e.tag = c.key.tag
  offset : e.offset = r.start
  phase : e.phase = phaseOf r.pass
  fillSerial : e.fillSerial = r.doc.fillSerial
  key : r.key = c.key
  aligned : r.start % 8 = 0
  start_le : c.env.stripe.dataStart ≤ r.start
  stop_le : Record.stop r ≤ c.env.stripe.size
  stamp : r.doc.writeSerial = r.pass % 2 ^ 32
  maps : c.env.mapRegion r.start e.approxSize = true
  kept : c.gen ≤ c.env.stripe.exposureThreshold r.pass r.start
  place : (r.pass = c.env.stripe.passOf c.gen ∧ Record.stop r ≤ cursor) ∨
    (c.env.stripe.retain = true ∧ r.pass + 1 = c.env.stripe.passOf c.gen ∧
      c.env.stripe.frontierRelOf (c.env.stripe.frontierOf c.gen) ≤ r.start)

def sampled (c : Setting) (bytes : Memory) (cursor : Nat) : Volume.State :=
  { Volume.State.fresh c.env bytes with gen := c.gen, cursor := cursor }

theorem snapshot_sampled (c : Setting) (bytes : Memory) (cursor : Nat) :
    c.env.snapshot (sampled c bytes cursor) = c.snapshot cursor := rfl

section Entry

variable {c : Setting} {bytes : Memory} {cursor : Nat} {e : DirEntry} {r : Record}

section

variable (h : Live c bytes cursor e r)
include h

theorem Live.nonempty : e.isEmpty = false := by
  have hpos := c.env.start_pos
  have hstart := h.start_le
  rw [DirEntry.isEmpty, h.offset]
  exact beq_false_of_ne (by omega)

theorem Live.served {k : Nat} {cls : AdmitClass} (hcls : cls ≠ .kReject)
    (hpass : r.pass = Stripe.expectedPass cls (c.snapshot k)) :
    ∃ hd, c.env.readCandidate bytes (c.snapshot k) c.key e cls = .served hd := by
  have hadm := @admitDocument_kept c.env cls r (sampled c bytes k) hcls hpass h.stamp h.kept
  have hread := readCandidate_intact h.ok h.intact h.aligned h.stop_le h.offset h.fillSerial hadm
  rw [h.maps, if_pos rfl, h.key] at hread
  exact ⟨_, hread⟩

theorem Live.visited (k : Nat) :
    (∃ cls hd, c.env.stripe.admitPosition e.offset e.phase (c.snapshot k) = cls ∧
      cls ≠ .kReject ∧ c.env.readCandidate bytes (c.snapshot k) c.key e cls = .served hd) ∨
    (c.env.stripe.admitPosition e.offset e.phase (c.snapshot k) = .kReject ∧
      r.pass = c.env.stripe.passOf c.gen) := by
  have harea := inDataArea_record h.ok h.start_le h.stop_le
  rw [h.offset, h.phase]
  rcases h.place with ⟨hpass, -⟩ | ⟨hretain, hpass, hfront⟩
  · have hphase : phaseOf r.pass = (c.snapshot k).phase := by
      rw [hpass]
      rfl
    by_cases hbehind : r.start < (c.snapshot k).cursorRel
    · left
      have hadm : c.env.stripe.admitPosition r.start (phaseOf r.pass) (c.snapshot k) =
          .kCurrent := Stripe.admitPosition_kCurrent.mpr ⟨harea, hphase, hbehind⟩
      obtain ⟨hd, hserved⟩ := @Live.served _ _ _ _ _ h k .kCurrent (by decide) hpass
      exact ⟨.kCurrent, hd, hadm, by decide, hserved⟩
    · right
      refine ⟨?_, hpass⟩
      rw [Stripe.admitPosition, harea, if_neg (by simp), if_pos hphase, if_neg hbehind]
  · left
    have hphase : phaseOf r.pass ≠ (c.snapshot k).phase := by
      show phaseOf r.pass ≠ phaseOf (c.env.stripe.passOf c.gen)
      rw [← hpass, ne_eq, phaseOf_eq]
      omega
    have hpos : (c.snapshot k).pass > 0 := by
      show c.env.stripe.passOf c.gen > 0
      omega
    have hrel : (c.snapshot k).frontierRel ≤ r.start := by
      rw [Setting.snapshot, Stripe.snapshot_frontierRel]
      exact hfront
    have hadm : c.env.stripe.admitPosition r.start (phaseOf r.pass) (c.snapshot k) =
        .kRetained := Stripe.admitPosition_kRetained.mpr ⟨harea, hphase, hretain, hpos, hrel⟩
    have hexpected : r.pass = Stripe.expectedPass .kRetained (c.snapshot k) := by
      show r.pass = c.env.stripe.passOf c.gen - 1
      omega
    obtain ⟨hd, hserved⟩ := @Live.served _ _ _ _ _ h k .kRetained (by decide) hexpected
    exact ⟨.kRetained, hd, hadm, by decide, hserved⟩

theorem Live.admitted (hpass : r.pass = c.env.stripe.passOf c.gen) :
    c.env.stripe.admitPosition e.offset e.phase (c.snapshot cursor) ≠ .kReject := by
  have hbehind : Record.stop r ≤ cursor := by
    rcases h.place with ⟨-, hbehind⟩ | ⟨-, hprev, -⟩
    · exact hbehind
    · omega
  have hadm := @admitPosition_current c.env (sampled c bytes cursor) r h.ok h.start_le h.stop_le
    hpass hbehind
  rw [h.offset, h.phase, ← snapshot_sampled c bytes, hadm]
  decide

end

theorem admitPosition_later {o k k' : Nat} {phase : Bool} (hk : k ≤ k')
    (h : c.env.stripe.admitPosition o phase (c.snapshot k) ≠ .kReject) :
    c.env.stripe.admitPosition o phase (c.snapshot k') ≠ .kReject := by
  have hcursor : (c.snapshot k).cursorRel ≤ (c.snapshot k').cursorRel := by
    show min k _ ≤ min k' _
    omega
  cases hcls : c.env.stripe.admitPosition o phase (c.snapshot k) with
  | kReject => exact absurd hcls h
  | kCurrent =>
    obtain ⟨harea, hphase, hbehind⟩ := Stripe.admitPosition_kCurrent.mp hcls
    have hlater : c.env.stripe.admitPosition o phase (c.snapshot k') = .kCurrent :=
      Stripe.admitPosition_kCurrent.mpr ⟨harea, hphase, lt_of_lt_of_le hbehind hcursor⟩
    simp [hlater]
  | kRetained =>
    have hret := Stripe.admitPosition_kRetained.mp hcls
    have hlater : c.env.stripe.admitPosition o phase (c.snapshot k') = .kRetained :=
      Stripe.admitPosition_kRetained.mpr hret
    simp [hlater]

theorem Live.later {bytes' : Memory} {cursor' : Nat} (h : Live c bytes cursor e r)
    (hcursor : cursor ≤ cursor') (hbytes : ∀ x, x < cursor ∨ c.runway ≤ x → bytes' x = bytes x) :
    Live c bytes' cursor' e r := by
  refine { h with intact := h.intact.congr h.ok fun x hle hlt _ => hbytes x ?_, place := ?_ }
  · rcases h.place with ⟨-, hbehind⟩ | ⟨hretain, -, hfront⟩
    · left
      rw [Record.stop] at hbehind
      omega
    · right
      rw [Setting.runway, hretain, if_pos rfl]
      omega
  · rcases h.place with ⟨hpass, hbehind⟩ | hretained
    · exact .inl ⟨hpass, le_trans hbehind hcursor⟩
    · exact .inr hretained

end Entry

section Notes

variable {rejects : List (Nat × Bool)} {o : Nat} {phase : Bool}

theorem nodup_note (h : rejects.Nodup) : (note rejects o phase).Nodup := by
  rw [note]
  split
  · exact h
  next hnew =>
    split
    · rw [List.nodup_append]
      refine ⟨h, List.pairwise_singleton _ _, fun x hx y hy => ?_⟩
      rw [List.mem_singleton.mp hy]
      exact fun heq => hnew (heq ▸ hx)
    · exact h

theorem mem_note {x : Nat × Bool} (h : x ∈ note rejects o phase) :
    x ∈ rejects ∨ x = (o, phase) := by
  rw [note] at h
  split at h
  · exact .inl h
  · split at h
    · rcases List.mem_append.mp h with h | h
      · exact .inl h
      · exact .inr (List.mem_singleton.mp h)
    · exact .inl h

theorem subset_note : rejects ⊆ note rejects o phase := by
  rw [note]
  split
  · exact List.Subset.refl _
  · split
    · exact List.subset_append_left _ _
    · exact List.Subset.refl _

theorem mem_note_self (h : rejects.length < kMaxRejects) : (o, phase) ∈ note rejects o phase := by
  rw [note]
  by_cases hold : (o, phase) ∈ rejects
  · rw [if_pos hold]
    exact hold
  · rw [if_neg hold, if_pos h]
    exact List.mem_append_right _ (List.mem_singleton.mpr rfl)

end Notes

variable {n : Nat}

section Reads

variable {W : Type}

structure Later (c : Setting) (s s' : State W) : Prop where
  cursor : s.cursor ≤ s'.cursor
  rewrites : s.rewrites ≤ s'.rewrites
  commits : s'.rewrites = s.rewrites → s'.cursor = s.cursor
  version : s.version ≤ s'.version
  bytes : ∀ x, x < s.cursor ∨ c.runway ≤ x → s'.bytes x = s.bytes x
  /-- The bucket only changes while its version is odd. -/
  bucket : s'.version = s.version → s'.version % 2 = 0 → s'.bucket = s.bucket

structure Loop.Ok (c : Setting) (n : Nat) (l : Loop) : Prop where
  races : l.publishRaceRetries.toNat ≤ n
  maxAttempts : l.maxAttempts.toNat = c.maxReadRetries.toNat + 1 + l.publishRaceRetries.toNat
  clean : l.sawChecksumFailure = false → l.attempt = l.publishRaceRetries

structure Attempt.Ok (c : Setting) (others : List (Nat × Bool)) (s : State W) (a : Attempt) :
    Prop where
  sample : ∃ k n, a.snap = c.snapshot k ∧ k ≤ s.cursor ∧ n ≤ s.rewrites ∧
    (s.rewrites = n → s.cursor = k) ∧ a.loop.Ok c n
  nodup : a.rejects.Nodup
  rejected : ∀ x ∈ a.rejects, c.env.stripe.admitPosition x.1 x.2 a.snap = .kReject
  rejects : ∀ x ∈ a.rejects, x ∈ others ∨
    c.env.stripe.admitPosition x.1 x.2 (c.snapshot s.cursor) ≠ .kReject

def Raced (c : Setting) (s : State W) (a : Attempt) : Prop :=
  ∃ x ∈ a.rejects, c.env.stripe.admitPosition x.1 x.2 (c.snapshot s.cursor) ≠ .kReject

def Reader.Ok (c : Setting) (others : List (Nat × Bool)) (s : State W) : Reader → Prop
  | .idle => True
  | .loop l => l.Ok c s.rewrites
  | .probing a => a.Ok c others s
  | .scanning a before i =>
    a.Ok c others s ∧ before % 2 = 0 ∧ before ≤ s.version ∧
      (s.version = before → c.slot < i → Raced c s a)
  | .matched a before i e =>
    a.Ok c others s ∧ before % 2 = 0 ∧ before ≤ s.version ∧ e.isEmpty = false ∧
      (s.version = before → s.bucket[i]? = some e ∧ (c.slot < i → Raced c s a))
  | .visiting a before i e =>
    a.Ok c others s ∧ before % 2 = 0 ∧ before ≤ s.version ∧
      (s.version = before → c.slot < i → Raced c s a) ∧
      (i = c.slot → ∃ r, Live c s.bytes s.cursor e r) ∧
      (i ≠ c.slot → (e.offset, e.phase) ∈ others)
  | .scanned a before => a.Ok c others s ∧ before ≤ s.version ∧ (s.version = before → Raced c s a)
  | .missed a => a.Ok c others s ∧ Raced c s a
  | .done result => result ≠ .error .notFound

variable {a : Attempt}

section Frame

variable {c : Setting} {others : List (Nat × Bool)} {s s' : State W}

theorem Loop.Ok.mono {n' : Nat} {l : Loop} (h : l.Ok c n) (hn : n ≤ n') : l.Ok c n' :=
  { h with races := le_trans h.races hn }

theorem Attempt.Ok.later (h : a.Ok c others s) (hlater : Later c s s') : a.Ok c others s' := by
  refine { h with sample := ?_, rejects := fun x hx => ?_ }
  · obtain ⟨k, n, hsnap, hk, hn, hsame, hloop⟩ := h.sample
    refine ⟨k, n, hsnap, le_trans hk hlater.cursor, le_trans hn hlater.rewrites, ?_, hloop⟩
    intro hn'
    have hs : s.rewrites = n := by
      have hle := hlater.rewrites
      omega
    rw [hlater.commits (by omega)]
    exact hsame hs
  · rcases h.rejects x hx with hother | hadmitted
    · exact .inl hother
    · exact .inr (admitPosition_later hlater.cursor hadmitted)

theorem Raced.later (h : Raced c s a) (hlater : Later c s s') : Raced c s' a := by
  obtain ⟨x, hx, hadmitted⟩ := h
  exact ⟨x, hx, admitPosition_later hlater.cursor hadmitted⟩

theorem Reader.Ok.later {p : Reader} (h : p.Ok c others s) (hlater : Later c s s') :
    p.Ok c others s' := by
  -- a version that is still the one before the step was so during it
  have hstill : ∀ {before}, before ≤ s.version → s'.version = before →
      s.version = before ∧ s'.version = s.version := by
    intro before hle heq
    have hmono := hlater.version
    omega
  match p, h with
  | .idle, _ => trivial
  | .loop l, h => exact Loop.Ok.mono h hlater.rewrites
  | .probing a, h => exact Attempt.Ok.later h hlater
  | .scanning a before i, ⟨ha, heven, hle, hraced⟩ =>
    refine ⟨ha.later hlater, heven, le_trans hle hlater.version, fun heq hslot => ?_⟩
    exact (hraced (hstill hle heq).1 hslot).later hlater
  | .matched a before i e, ⟨ha, heven, hle, hne, hmatch⟩ =>
    refine ⟨ha.later hlater, heven, le_trans hle hlater.version, hne, fun heq => ?_⟩
    obtain ⟨heq', hsame⟩ := hstill hle heq
    obtain ⟨he, hraced⟩ := hmatch heq'
    rw [hlater.bucket hsame (heq ▸ heven)]
    exact ⟨he, fun hslot => (hraced hslot).later hlater⟩
  | .visiting a before i e, ⟨ha, heven, hle, hraced, hmine, hother⟩ =>
    refine ⟨ha.later hlater, heven, le_trans hle hlater.version, fun heq hslot => ?_,
      fun hi => ?_, hother⟩
    · exact (hraced (hstill hle heq).1 hslot).later hlater
    · obtain ⟨r, hr⟩ := hmine hi
      exact ⟨r, hr.later hlater.cursor hlater.bytes⟩
  | .scanned a before, ⟨ha, hle, hraced⟩ =>
    refine ⟨ha.later hlater, le_trans hle hlater.version, fun heq => ?_⟩
    exact (hraced (hstill hle heq).1).later hlater
  | .missed a, ⟨ha, hraced⟩ => exact ⟨ha.later hlater, hraced.later hlater⟩
  | .done result, h => exact h

end Frame

def RetriesFit (maxReadRetries : BitVec 32) : Prop := maxReadRetries.toNat + 9 < 2 ^ 32

section Steps

variable {c : Setting} {others : List (Nat × Bool)} {s : State W}

theorem Loop.Ok.attempts {l : Loop} (h : l.Ok c n) (hclean : l.sawChecksumFailure = false) :
    l.attempt < l.maxAttempts := by
  have hmax := h.maxAttempts
  rw [h.clean hclean, BitVec.lt_def]
  omega

theorem Loop.Ok.raced {l : Loop} (h : l.Ok c n) (hfit : RetriesFit c.maxReadRetries) (hn : n < 8) :
    l.extendForPublishRace.next.Ok c (n + 1) := by
  have hraces := h.races
  have hmax := h.maxAttempts
  rw [RetriesFit] at hfit
  have hone : (1 : BitVec 32).toNat = 1 := rfl
  have hlt : l.publishRaceRetries < kMaxPublishRaceRetries := by
    rw [BitVec.lt_def]
    show l.publishRaceRetries.toNat < 8
    omega
  have hnext : (l.publishRaceRetries + 1).toNat = l.publishRaceRetries.toNat + 1 := by
    rw [BitVec.toNat_add, hone, Nat.mod_eq_of_lt (by omega)]
  rw [Loop.extendForPublishRace, if_pos hlt]
  refine ⟨?_, ?_, fun hclean => ?_⟩
  · show (l.publishRaceRetries + 1).toNat ≤ n + 1
    omega
  · show (l.maxAttempts + 1).toNat = _ + (l.publishRaceRetries + 1).toNat
    rw [BitVec.toNat_add, hone, hmax, hnext, Nat.mod_eq_of_lt (by omega)]
    omega
  · show l.attempt + 1 = l.publishRaceRetries + 1
    rw [h.clean hclean]

variable {a : Attempt}

theorem Attempt.Ok.charged (h : a.Ok c others s) (hraced : Raced c s a) :
    ∃ n, n < s.rewrites ∧ a.loop.Ok c n := by
  obtain ⟨k, n, hsnap, -, hn, hsame, hloop⟩ := h.sample
  obtain ⟨x, hx, hadmitted⟩ := hraced
  have hrejected := h.rejected x hx
  refine ⟨n, Nat.lt_of_le_of_ne hn fun heq => ?_, hloop⟩
  rw [hsnap, ← hsame heq.symm] at hrejected
  exact hadmitted hrejected

theorem Attempt.Ok.noted {e : DirEntry} (h : a.Ok c others s)
    (hothers : others.length < kMaxRejects)
    (hadmitted : c.env.stripe.admitPosition e.offset e.phase (c.snapshot s.cursor) ≠ .kReject) :
    ∃ x ∈ note a.rejects e.offset e.phase,
      c.env.stripe.admitPosition x.1 x.2 (c.snapshot s.cursor) ≠ .kReject := by
  by_cases hraced : Raced c s a
  · obtain ⟨x, hx, hx'⟩ := hraced
    exact ⟨x, subset_note hx, hx'⟩
  · -- only the other three entries can have been noted
    have hsub : a.rejects ⊆ others := by
      intro x hx
      rcases h.rejects x hx with hother | hx'
      · exact hother
      · exact absurd ⟨x, hx, hx'⟩ hraced
    have hroom : a.rejects.length < kMaxRejects :=
      lt_of_le_of_lt (List.subperm_of_subset h.nodup hsub).length_le hothers
    exact ⟨_, mem_note_self hroom, hadmitted⟩

theorem Attempt.Ok.note {e : DirEntry} (h : a.Ok c others s)
    (hrejected : c.env.stripe.admitPosition e.offset e.phase a.snap = .kReject)
    (hfrom : (e.offset, e.phase) ∈ others ∨
      c.env.stripe.admitPosition e.offset e.phase (c.snapshot s.cursor) ≠ .kReject) :
    Attempt.Ok c others s { a with rejects := note a.rejects e.offset e.phase } := by
  refine ⟨h.sample, nodup_note h.nodup, fun x hx => ?_, fun x hx => ?_⟩
  · rcases mem_note hx with hx | rfl
    · exact h.rejected x hx
    · exact hrejected
  · rcases mem_note hx with hx | rfl
    · exact h.rejects x hx
    · exact hfrom

theorem Raced.note {o : Nat} {phase : Bool} (h : Raced c s a) :
    Raced c s { a with rejects := RacedRead.note a.rejects o phase } := by
  obtain ⟨x, hx, hadmitted⟩ := h
  exact ⟨x, subset_note hx, hadmitted⟩

end Steps

def Writer.Ok (c : Setting) (s : State W) : Writer → Prop
  | .filled r | .holding r =>
    ∀ e : DirEntry, e.tag = c.key.tag → Live c s.bytes s.cursor ((c.publication r).update e) r
  | .idle | .written _ => True

def Writer.inside : Writer → Bool
  | .holding _ | .written _ => true
  | .idle | .filled _ => false

structure Inv (c : Setting) (others : List (Nat × Bool)) (s : State W) : Prop where
  entry : ∃ e r, s.bucket[c.slot]? = some e ∧ Live c s.bytes s.cursor e r
  rest : ∀ j e, j ≠ c.slot → s.bucket[j]? = some e → e.isEmpty = false →
    (e.offset, e.phase) ∈ others
  writer : ∀ w, (s.writer w).Ok c s
  odd : ∀ w, (s.writer w).inside = true → s.version % 2 = 1
  alone : ∀ w w', (s.writer w).inside = true → (s.writer w').inside = true → w = w'
  reader : s.reader.Ok c others s

section Invariant

variable {c : Setting} {others : List (Nat × Bool)} {s s' : State W}

theorem visit_ok {before i : Nat} {e : DirEntry} (hothers : others.length < kMaxRejects)
    (h : Reader.Ok c others s (.visiting a before i e)) :
    (visit c s.bytes a before i e).Ok c others s := by
  obtain ⟨ha, heven, hle, hraced, hmine, hother⟩ := h
  by_cases hi : i = c.slot
  · obtain ⟨r, hr⟩ := hmine hi
    obtain ⟨k, -, hsnap, -⟩ := ha.sample
    have hvisited := hr.visited k
    rw [← hsnap] at hvisited
    rcases hvisited with ⟨cls, hd, hadm, hcls, hserved⟩ | ⟨hrejected, hpass⟩
    · have hdone : visit c s.bytes a before i e = .done (.ok hd) := by
        rw [visit, hadm]
        cases cls with
        | kReject => exact absurd rfl hcls
        | kCurrent | kRetained => simp only [hserved]
      rw [hdone]
      exact nofun
    · have hadmitted := hr.admitted hpass
      rw [visit, hrejected]
      exact ⟨ha.note hrejected (.inr hadmitted), heven, hle, fun _ _ => ha.noted hothers hadmitted⟩
  · -- another entry changes nothing about the key's
    have hbeyond : ∀ a' : Attempt, (Raced c s a → Raced c s a') →
        s.version = before → c.slot < i + 1 → Raced c s a' := by
      intro a' himp heq hslot
      exact himp (hraced heq (by omega))
    rw [visit]
    split
    next hrejected =>
      exact ⟨ha.note hrejected (.inl (hother hi)), heven, hle, hbeyond _ Raced.note⟩
    next =>
      split
      · exact nofun
      · exact ⟨ha, heven, hle, hbeyond a id⟩
      · exact ⟨⟨ha.sample, ha.nodup, ha.rejected, ha.rejects⟩, heven, hle, hbeyond _ id⟩

theorem miss_ok (hfit : RetriesFit c.maxReadRetries) (hfew : s.rewrites ≤ 8)
    (h : Reader.Ok c others s (.missed a)) : (miss c s.cursor a).Ok c others s := by
  obtain ⟨ha, hraced⟩ := h
  obtain ⟨n, hn, hloop⟩ := ha.charged hraced
  have hprobe : probeRacedPublish c s.cursor a.rejects = true := by
    obtain ⟨x, hx, hadmitted⟩ := hraced
    rw [probeRacedPublish, List.any_eq_true]
    exact ⟨x, hx, bne_iff_ne.mpr hadmitted⟩
  rw [miss, hprobe, if_pos rfl]
  exact (hloop.raced hfit (by omega)).mono hn

theorem Inv.read {torn : DirEntry} {next : Reader} (h : Inv c others s) (hslot : c.slot < kEntriesPerBucket)
    (hothers : others.length < kMaxRejects) (hfit : RetriesFit c.maxReadRetries)
    (hfew : s.rewrites ≤ 8) (hstep : read c s torn = some next) : next.Ok c others s := by
  have hok := h.reader
  obtain ⟨mine, r, hmine, hlive⟩ := h.entry
  rw [RacedRead.read] at hstep
  split at hstep
  next => cases hstep
  next => cases hstep
  next l hr =>
    rw [hr] at hok
    cases hstep
    split
    · exact ⟨⟨s.cursor, s.rewrites, rfl, le_rfl, le_rfl, fun _ => rfl, hok⟩,
        List.nodup_nil, nofun, nofun⟩
    next hout =>
      cases hsaw : l.sawChecksumFailure with
      | true => exact nofun
      | false => exact absurd (hok.attempts hsaw) hout
  next a hr =>
    rw [hr] at hok
    cases hstep
    split
    · exact hok
    next heven => exact ⟨hok, by omega, le_rfl, fun _ hlt => absurd hlt (Nat.not_lt_zero _)⟩
  next a before i hr =>
    rw [hr] at hok
    obtain ⟨ha, heven, hle, hraced⟩ := hok
    split at hstep
    next hi =>
      dsimp only at hstep
      generalize hcopy : (if s.version = before then s.bucket.getD i .empty else torn) = e at hstep
      have hcopied : s.version = before → s.bucket.getD i .empty = e := fun heq => by
        rw [if_pos heq] at hcopy
        exact hcopy
      cases hstep
      split
      next hskip =>
        refine ⟨ha, heven, hle, fun heq hlt => ?_⟩
        by_cases hplace : c.slot = i
        · -- the key's own entry is not skipped
          rw [← hcopied heq, ← hplace, List.getD_eq_getElem?_getD, hmine, Option.getD_some,
            hlive.nonempty] at hskip
          rcases hskip with hskip | hskip
          · cases hskip
          · exact absurd hlive.tag hskip
        · exact hraced heq (by omega)
      next hmatch =>
        rw [not_or] at hmatch
        have hne := Bool.eq_false_iff.mpr hmatch.1
        refine ⟨ha, heven, hle, hne, fun heq => ⟨?_, hraced heq⟩⟩
        rw [← hcopied heq, List.getD_eq_getElem?_getD] at hne ⊢
        cases hget : s.bucket[i]? with
        | none =>
          rw [hget] at hne
          cases hne
        | some e => rfl
    next hi =>
      cases hstep
      exact ⟨ha, hle, fun heq => hraced heq (by omega)⟩
  next a before i e hr =>
    rw [hr] at hok
    obtain ⟨ha, heven, hle, hne, hmatch⟩ := hok
    cases hstep
    split
    next hchanged => exact ⟨ha, hle, fun heq => absurd heq hchanged⟩
    next hsame =>
      obtain ⟨he, hraced⟩ := hmatch (not_not.mp hsame)
      refine ⟨ha, heven, hle, fun _ => hraced, fun hi => ?_, fun hi => h.rest i e hi he hne⟩
      rw [hi, hmine] at he
      cases he
      exact ⟨r, hlive⟩
  next a before i e hr =>
    rw [hr] at hok
    cases hstep
    exact visit_ok hothers hok
  next a before hr =>
    rw [hr] at hok
    obtain ⟨ha, hle, hraced⟩ := hok
    cases hstep
    split
    next heq => exact ⟨ha, hraced heq⟩
    next => exact ha
  next a hr =>
    rw [hr] at hok
    cases hstep
    exact miss_ok hfit hfew hok

theorem Writer.Ok.later {p : Writer} (h : p.Ok c s) (hlater : Later c s s') : p.Ok c s' := by
  cases p with
  | idle => trivial
  | filled r | holding r => exact fun e he => (h e he).later hlater.cursor hlater.bytes
  | written r => trivial

variable {w : W} {r : Record}

theorem Inv.move [DecidableEq W] {next : Writer} (h : Inv c others s) (hlater : Later c s s')
    (hwriter : s'.writer = update s.writer w next) (hreader : s'.reader = s.reader)
    (hok : next.Ok c s')
    (hentry : ∃ e r, s'.bucket[c.slot]? = some e ∧ Live c s'.bytes s'.cursor e r)
    (hrest : ∀ j e, j ≠ c.slot → s'.bucket[j]? = some e → e.isEmpty = false →
      (e.offset, e.phase) ∈ others) (hodd : next.inside = true → s'.version % 2 = 1)
    (hstay : (∃ w', w' ≠ w ∧ (s.writer w').inside = true) →
      next.inside = false ∧ s'.version = s.version) : Inv c others s' := by
  have hself : s'.writer w = next := by rw [hwriter, update_self]
  have hother : ∀ w', w' ≠ w → s'.writer w' = s.writer w' := fun w' hne => by
    rw [hwriter, update_of_ne hne]
  refine ⟨hentry, hrest, ?_, ?_, fun w₁ w₂ h₁ h₂ => ?_, ?_⟩
  · rw [hwriter]
    exact (forall_update_iff s.writer fun _ p => p.Ok c s').mpr
      ⟨hok, fun w' _ => (h.writer w').later hlater⟩
  · rw [hwriter]
    refine (forall_update_iff s.writer fun _ p => p.inside = true → s'.version % 2 = 1).mpr
      ⟨hodd, fun w' hne hw' => ?_⟩
    rw [(hstay ⟨w', hne, hw'⟩).2]
    exact h.odd w' hw'
  · by_cases hne₁ : w₁ = w <;> by_cases hne₂ : w₂ = w
    · rw [hne₁, hne₂]
    · rw [hne₁, hself] at h₁
      rw [hother w₂ hne₂] at h₂
      rw [(hstay ⟨w₂, hne₂, h₂⟩).1] at h₁
      cases h₁
    · rw [hne₂, hself] at h₂
      rw [hother w₁ hne₁] at h₁
      rw [(hstay ⟨w₁, hne₁, h₁⟩).1] at h₂
      cases h₂
    · rw [hother w₁ hne₁] at h₁
      rw [hother w₂ hne₂] at h₂
      exact h.alone w₁ w₂ h₁ h₂
  · rw [hreader]
    exact h.reader.later hlater

theorem runway_le (c : Setting) : c.runway ≤ c.env.stripe.size := by
  rw [Setting.runway]
  split
  · exact c.env.stripe.frontierRelOf_le_size _
  · exact le_rfl

theorem live_committed {header content : List UInt8} {slot : Slot} {d : Document} {cursor : Nat}
    {bytes : Memory} (hbuild : (plainBuilder c.key header content).build = some d)
    (hslot : c.Allocated cursor d.len slot) (hname : slot.writeOffset < 2 ^ 40)
    (hmaps : c.env.mapRegion slot.writeOffset (DirEntry.empty.setApproxSize d.len).approxSize = true)
    {e : DirEntry} (he : e.tag = c.key.tag) :
    let r := recordOf (plainBuilder c.key header content) d slot
    Live c (writeAt bytes slot.writeOffset (fillImage slot (Record.image r))) slot.newWritePos
      ((c.publication r).update e) r := by
  intro r
  have hok : RecordOk r := recordOf_ok hbuild (Nat.two_pow_pos 64) hslot.fillSerial
  have hstop : slot.writeOffset + d.len ≤ c.env.stripe.size :=
    le_trans hslot.room (le_trans hslot.newWritePos (runway_le c))
  have hholds := holds_writeAt bytes slot.writeOffset (fillImage slot (Record.image r))
  rw [fillImage, holds_append] at hholds
  have hphase : phaseOf (c.env.stripe.passOf c.gen) = phaseOf slot.pass := by rw [hslot.pass]
  exact {
    ok := hok
    intact := intact_of_holds hok hholds.1
    tag := he
    offset := Nat.mod_eq_of_lt hname
    phase := hphase
    fillSerial := rfl
    key := rfl
    aligned := hslot.aligned
    start_le := hslot.start_le
    stop_le := hstop
    stamp := rfl
    maps := hmaps
    kept := by
      apply Nat.not_lt.mp
      rw [Stripe.threshold_lt_iff]
      have hpass : r.pass = c.env.stripe.passOf c.gen := hslot.pass
      omega
    place := .inl ⟨hslot.pass, hslot.room⟩ }

theorem Inv.setReader {next : Reader} (h : Inv c others s) (hok : next.Ok c others s) :
    Inv c others { s with reader := next } := by
  have hlater : Later c s { s with reader := next } :=
    ⟨le_rfl, le_rfl, fun _ => rfl, le_rfl, fun _ _ => rfl, fun _ _ => rfl⟩
  exact ⟨h.entry, h.rest, fun w => (h.writer w).later hlater, h.odd, h.alone, hok.later hlater⟩

variable [DecidableEq W]

theorem Later.bump (c : Setting) (s : State W) (w : W) (next : Writer) :
    Later c s { s.goto w next with version := s.version + 1 } :=
  ⟨le_rfl, le_rfl, fun _ => rfl, Nat.le_succ _, fun _ _ => rfl,
    fun heq => absurd heq (Nat.succ_ne_self _)⟩

section

variable (h : Inv c others s)
include h

theorem Inv.commit {header content : List UInt8} {slot : Slot}
    (hl : Label.Ok c (.commit w header content slot))
    (hstep : commit c s w header content slot = some s') : Inv c others s' := by
  rw [RacedRead.commit] at hstep
  split at hstep
  next d hw hbuild =>
    split at hstep <;> cases hstep
    next hslot =>
    have hlen : (Record.image (recordOf (plainBuilder c.key header content) d slot)).length =
        d.len := (recordOf_ok hbuild (Nat.two_pow_pos 64) hslot.fillSerial).length_image
    have hahead := hslot.ahead
    have hroom := hslot.room
    have hcursor : s.cursor ≤ slot.newWritePos := by omega
    have hlater : Later c s { s.goto w (.filled (recordOf (plainBuilder c.key header content) d
        slot)) with
        bytes := writeAt s.bytes slot.writeOffset (fillImage slot
          (Record.image (recordOf (plainBuilder c.key header content) d slot)))
        cursor := slot.newWritePos
        rewrites := s.rewrites + 1 } := by
      refine ⟨hcursor, Nat.le_add_right _ _, fun heq => ?_, le_rfl, fun x hx => ?_,
        fun _ _ => rfl⟩
      · exact absurd heq (Nat.succ_ne_self _)
      · apply writeAt_outside
        have hfill := hslot.fillEnd
        have hnew := hslot.newWritePos
        rw [fillImage, List.length_append, List.length_replicate, hlen]
        omega
    refine h.move hlater rfl rfl (fun e he => ?_) ?_ h.rest (by simp [Writer.inside])
      fun _ => ⟨rfl, rfl⟩
    · exact live_committed hbuild hslot hl.1 (hl.2 d hbuild) he
    · obtain ⟨e, r, he, hlive⟩ := h.entry
      exact ⟨e, r, he, hlive.later hlater.cursor hlater.bytes⟩
  next => cases hstep

theorem Inv.acquire (hw : s.writer w = .filled r) (heven : s.version % 2 = 0) :
    Inv c others { s.goto w (.holding r) with version := s.version + 1 } := by
  have hok := h.writer w
  rw [hw] at hok
  refine h.move (.bump ..) rfl rfl hok h.entry h.rest (fun _ => ?_) ?_
  · show (s.version + 1) % 2 = 1
    omega
  · rintro ⟨w', -, hw'⟩
    have hodd := h.odd w' hw'
    omega

theorem Inv.publish (hw : s.writer w = .holding r) (clears : List Nat) :
    Inv c others { s.goto w (.written r) with
      bucket := clearOthers (s.bucket.modify c.slot (c.publication r).update) c.slot c.key.tag
        r.start clears } := by
  have hodd : s.version % 2 = 1 := h.odd w (by rw [hw]; rfl)
  have hok := h.writer w
  rw [hw] at hok
  have hlater : Later c s { s.goto w (.written r) with
      bucket := clearOthers (s.bucket.modify c.slot (c.publication r).update) c.slot c.key.tag
        r.start clears } := by
    refine ⟨le_rfl, le_rfl, fun _ => rfl, le_rfl, fun _ _ => rfl,
      fun _ heven => ?_⟩
    change s.version % 2 = 0 at heven
    omega
  refine h.move hlater rfl rfl trivial ?_ (fun j e hj he hne => ?_) (fun _ => hodd) ?_
  · obtain ⟨e, q, he, hlive⟩ := h.entry
    refine ⟨(c.publication r).update e, r, ?_, hok e hlive.tag⟩
    show (clearOthers _ _ _ _ _)[c.slot]? = _
    rw [getElem?_clearOthers, he, Option.map_some, if_pos rfl]
  · -- the others are as they were or cleared
    change (clearOthers _ _ _ _ _)[j]? = _ at he
    rw [getElem?_clearOthers] at he
    obtain ⟨e₀, he₀, rfl⟩ := Option.map_eq_some_iff.mp he
    rw [if_neg hj] at hne ⊢
    split at hne
    · cases hne
    next hkept =>
      rw [if_neg hkept]
      exact h.rest j e₀ hj he₀ hne
  · rintro ⟨w', hne, hw'⟩
    exact absurd (h.alone w' w hw' (by rw [hw]; rfl)) hne

theorem Inv.release (hw : s.writer w = .written r) :
    Inv c others { s.goto w .idle with version := s.version + 1 } := by
  refine h.move (.bump ..) rfl rfl trivial h.entry h.rest nofun ?_
  rintro ⟨w', hne, hw'⟩
  exact absurd (h.alone w' w hw' (by rw [hw]; rfl)) hne

theorem Inv.step {l : Label W} (hslot : c.slot < kEntriesPerBucket)
    (hothers : others.length < kMaxRejects) (hfit : RetriesFit c.maxReadRetries) (hl : l.Ok c)
    (hfew : s'.rewrites ≤ 8) (hstep : step c s l = some s') : Inv c others s' := by
  cases l with rw [RacedRead.step] at hstep
  | commit w header content slot => exact h.commit hl hstep
  | acquire w =>
    split at hstep
    next r hw =>
      split at hstep <;> cases hstep
      next heven => exact h.acquire hw heven
    next => cases hstep
  | publish w clears =>
    split at hstep <;> cases hstep
    next r hw => exact h.publish hw clears
  | release w =>
    split at hstep <;> cases hstep
    next r hw => exact h.release hw
  | readSync =>
    split at hstep <;> cases hstep
    next hr =>
    refine h.setReader ⟨Nat.zero_le _, ?_, fun _ => rfl⟩
    rw [RetriesFit] at hfit
    show (c.maxReadRetries + 1).toNat = _ + 0
    have hone : (1 : BitVec 32).toNat = 1 := rfl
    rw [BitVec.toNat_add, hone, Nat.mod_eq_of_lt (by omega)]
  | read torn =>
    obtain ⟨next, hread, rfl⟩ := Option.map_eq_some_iff.mp hstep
    exact h.setReader (h.read hslot hothers hfit hfew hread)

end

end Invariant

structure State.Initial (c : Setting) (s : State W) : Prop where
  slot_lt : c.slot < kEntriesPerBucket
  bucket : s.bucket.length = kEntriesPerBucket
  version : s.version % 2 = 0
  writer : ∀ w, s.writer w = .idle
  reader : s.reader = .idle
  rewrites : s.rewrites = 0
  entry : ∃ e r, s.bucket[c.slot]? = some e ∧ Live c s.bytes s.cursor e r

def besides (c : Setting) (bucket : Bucket) : List (Nat × Bool) :=
  (bucket.eraseIdx c.slot).map fun e => (e.offset, e.phase)

variable {c : Setting} {s : State W}

theorem State.Initial.besides_length (h : s.Initial c) :
    (besides c s.bucket).length < kMaxRejects := by
  have hslot := h.slot_lt
  have hlen := h.bucket
  rw [besides, List.length_map, List.length_eraseIdx_of_lt (by omega), hlen]
  decide

theorem Inv.initial (h : s.Initial c) : Inv c (besides c s.bucket) s := by
  refine ⟨h.entry, fun j e hj he _ => ?_, fun w => ?_, fun w hw => ?_, fun w w' hw => ?_, ?_⟩
  · exact List.mem_map.mpr ⟨e, List.mem_eraseIdx_iff_getElem?.mpr ⟨j, hj, he⟩, rfl⟩
  · rw [h.writer]
    trivial
  · rw [h.writer] at hw
    cases hw
  · rw [h.writer] at hw
    cases hw
  · rw [h.reader]
    trivial

theorem rewrites_mono [DecidableEq W] {s' : State W} {l : Label W} (hstep : step c s l = some s') :
    s.rewrites ≤ s'.rewrites := by
  cases l with rw [step] at hstep
  | commit w header content slot =>
    rw [commit] at hstep
    split at hstep
    · split at hstep <;> cases hstep
      exact Nat.le_succ _
    · cases hstep
  | acquire w =>
    split at hstep
    · split at hstep <;> cases hstep
      exact le_rfl
    · cases hstep
  | publish w clears | release w | readSync =>
    split at hstep <;> cases hstep
    exact le_rfl
  | read torn =>
    obtain ⟨next, -, rfl⟩ := Option.map_eq_some_iff.mp hstep
    exact le_rfl

theorem not_notFound_of_fit [DecidableEq W] {s₀ : State W} {labels : List (Label W)}
    (hfit : RetriesFit c.maxReadRetries) (hinit : s₀.Initial c) (hok : ∀ l ∈ labels, l.Ok c)
    (hrun : runs (step c) s₀ labels = some s) (hfew : s.rewrites ≤ 8) :
    s.reader ≠ .done (.error .notFound) := by
  -- with eight rewrites at the end there never were more
  have hinv : s.rewrites ≤ 8 → Inv c (besides c s₀.bucket) s := by
    refine @runs_inv_mem _ _ (step c) labels s₀ s
      (fun s => s.rewrites ≤ 8 → Inv c (besides c s₀.bucket) s) (fun l hl s s' h hstep hfew => ?_) hrun fun _ => Inv.initial hinit
    exact (h (le_trans (rewrites_mono hstep) hfew)).step hinit.slot_lt hinit.besides_length
      hfit (hok l hl) hfew hstep
  have hreader := (hinv hfew).reader
  intro hdone
  rw [hdone] at hreader
  exact hreader rfl

end Reads

def sampleBuilder : DocumentBuilder := plainBuilder 5 [] [7]

def sampleDocument : Document :=
  { sampleBuilder.document with
    checksum := (crc32cUpdate (crc32cUpdate sampleBuilder.document.checksumHeaderSeed []) [7]).toNat }

theorem build_sample : sampleBuilder.build = some sampleDocument := by
  rw [DocumentBuilder.build, if_neg (by decide)]
  rfl

def slotAt (i : Nat) : Slot := ⟨655360 + 136 * i, 655360 + 136 * (i + 1), 0, 0, 655360 + 136 * i⟩

def nearTop (n : Nat) : Setting := ⟨roomyVolume, BitVec.ofNat 32 (2 ^ 32 - 1 - n), 5, 0, 0⟩

def once (n : Nat) : State Unit where
  bytes := writeAt (fun _ => 0) (slotAt 0).writeOffset
    (fillImage (slotAt 0) (Record.image (recordOf sampleBuilder sampleDocument (slotAt 0))))
  cursor := (slotAt 0).newWritePos
  bucket := [((nearTop n).publication (recordOf sampleBuilder sampleDocument (slotAt 0))).update
    { DirEntry.empty with tag := (5 : CacheKey).tag }, .empty, .empty, .empty]
  version := 0
  writer := fun _ => .idle
  reader := .idle
  rewrites := 0

theorem allocated_slotAt (n cursor : Nat) {i : Nat} (hi : i ≤ 8)
    (hcursor : cursor ≤ 655360 + 136 * i) :
    (nearTop n).Allocated cursor sampleDocument.len (slotAt i) := by
  have hlen : sampleDocument.len = 133 := rfl
  have hrunway : (nearTop n).runway = 735360 := rfl
  have hpass : (slotAt i).pass = (nearTop n).env.stripe.passOf (nearTop n).gen := by
    show 0 = roomyVolume.stripe.passOf 0
    decide +kernel
  refine ⟨hcursor, ?_, ?_, ?_, ?_, ?_, hpass, Nat.two_pow_pos 16⟩
  · show 655360 ≤ 655360 + 136 * i
    omega
  · show (655360 + 136 * i) % 8 = 0
    omega
  · rw [hlen]
    show 655360 + 136 * i + 133 ≤ 655360 + 136 * (i + 1)
    omega
  · rw [hrunway]
    show 655360 + 136 * (i + 1) ≤ 735360
    omega
  · rw [hrunway]
    show 655360 + 136 * i ≤ 735360
    omega

theorem maps_slotAt (n : Nat) {i : Nat} (hi : i ≤ 8) :
    (nearTop n).env.mapRegion (slotAt i).writeOffset
      (DirEntry.empty.setApproxSize sampleDocument.len).approxSize = true := by
  have happrox : (DirEntry.empty.setApproxSize sampleDocument.len).approxSize = 512 := rfl
  rw [happrox]
  apply decide_eq_true
  show 64 + (655360 + 136 * i) + 512 ≤ 64 + 655360 + 80000
  omega

theorem once_initial (n : Nat) : (once n).Initial (nearTop n) where
  slot_lt := Nat.zero_lt_succ _
  bucket := rfl
  version := rfl
  writer := fun _ => rfl
  reader := rfl
  rewrites := rfl
  entry := ⟨_, _, rfl, @live_committed (nearTop n) [] [7] (slotAt 0) sampleDocument 0 (fun _ => 0)
    build_sample (allocated_slotAt n 0 (Nat.zero_le 8) (Nat.zero_le _)) (by decide)
    (maps_slotAt n (Nat.zero_le 8)) _ rfl⟩

def race (i : Nat) : List (Label Unit) :=
  [.read .empty, .commit () [] [7] (slotAt (i + 1)), .acquire (), .publish () [], .release ()] ++
    List.replicate 10 (.read .empty)

def overflowing (n : Nat) : List (Label Unit) :=
  .readSync :: (List.range n).flatMap race ++ [.read .empty]

theorem overflowing_ok (hn : n ≤ 8) : ∀ l ∈ overflowing n, l.Ok (nearTop n) := by
  intro l hl
  have hcommit : ∀ i < n, Label.Ok (nearTop n) (.commit () [] [7] (slotAt (i + 1))) := by
    intro i hi
    refine ⟨?_, fun d hd => ?_⟩
    · show 655360 + 136 * (i + 1) < 2 ^ 40
      omega
    · have hsample : some d = some sampleDocument := hd.symm.trans build_sample
      cases hsample
      exact maps_slotAt n (by omega)
  simp only [overflowing, race, List.cons_append, List.mem_cons, List.mem_append,
    List.mem_flatMap, List.mem_range, List.mem_replicate, List.not_mem_nil, or_false,
    List.nil_append] at hl
  rcases hl with rfl | ⟨i, hi, rfl | rfl | rfl | rfl | rfl | ⟨-, rfl⟩⟩ | rfl
  · trivial
  · trivial
  · exact hcommit i hi
  · trivial
  · trivial
  · trivial
  · trivial
  · trivial

def Reader.isNotFound : Reader → Bool
  | .done (.error .notFound) => true
  | _ => false

theorem Reader.eq_notFound {p : Reader} (h : p.isNotFound = true) :
    p = .done (.error .notFound) := by
  unfold Reader.isNotFound at h
  split at h
  · rfl
  · cases h

theorem runs_overflowing (hn : n ≤ 8) :
    ∃ s, runs (step (nearTop n)) (once n) (overflowing n) = some s ∧ s.rewrites ≤ 8 ∧
      s.reader = .done (.error .notFound) := by
  have hall : ∀ n < 9, ∃ s, runs (step (nearTop n)) (once n) (overflowing n) = some s ∧
      s.rewrites ≤ 8 ∧ s.reader.isNotFound := by decide +kernel
  obtain ⟨s, hrun, hrewrites, hs⟩ := hall n (Nat.lt_succ_of_le hn)
  exact ⟨s, hrun, hrewrites, Reader.eq_notFound hs⟩

/-- A read beside at most eight rewrites of its key never answers `NotFound`
just when the bound on its retries leaves room for one more attempt and the
eight that races buy. -/
theorem no_false_miss_iff (maxReadRetries : BitVec 32) :
    (∀ (c : Setting) (W : Type) [DecidableEq W] (s₀ s : State W) (labels : List (Label W)),
      c.maxReadRetries = maxReadRetries → s₀.Initial c → (∀ l ∈ labels, l.Ok c) →
        runs (step c) s₀ labels = some s → s.rewrites ≤ 8 → s.reader ≠ .done (.error .notFound)) ↔
      maxReadRetries.toNat + 9 < 2 ^ 32 := by
  constructor
  · intro hall
    by_contra hlarge
    have hlt := maxReadRetries.isLt
    have hn : 2 ^ 32 - 1 - maxReadRetries.toNat ≤ 8 := by omega
    obtain ⟨s, hrun, hfew, hmiss⟩ := runs_overflowing hn
    have hretries : (nearTop (2 ^ 32 - 1 - maxReadRetries.toNat)).maxReadRetries =
        maxReadRetries := by
      apply BitVec.eq_of_toNat_eq
      show (BitVec.ofNat 32 (2 ^ 32 - 1 - (2 ^ 32 - 1 - maxReadRetries.toNat))).toNat = _
      rw [BitVec.toNat_ofNat]
      omega
    exact hall _ Unit _ s _ hretries (once_initial _) (overflowing_ok hn) hrun hfew hmiss
  · intro hfit c W _ s₀ s labels hretries hinit hok hrun hfew
    exact not_notFound_of_fit (hretries ▸ hfit) hinit hok hrun hfew

/-- With the largest bound no attempt is made at all. -/
theorem false_miss_at_largest_bound :
    ¬ ∀ (c : Setting) (W : Type) [DecidableEq W] (s₀ s : State W) (labels : List (Label W)),
      s₀.Initial c → (∀ l ∈ labels, l.Ok c) → runs (step c) s₀ labels = some s →
        s.rewrites ≤ 8 → s.reader ≠ .done (.error .notFound) := by
  intro hall
  obtain ⟨s, hrun, hfew, hmiss⟩ := runs_overflowing (Nat.zero_le 8)
  exact hall (nearTop 0) Unit (once 0) s (overflowing 0) (once_initial 0)
    (overflowing_ok (Nat.zero_le 8)) hrun hfew hmiss

end CycloneCache.Ref.Volume.RacedRead

import CycloneCache.Proofs.Documents
import CycloneCache.Proofs.Publish
import CycloneCache.Proofs.VolumeSlots
import CycloneCache.Ref.Alternates

namespace CycloneCache.Ref.Volume

open Lib

def Record.stop (r : Record) : Nat := r.start + r.doc.len

def Kept (env : Env) (s : State) (r : Record) : Prop :=
  s.gen ≤ env.stripe.exposureThreshold r.pass r.start

structure Placed (env : Env) (s : State) (r : Record) : Prop where
  ok : RecordOk r
  start_le : env.stripe.dataStart ≤ r.start
  stop_le : Record.stop r ≤ env.stripe.size
  aligned : r.start % 8 = 0
  pass_le : r.pass ≤ env.stripe.passOf s.gen
  stamp : r.doc.writeSerial = r.pass % 2 ^ 32
  behind : r.pass = env.stripe.passOf s.gen → Record.stop r ≤ s.cursor
  intact : Kept env s r → Intact s.bytes r

def Apart (r r' : Record) : Prop := Record.stop r ≤ r'.start ∨ Record.stop r' ≤ r.start

structure LogOk (env : Env) (s : State) : Prop where
  cursor : CursorOk env s
  flush : env.stripe.retain = false →
    env.stripe.passOf s.gen = 0 ∨ env.stripe.frontierOf s.gen = env.stripe.chunks
  runway : env.stripe.retain = true →
    s.cursor ≤ env.stripe.frontierRelOf (env.stripe.frontierOf s.gen)
  placed : ∀ r ∈ s.laid, Placed env s r
  disjoint : ∀ r ∈ s.laid, ∀ r' ∈ s.laid, r.pass = r'.pass → r = r' ∨ Apart r r'

variable {r : Record}

theorem Apart.symm {r' : Record} (h : Apart r r') : Apart r' r := Or.symm h

theorem logOk_fresh (env : Env) (bytes : Memory) : LogOk env (State.fresh env bytes) := by
  have hpass : env.stripe.passOf 0 = 0 := Nat.zero_div _
  refine ⟨⟨le_rfl, Nat.le_of_lt env.stripe.start_lt, env.stripe.start_aligned⟩,
    fun _ => .inl hpass, fun _ => env.stripe.dataStart_le_frontierRelOf _, ?_, ?_⟩
  · intro r hr
    cases hr
  · intro r hr
    cases hr

variable {m : Memory} {bytes : List UInt8}

namespace LogOk

variable {env : Env} {s s' : State}

section

variable (h : LogOk env s)
include h

theorem kept_cases (hr : r ∈ s.laid) (hk : Kept env s r) :
    r.pass = env.stripe.passOf s.gen ∨
      (env.stripe.retain = true ∧ r.pass + 1 = env.stripe.passOf s.gen ∧
        env.stripe.frontierRelOf (env.stripe.frontierOf s.gen) ≤ r.start) := by
  have hp := h.placed r hr
  have hthreshold := (not_congr Stripe.threshold_lt_iff).mp (Nat.not_lt.mpr hk)
  rw [not_or, not_and] at hthreshold
  rcases Nat.eq_or_lt_of_le hp.pass_le with heq | hlt
  · exact .inl heq
  · have hprev : env.stripe.passOf s.gen = r.pass + 1 := by omega
    have hfront := Nat.not_lt.mp (hthreshold.2 hprev)
    have hchunk := env.stripe.chunkOf_lt r.start
    cases hretain : env.stripe.retain with
    | false =>
      -- a wrap without retention exposes the whole previous pass
      rcases h.flush hretain with hzero | hall <;> omega
    | true => exact .inr ⟨rfl, hprev.symm, Stripe.frontierRelOf_le_of_le_chunkOf hp.start_le hfront⟩

theorem apart {q : Record} (hr : r ∈ s.laid) (hq : q ∈ s.laid) (hkr : Kept env s r)
    (hkq : Kept env s q) : r = q ∨ Apart r q := by
  have hrp := h.placed r hr
  have hqp := h.placed q hq
  rcases h.kept_cases hr hkr with hr₁ | ⟨hretain, hr₁, hr₂⟩ <;>
    rcases h.kept_cases hq hkq with hq₁ | ⟨hretain', hq₁, hq₂⟩
  · exact h.disjoint r hr q hq (hr₁.trans hq₁.symm)
  · have := hrp.behind hr₁
    have := h.runway hretain'
    exact .inr (.inl (by omega))
  · have := hqp.behind hq₁
    have := h.runway hretain
    exact .inr (.inr (by omega))
  · exact h.disjoint r hr q hq (by omega)

theorem untouched (hr : r ∈ s.laid) (hk : Kept env s r) {limit : Nat}
    (hlimit : env.stripe.retain = true →
      limit ≤ env.stripe.frontierRelOf (env.stripe.frontierOf s.gen)) :
    Record.stop r ≤ s.cursor ∨ limit ≤ r.start := by
  rcases h.kept_cases hr hk with hpass | ⟨hretain, -, hstart⟩
  · exact .inl ((h.placed r hr).behind hpass)
  · exact .inr (le_trans (hlimit hretain) hstart)

theorem frame (hbytes : s'.bytes = s.bytes) (hcursor : s'.cursor = s.cursor) (hgen : s'.gen = s.gen)
    (hlaid : s'.laid = s.laid) : LogOk env s' := by
  refine ⟨h.cursor.frame hcursor, ?_, ?_, ?_, ?_⟩
  · exact hgen ▸ h.flush
  · exact hcursor ▸ hgen ▸ h.runway
  · intro r hr
    have hp := h.placed r (hlaid ▸ hr)
    refine ⟨hp.ok, hp.start_le, hp.stop_le, hp.aligned, hgen ▸ hp.pass_le, hp.stamp, ?_, ?_⟩
    · rw [hgen, hcursor]
      exact hp.behind
    · rw [Kept, hgen, hbytes]
      exact hp.intact
  · exact hlaid ▸ h.disjoint

theorem of_bytes (hm : ∀ r ∈ s.laid, Kept env s r → Intact m r) :
    LogOk env { s with bytes := m } := by
  refine ⟨h.cursor.frame rfl, h.flush, h.runway, ?_, h.disjoint⟩
  intro r hr
  have hp := h.placed r hr
  exact ⟨hp.ok, hp.start_le, hp.stop_le, hp.aligned, hp.pass_le, hp.stamp, hp.behind, hm r hr⟩

theorem moved (hm : Moved env s s') : LogOk env s' := by
  have hgen := hm.gen_le
  have hbytes : s'.bytes = s.bytes := by rw [hm.frame]
  have hlaid : s'.laid = s.laid := by rw [hm.frame]
  refine ⟨hm.cursorOk h.cursor, ?_, ?_, ?_, ?_⟩
  · intro hflush
    rcases hm.flush hflush with heq | hall
    · rw [heq]
      exact h.flush hflush
    · exact .inr hall
  · intro hretain
    rcases hm.step with ⟨hcursor, hpass, -⟩ | ⟨hcursor, -⟩
    · rw [hcursor]
      refine le_trans (h.runway hretain) (Stripe.frontierRelOf_mono ?_)
      rw [← env.stripe.genOf_passOf s.gen, ← env.stripe.genOf_passOf s'.gen, hpass] at hgen
      exact Nat.le_of_add_le_add_left hgen
    · rw [hcursor]
      exact env.stripe.dataStart_le_frontierRelOf _
  · intro r hr
    rw [hlaid] at hr
    have hp := h.placed r hr
    refine ⟨hp.ok, hp.start_le, hp.stop_le, hp.aligned,
      le_trans hp.pass_le (Stripe.passOf_mono hgen), hp.stamp, ?_, ?_⟩
    · intro hpass
      have hle := hp.pass_le
      rcases hm.step with ⟨hcursor, hsame, -⟩ | ⟨-, hnext⟩
      · rw [hcursor]
        exact hp.behind (hpass.trans hsame)
      · omega
    · intro hk
      rw [hbytes]
      exact hp.intact (le_trans hgen hk)
  · rw [hlaid]
    exact h.disjoint

theorem write (hlimit : env.stripe.retain = true → s.cursor + bytes.length ≤
      env.stripe.frontierRelOf (env.stripe.frontierOf s.gen)) :
    (∀ r ∈ s.laid, Kept env s r → ∀ x, r.start ≤ x → x < Record.stop r →
      writeAt s.bytes s.cursor bytes x = s.bytes x) ∧
      LogOk env { s with bytes := writeAt s.bytes s.cursor bytes } := by
  have hsame : ∀ r ∈ s.laid, Kept env s r → ∀ x, r.start ≤ x → x < Record.stop r →
      writeAt s.bytes s.cursor bytes x = s.bytes x := by
    intro r hr hk x hle hlt
    apply writeAt_outside
    rcases h.untouched hr hk hlimit with hbehind | hahead
    · exact .inl (by omega)
    · exact .inr (by omega)
  refine ⟨hsame, h.of_bytes fun r hr hk => ?_⟩
  have hp := h.placed r hr
  exact (hp.intact hk).congr hp.ok fun x hle hlt _ => hsame r hr hk x hle hlt

theorem inPlace {q : Record} (hq : q ∈ s.laid) (hk : Kept env s q)
    (hm : ∀ x, x < q.start + Document.kHitCountOffset ∨
      q.start + Document.kLastAccessOffset + 8 ≤ x → m x = s.bytes x) :
    (∀ r ∈ s.laid, Kept env s r → r ≠ q → ∀ x, r.start ≤ x → x < Record.stop r →
      m x = s.bytes x) ∧ LogOk env { s with bytes := m } := by
  have hlen := (h.placed q hq).ok.header_le
  have hother : ∀ r ∈ s.laid, Kept env s r → r ≠ q → ∀ x, r.start ≤ x →
      x < Record.stop r → m x = s.bytes x := by
    intro r hr hkr hne x hle hlt
    apply hm
    simp only [kHeaderSize, Document.kHitCountOffset, Document.kLastAccessOffset] at hlen ⊢
    rcases h.apart hr hq hkr hk with heq | hbefore | hafter
    · exact absurd heq hne
    · omega
    · simp only [Record.stop] at hafter
      omega
  refine ⟨hother, h.of_bytes fun r hr hkr => ?_⟩
  have hp := h.placed r hr
  by_cases hrq : r = q
  · subst hrq
    exact (hp.intact hkr).congr hp.ok fun x _ _ hout => hm x hout
  · exact (hp.intact hkr).congr hp.ok fun x hle hlt _ => hother r hr hkr hrq x hle hlt

end

end LogOk

structure InSlot (slot : Slot) (m : Memory) (r : Record) : Prop where
  ok : RecordOk r
  start_le : slot.writeOffset ≤ r.start
  stop_le : Record.stop r ≤ slot.newWritePos
  aligned : r.start % 8 = 0
  pass : r.pass = slot.pass
  stamp : r.doc.writeSerial = r.pass % 2 ^ 32
  intact : Intact m r

theorem length_fillImage_le {slot : Slot} {limit : Nat}
    (hbytes : slot.writeOffset + bytes.length ≤ limit) (hfill : slot.fillEnd ≤ limit) :
    slot.writeOffset + (fillImage slot bytes).length ≤ limit := by
  rw [fillImage, List.length_append, List.length_replicate]
  omega

section

variable {env : Env} {s : State} {slot : Slot} {len : Nat} {bytes : List UInt8}

theorem Granted.image_le (hg : Granted env s len slot) (hlen : bytes.length ≤ roundUp8 len)
    (hretain : env.stripe.retain = true) :
    s.cursor + (fillImage slot bytes).length ≤
      env.stripe.frontierRelOf (env.stripe.frontierOf s.gen) := by
  have hrun := hg.room.runway hretain
  rw [← hg.writeOffset]
  refine length_fillImage_le ?_ (hg.fillEnd_runway hretain)
  rw [hg.writeOffset]
  omega

theorem Granted.take_le (hg : Granted env s len slot) (hlen : bytes.length ≤ roundUp8 len)
    (n : Nat) (hretain : env.stripe.retain = true) :
    s.cursor + ((fillImage slot bytes).take n).length ≤
      env.stripe.frontierRelOf (env.stripe.frontierOf s.gen) := by
  have htake := List.length_take_le' n (fillImage slot bytes)
  have himage := hg.image_le hlen hretain
  omega

theorem LogOk.fillShort (h : LogOk env s) (hg : Granted env s len slot)
    (hlen : bytes.length ≤ roundUp8 len) (n : Nat) :
    LogOk env (fillSlot s slot bytes (some n)) := by
  rw [fillSlot, hg.writeOffset]
  exact (h.write (hg.take_le hlen n)).2

theorem LogOk.fill (h : LogOk env s) (hg : Granted env s len slot)
    (hlen : bytes.length ≤ roundUp8 len) {rs : List Record}
    (hrs : ∀ r ∈ rs, InSlot slot (fillSlot s slot bytes none).bytes r)
    (hapart : ∀ r ∈ rs, ∀ r' ∈ rs, r = r' ∨ Apart r r') :
    LogOk env { fillSlot s slot bytes none with laid := rs ++ s.laid } := by
  have hw := (h.write (hg.image_le hlen)).2
  rw [← hg.writeOffset] at hw
  have hnew : slot.newWritePos = s.cursor + roundUp8 len := hg.newWritePos
  have hsize := hg.room.fits
  have hstart := hg.writeOffset
  have hdata := h.cursor.start_le
  -- what this pass laid before lies behind the slot
  have hbehind : ∀ r ∈ s.laid, ∀ r' ∈ rs, r.pass = r'.pass → Apart r r' := by
    intro r hr r' hr' hpass
    have hle := (h.placed r hr).behind (hpass.trans ((hrs r' hr').pass.trans hg.pass))
    have hle' := (hrs r' hr').start_le
    exact .inl (by omega)
  refine ⟨hg.cursorOk h.cursor rfl, h.flush, ?_, ?_, ?_⟩
  · intro hretain
    show slot.newWritePos ≤ _
    rw [hnew]
    exact hg.room.runway hretain
  · intro r hr
    rcases List.mem_append.mp hr with hr | hr
    · have hin := hrs r hr
      have hle := hin.start_le
      have hstop := hin.stop_le
      refine ⟨hin.ok, by omega, by omega, hin.aligned, ?_, hin.stamp, fun _ => hstop,
        fun _ => hin.intact⟩
      rw [hin.pass, hg.pass]
      exact le_rfl
    · have hp := hw.placed r hr
      refine ⟨hp.ok, hp.start_le, hp.stop_le, hp.aligned, hp.pass_le, hp.stamp, ?_, hp.intact⟩
      intro hpass
      have hle : Record.stop r ≤ slot.writeOffset := hp.behind hpass
      show Record.stop r ≤ slot.newWritePos
      omega
  · intro r hr r' hr' hpass
    rcases List.mem_append.mp hr with hr | hr <;> rcases List.mem_append.mp hr' with hr' | hr'
    · exact hapart r hr r' hr'
    · exact .inr (hbehind r' hr' r hr hpass.symm).symm
    · exact .inr (hbehind r hr r' hr' hpass)
    · exact h.disjoint r hr r' hr' hpass

end

structure EntryFor (e : DirEntry) (r : Record) : Prop where
  origin : e.origin = some r
  offset : e.offset = r.start % 2 ^ 40
  tag : e.tag = r.key.tag
  fillSerial : e.fillSerial = r.doc.fillSerial
  approxSize : e.approxSize = approxSizeOf r.doc.len

structure EntryOf (e : DirEntry) (r : Record) : Prop extends EntryFor e r where
  phase : e.phase = phaseOf r.pass

structure DirOk (s : State) : Prop where
  published : ∀ r ∈ s.published, r ∈ s.laid
  pending : ∀ r ∈ s.pending, r ∈ s.laid
  entries : ∀ i, ∀ e ∈ s.buckets i, e.isEmpty = false →
    ∃ r ∈ s.published, EntryFor e r ∧ bucketIdx r.key = i

def LinkNames (s : State) (pass link : Nat) : Prop :=
  Document.linkOffset link = 0 ∨ ∃ q ∈ s.laid, q.pass = pass ∧ q.start = Document.linkOffset link

def LinksOk (env : Env) (s : State) : Prop :=
  ∀ r ∈ s.laid, Kept env s r →
    LinkNames s r.pass (Document.deserialize s.bytes r.start).nextAlternateOffset

structure VolumeOk (env : Env) (s : State) : Prop where
  log : LogOk env s
  dir : DirOk s
  links : LinksOk env s

theorem volumeOk_fresh (env : Env) (bytes : Memory) : VolumeOk env (State.fresh env bytes) := by
  refine ⟨logOk_fresh env bytes, ⟨?_, ?_, ?_⟩, ?_⟩
  · intro r hr
    cases hr
  · intro r hr
    cases hr
  · intro i e he hne
    rw [List.eq_of_mem_replicate he, empty_isEmpty] at hne
    cases hne
  · intro r hr
    cases hr

variable {s : State}

theorem LinkNames.mono {s' : State} {pass link : Nat} (h : LinkNames s pass link)
    (hsub : ∀ r ∈ s.laid, r ∈ s'.laid) : LinkNames s' pass link := by
  rcases h with hzero | ⟨q, hq, hpass, hstart⟩
  · exact .inl hzero
  · exact .inr ⟨q, hsub q hq, hpass, hstart⟩

theorem DirOk.frame {s' : State} (h : DirOk s) (hbuckets : s'.buckets = s.buckets)
    (hpublished : s'.published = s.published) (hpending : s'.pending = s.pending)
    (hlaid : ∀ r ∈ s.laid, r ∈ s'.laid) : DirOk s' := by
  refine ⟨?_, ?_, ?_⟩
  · rw [hpublished]
    exact fun r hr => hlaid r (h.published r hr)
  · rw [hpending]
    exact fun r hr => hlaid r (h.pending r hr)
  · rw [hbuckets, hpublished]
    exact h.entries

namespace VolumeOk

variable {env : Env} {s s' : State}

section

variable (h : VolumeOk env s)
include h

theorem moved (hm : Moved env s s') : VolumeOk env s' := by
  have hframe := hm.frame
  refine ⟨h.log.moved hm, ?_, ?_⟩
  · rw [hframe]
    exact h.dir.frame rfl rfl rfl fun _ hr => hr
  · intro r hr hk
    rw [hframe] at hr ⊢
    exact (h.links r hr (le_trans hm.gen_le hk)).mono fun _ hq => hq

theorem frame (versions : Nat → Nat) (lockGen : Nat) (ram : List RamEntry) :
    VolumeOk env { s with versions := versions, lockGen := lockGen, ram := ram } := by
  refine ⟨h.log.frame rfl rfl rfl rfl, h.dir.frame rfl rfl rfl fun _ hr => hr, ?_⟩
  exact fun r hr hk => (h.links r hr hk).mono fun _ hq => hq

theorem linksOk_of_same
    (hm : ∀ r ∈ s.laid, Kept env s r → ∀ x, r.start ≤ x → x < Record.stop r → m x = s.bytes x) :
    ∀ r ∈ s.laid, Kept env s r →
      LinkNames s r.pass (Document.deserialize m r.start).nextAlternateOffset := by
  intro r hr hk
  have hlen := (h.log.placed r hr).ok.header_le
  have hsame : Document.deserialize m r.start = Document.deserialize s.bytes r.start := by
    apply Document.deserialize_congr
    intro x hle hlt
    refine hm r hr hk x hle ?_
    simp only [Record.stop]
    omega
  rw [hsame]
  exact h.links r hr hk

theorem fillShort {slot : Slot} {len : Nat} (hg : Granted env s len slot)
    (hlen : bytes.length ≤ roundUp8 len) (n : Nat) :
    VolumeOk env (fillSlot s slot bytes (some n)) := by
  refine ⟨h.log.fillShort hg hlen n, h.dir.frame rfl rfl rfl fun _ hr => hr, ?_⟩
  intro r hr hk
  rw [fillSlot, hg.writeOffset]
  exact (h.linksOk_of_same (h.log.write (hg.take_le hlen n)).1 r hr hk).mono fun _ hq => hq

theorem fill {slot : Slot} {len : Nat} (hg : Granted env s len slot)
    (hlen : bytes.length ≤ roundUp8 len) (rs ps : List Record)
    (hrs : ∀ r ∈ rs, InSlot slot (fillSlot s slot bytes none).bytes r)
    (hapart : ∀ r ∈ rs, ∀ r' ∈ rs, r = r' ∨ Apart r r')
    (hlinks : ∀ r ∈ rs, LinkNames { s with laid := rs ++ s.laid } r.pass
      (Document.deserialize (fillSlot s slot bytes none).bytes r.start).nextAlternateOffset)
    (hps : ∀ r ∈ ps, r ∈ rs) :
    VolumeOk env { fillSlot s slot bytes none with
      laid := rs ++ s.laid, pending := ps ++ s.pending } := by
  refine ⟨(h.log.fill hg hlen hrs hapart).frame rfl rfl rfl rfl, ⟨?_, ?_, h.dir.entries⟩, ?_⟩
  · exact fun r hr => List.mem_append_right _ (h.dir.published r hr)
  · intro r hr
    rcases List.mem_append.mp hr with hr | hr
    · exact List.mem_append_left _ (hps r hr)
    · exact List.mem_append_right _ (h.dir.pending r hr)
  · intro r hr hk
    rcases List.mem_append.mp hr with hr | hr
    · exact (hlinks r hr).mono fun _ hq => hq
    · have hold := h.linksOk_of_same (h.log.write (hg.image_le hlen)).1 r hr hk
      rw [← hg.writeOffset] at hold
      exact hold.mono fun _ hq => List.mem_append_right _ hq

theorem inPlace {q : Record} (hq : q ∈ s.laid) (hk : Kept env s q)
    (hm : ∀ x, x < q.start + Document.kHitCountOffset ∨
      q.start + Document.kLastAccessOffset + 8 ≤ x → m x = s.bytes x)
    (hlink : LinkNames s q.pass (Document.deserialize m q.start).nextAlternateOffset) :
    VolumeOk env { s with bytes := m } := by
  obtain ⟨hother, hlog⟩ := h.log.inPlace hq hk hm
  refine ⟨hlog, h.dir.frame rfl rfl rfl fun _ hr => hr, ?_⟩
  intro r hr hkr
  by_cases hrq : r = q
  · rw [hrq]
    exact hlink.mono fun _ hq => hq
  · have hlen := (h.log.placed r hr).ok.header_le
    have hsame : Document.deserialize m r.start = Document.deserialize s.bytes r.start := by
      apply Document.deserialize_congr
      intro x hle hlt
      refine hother r hr hkr hrq x hle ?_
      simp only [Record.stop]
      omega
    show LinkNames _ _ (Document.deserialize m r.start).nextAlternateOffset
    rw [hsame]
    exact (h.links r hr hkr).mono fun _ hq => hq

theorem setBucket (key : CacheKey) {b : Bucket} {pending published : List Record}
    (hpending : ∀ r ∈ pending, r ∈ s.pending) (hpublished : ∀ r ∈ published, r ∈ s.laid)
    (hmore : ∀ r ∈ s.published, r ∈ published) (hb : ∀ e ∈ b, e.isEmpty = false →
      ∃ r ∈ published, EntryFor e r ∧ bucketIdx r.key = bucketIdx key) :
    VolumeOk env { s.setBucket key b with pending := pending, published := published } := by
  refine ⟨h.log.frame rfl rfl rfl rfl, ⟨hpublished, ?_, ?_⟩, ?_⟩
  · exact fun r hr => h.dir.pending r (hpending r hr)
  · intro i e he hne
    simp only [State.setBucket, Function.update_apply] at he
    split at he
    · next hi =>
      rw [hi]
      exact hb e he hne
    · obtain ⟨r, hr, hentry, hidx⟩ := h.dir.entries i e he hne
      exact ⟨r, hmore r hr, hentry, hidx⟩
  · exact fun r hr hk => (h.links r hr hk).mono fun _ hq => hq

end

end VolumeOk

theorem entryFor_stored {env : Env} {e : DirEntry} (h : (env.publication s r).Stored e) :
    EntryFor e r :=
  ⟨h.origin, h.offset, h.tag, h.fillSerial, h.approxSize⟩

theorem entryOf_stored {env : Env} {e : DirEntry} (h : (env.publication s r).Stored e)
    (hpass : env.stripe.passOf s.gen = r.pass) : EntryOf e r :=
  ⟨entryFor_stored h, by rw [← hpass]; exact h.phase⟩

theorem VolumeOk.publish {env : Env} (h : VolumeOk env s) (hr : r ∈ s.laid) {b : Bucket}
    {verified : Option Nat} {clears : List Nat} {slot : Nat}
    (hins : Inserted (s.bucket r.key) b (env.publication s r) verified clears slot)
    {pending : List Record} (hpending : ∀ q ∈ pending, q ∈ s.pending) :
    VolumeOk env { s.setBucket r.key b with
      pending := pending, published := r :: s.published } := by
  refine h.setBucket r.key hpending ?_ (fun _ hq => List.mem_cons_of_mem _ hq) ?_
  · exact List.forall_mem_cons.mpr ⟨hr, h.dir.published⟩
  · intro e he hne
    rcases hins.mem he hne with hold | hstored
    · obtain ⟨q, hq, hentry, hidx⟩ := h.dir.entries _ e hold hne
      exact ⟨q, List.mem_cons_of_mem _ hq, hentry, hidx⟩
    · exact ⟨r, List.mem_cons_self, entryFor_stored hstored, rfl⟩

end CycloneCache.Ref.Volume

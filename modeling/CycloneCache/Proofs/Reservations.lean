import CycloneCache.Proofs.VolumeSlots
import CycloneCache.Ref.Reservations

namespace CycloneCache.Ref.Volume

open Lib Function

def Reservations.top (env : Env) (s : Reservations) : Nat :=
  match s.filled with
  | [] => env.stripe.dataStart
  | slot :: _ =>
    if slot.pass = env.stripe.passOf s.vol.gen then slot.newWritePos
    else env.stripe.dataStart

def Slot.fillTo (slot : Slot) : Nat := max slot.newWritePos slot.fillEnd

structure Grant.Inside (env : Env) (g : Grant) : Prop where
  aligned : (env.stripe.offset + g.slot.writeOffset) % 8 = 0
  start_le : env.stripe.dataStart ≤ g.slot.writeOffset
  ordered : g.slot.writeOffset < g.slot.newWritePos
  end_le : g.slot.newWritePos ≤ env.stripe.size
  runway : env.stripe.retain = true →
    g.slot.newWritePos ≤ env.stripe.frontierRelOf (env.stripe.frontierOf g.gen)
  fill_le : g.slot.fillTo ≤ env.stripe.size
  fill_runway : env.stripe.retain = true →
    g.slot.fillTo ≤ env.stripe.frontierRelOf (env.stripe.frontierOf g.gen)
  fill_near : g.slot.fillTo < g.slot.newWritePos + kTailFillPage
  serial : g.slot.fillSerial < 2 ^ 16

structure Reserved (env : Env) (s : Reservations) (p len : Nat) (wrapped : Bool)
    (s' : Reservations) : Prop where
  moved : Moved env { s.vol with cursor := env.adoptCursor s p - env.stripe.offset } s'.vol
  pass : env.stripe.passOf s'.vol.gen = env.stripe.passOf s.vol.gen + if wrapped then 1 else 0
  writePos : s'.writePos = Function.update s.writePos p (env.stripe.offset + s'.vol.cursor)
  shared : s'.sharedWritePos =
    if wrapped && env.mmapDirectory then env.dataOffset else s.sharedWritePos
  wraps : s'.wraps = if wrapped then s.wraps + 1 else s.wraps
  filled : s'.filled = s.filled
  grant : (s'.held = s.held ∧ s'.granted = s.granted) ∨
    ∃ slot, Granted env s'.vol len slot ∧ s'.held = some (p, slot) ∧
      s'.granted = ⟨slot, s'.vol.gen⟩ :: s.granted

variable {env : Env} {len p : Nat} {s s' : Reservations} {slot : Slot}

theorem reserve_ok {gates : Gates}
    (hbound : env.adoptCursor s p - env.stripe.offset ≤ env.stripe.size) :
    ∃ wrapped, Reserved env s p len wrapped (env.reserve s p len gates) := by
  unfold Env.reserve
  simp only []
  generalize hvol : ({ s.vol with cursor := env.adoptCursor s p - env.stripe.offset } : State) = vol
  have hcursor : vol.cursor ≤ env.stripe.size := by rw [← hvol]; exact hbound
  have hgen : vol.gen = s.vol.gen := by rw [← hvol]
  refine ⟨env.allocationWraps vol (roundUp8 len) gates, ?_⟩
  cases halloc : env.allocateWriteSlot vol len gates with
  | mk vol' res =>
    obtain ⟨hmoved, hgranted, hpass⟩ := allocateWriteSlot_moves halloc hcursor
    have hwraps : env.stripe.passOf vol'.gen = env.stripe.passOf s.vol.gen +
        if env.allocationWraps vol (roundUp8 len) gates then 1 else 0 := by
      rw [hpass, hgen]
      simp only [Env.allocationWraps, Bool.and_eq_true, Bool.or_eq_true, decide_eq_true_eq,
        and_assoc]
    rw [← hvol] at hmoved
    cases res with
    | error e => exact ⟨hmoved, hwraps, rfl, rfl, rfl, rfl, .inl ⟨rfl, rfl⟩⟩
    | ok slot =>
      exact ⟨hmoved, hwraps, rfl, rfl, rfl, rfl, .inr ⟨slot, hgranted slot rfl, rfl, rfl⟩⟩

theorem kHeaderSize_le_roundUp8 (h : kHeaderSize ≤ len) : 136 ≤ roundUp8 len := by
  simp only [kHeaderSize, roundUp8] at *
  omega

theorem Granted.inside {vol : State} (h : Granted env vol len slot) (hlen : kHeaderSize ≤ len)
    (hstart : env.stripe.dataStart ≤ vol.cursor)
    (haligned : (env.stripe.offset + vol.cursor) % 8 = 0) : Grant.Inside env ⟨slot, vol.gen⟩ := by
  have hnew := h.newWritePos
  have hlong := kHeaderSize_le_roundUp8 hlen
  have hfits := h.room.fits
  refine ⟨h.writeOffset ▸ haligned, h.writeOffset ▸ hstart, ?_, ?_, ?_, ?_, ?_, ?_, h.serial⟩
  · have := h.writeOffset
    show slot.writeOffset < slot.newWritePos
    omega
  · exact hnew ▸ hfits
  · exact fun hretain => hnew ▸ h.room.runway hretain
  · exact Nat.max_le.mpr ⟨hnew ▸ hfits, h.fillEnd_le⟩
  · exact fun hretain => Nat.max_le.mpr ⟨hnew ▸ h.room.runway hretain, h.fillEnd_runway hretain⟩
  · refine Nat.max_lt.mpr ⟨?_, h.fillEnd_near⟩
    simp only [kTailFillPage]
    omega

def Continues (b a : Slot) : Prop := a.pass = b.pass → b.writeOffset = a.newWritePos

def Behind (b a : Slot) : Prop := a.pass = b.pass → a.newWritePos ≤ b.writeOffset

structure HeldOk (env : Env) (top pass : Nat) (slot : Slot) : Prop where
  start : slot.writeOffset = top
  pass : slot.pass = pass
  ordered : slot.writeOffset ≤ slot.newWritePos
  end_le : slot.newWritePos ≤ env.stripe.size
  aligned : slot.newWritePos % 8 = 0

structure ReserveInv (env : Env) (s : Reservations) : Prop where
  shared : env.mmapDirectory = true → s.sharedWritePos = env.stripe.offset + s.top env ∨
    (s.sharedWritePos = 0 ∧ s.top env = env.stripe.dataStart ∧ ∀ p, s.writePos p = env.dataOffset)
  own : env.mmapDirectory = false → s.writePos 0 = env.stripe.offset + s.top env
  start_le : env.stripe.dataStart ≤ s.top env
  le_size : s.top env ≤ env.stripe.size
  aligned : s.top env % 8 = 0
  held : ∀ p slot, s.held = some (p, slot) → (env.mmapDirectory = true ∨ p = 0) ∧
      HeldOk env (s.top env) (env.stripe.passOf s.vol.gen) slot
  behind : ∀ slot ∈ s.filled, slot.pass ≤ env.stripe.passOf s.vol.gen ∧
    (slot.pass = env.stripe.passOf s.vol.gen → slot.newWritePos ≤ s.top env)
  disjoint : s.filled.Pairwise Behind
  consecutive : s.filled.IsChain Continues
  grants : ∀ g ∈ s.granted, Grant.Inside env g
  wraps : env.stripe.passOf s.vol.gen = s.wraps

theorem seatCursor_zero (env : Env) : env.seatCursor 0 = env.dataOffset := by
  simp [Env.seatCursor]

theorem reserveInv_fresh (env : Env) : ReserveInv env (.fresh env) where
  shared := fun _ => .inr ⟨rfl, rfl, fun _ => seatCursor_zero env⟩
  own := fun _ => seatCursor_zero env
  start_le := le_rfl
  le_size := Nat.le_of_lt env.stripe.start_lt
  aligned := env.stripe.start_aligned
  held := nofun
  behind := nofun
  disjoint := .nil
  consecutive := .nil
  grants := nofun
  wraps := Nat.zero_div _

theorem ReserveInv.adopt (h : ReserveInv env s) (hp : env.mmapDirectory = true ∨ p = 0) :
    env.adoptCursor s p = env.stripe.offset + s.top env := by
  have hstart := env.start_pos
  have hle := h.start_le
  have hsize := h.le_size
  cases hmmap : env.mmapDirectory with
  | true =>
    rcases h.shared hmmap with htop | ⟨hzero, htop, hall⟩
    · have hin : env.dataOffset ≤ s.sharedWritePos ∧ s.sharedWritePos ≤ env.areaEnd := by
        simp only [Env.dataOffset, Env.areaEnd]
        omega
      exact (if_pos ⟨hmmap, hin⟩).trans htop
    · have hout : ¬ (env.mmapDirectory = true ∧ s.sharedWritePos ≥ env.dataOffset ∧
          s.sharedWritePos ≤ env.areaEnd) := by
        rintro ⟨-, hge, -⟩
        simp only [Env.dataOffset] at hge
        omega
      rw [Env.adoptCursor, if_neg hout, hall p, htop, Env.dataOffset]
  | false =>
    have hlocal : ¬ env.mmapDirectory = true := by
      rw [hmmap]
      exact Bool.false_ne_true
    obtain rfl : p = 0 := hp.resolve_left hlocal
    rw [Env.adoptCursor, if_neg fun h => hlocal h.1, h.own hmmap]

theorem top_eq (hfilled : s'.filled = s.filled)
    (hpass : env.stripe.passOf s'.vol.gen = env.stripe.passOf s.vol.gen) :
    s'.top env = s.top env := by
  simp only [Reservations.top, hfilled, hpass]

theorem ReserveInv.top_wrap (h : ReserveInv env s) (hfilled : s'.filled = s.filled)
    (hpass : env.stripe.passOf s'.vol.gen = env.stripe.passOf s.vol.gen + 1) :
    s'.top env = env.stripe.dataStart := by
  simp only [Reservations.top, hfilled]
  cases hlast : s.filled with
  | nil => rfl
  | cons slot rest =>
    have hle := (h.behind slot (by rw [hlast]; exact List.mem_cons_self)).1
    exact if_neg (by omega)

theorem ReserveInv.cursor_top {wrapped : Bool} (h : ReserveInv env s)
    (hp : env.mmapDirectory = true ∨ p = 0) (hres : Reserved env s p len wrapped s') :
    s'.vol.cursor = s'.top env := by
  have hadopt := h.adopt hp
  rcases hres.moved.step with ⟨hcursor, hpass, -⟩ | ⟨hcursor, hpass⟩
  · rw [hcursor, top_eq hres.filled hpass]
    simp only [hadopt]
    omega
  · rw [hcursor, h.top_wrap hres.filled hpass]

theorem ReserveInv.reserve {wrapped : Bool} (h : ReserveInv env s)
    (hp : env.mmapDirectory = true ∨ p = 0) (hlen : kHeaderSize ≤ len) (hfree : s.held = none)
    (hres : Reserved env s p len wrapped s') : ReserveInv env s' := by
  have hcursor := h.cursor_top hp hres
  have hbounds : env.stripe.dataStart ≤ s'.top env ∧ s'.top env ≤ env.stripe.size ∧
      s'.top env % 8 = 0 := by
    cases wrapped with
    | false =>
      rw [top_eq hres.filled (by simpa using hres.pass)]
      exact ⟨h.start_le, h.le_size, h.aligned⟩
    | true =>
      rw [h.top_wrap hres.filled (by simpa using hres.pass)]
      exact ⟨le_rfl, Nat.le_of_lt env.stripe.start_lt, env.stripe.start_aligned⟩
  have haligned : (env.stripe.offset + s'.vol.cursor) % 8 = 0 := by
    have := env.offset_aligned
    omega
  refine ⟨?_, ?_, hbounds.1, hbounds.2.1, hbounds.2.2, ?_, ?_, hres.filled ▸ h.disjoint,
    hres.filled ▸ h.consecutive, ?_, ?_⟩
  · intro hmmap
    rw [hres.shared, hmmap, hres.writePos, hcursor]
    cases wrapped with
    | true =>
      rw [h.top_wrap hres.filled (by simpa using hres.pass)]
      exact .inl rfl
    | false =>
      rw [top_eq hres.filled (by simpa using hres.pass)]
      rcases h.shared hmmap with htop | ⟨hzero, htop, hall⟩
      · exact .inl htop
      · refine .inr ⟨hzero, htop, fun q => ?_⟩
        by_cases hq : q = p
        · rw [hq, update_self, htop, Env.dataOffset]
        · rw [update_of_ne hq, hall q]
  · intro hmmap
    obtain rfl : p = 0 := hp.resolve_left (by rw [hmmap]; exact Bool.false_ne_true)
    rw [hres.writePos, update_self, hcursor]
  · intro q slot hheld
    rcases hres.grant with ⟨hsame, -⟩ | ⟨slot', hg, hheld', -⟩
    · rw [hsame, hfree] at hheld
      cases hheld
    · rw [hheld'] at hheld
      cases hheld
      have hnew := hg.newWritePos
      have hstart := hg.writeOffset
      have hfits := hg.room.fits
      have hround := roundUp8_mod len
      exact ⟨hp, hstart.trans hcursor, hg.pass, by omega, by omega, by omega⟩
  · intro slot hmem
    rw [hres.filled] at hmem
    obtain ⟨hle, htop⟩ := h.behind slot hmem
    have hpass := hres.pass
    cases wrapped with
    | false =>
      rw [top_eq hres.filled (by simpa using hpass), show env.stripe.passOf s'.vol.gen =
        env.stripe.passOf s.vol.gen by simpa using hpass]
      exact ⟨hle, htop⟩
    | true =>
      simp only [if_true] at hpass
      exact ⟨by omega, fun heq => absurd heq (by omega)⟩
  · intro g hmem
    rcases hres.grant with ⟨-, hsame⟩ | ⟨slot, hg, -, hnew⟩
    · exact h.grants g (hsame ▸ hmem)
    · rw [hnew] at hmem
      rcases List.mem_cons.mp hmem with rfl | hold
      · exact hg.inside hlen (hcursor ▸ hbounds.1) haligned
      · exact h.grants g hold
  · rw [hres.pass, hres.wraps, h.wraps]
    cases wrapped <;> rfl

theorem HeldOk.top_commit (h : HeldOk env (s.top env) (env.stripe.passOf s.vol.gen) slot)
    (hfilled : s'.filled = slot :: s.filled) (hgen : s'.vol.gen = s.vol.gen) :
    s'.top env = slot.newWritePos := by
  simp only [Reservations.top, hfilled, hgen]
  exact if_pos h.pass

theorem HeldOk.continues (h : HeldOk env (s.top env) (env.stripe.passOf s.vol.gen) slot)
    (hchain : s.filled.IsChain Continues) : (slot :: s.filled).IsChain Continues := by
  cases hlast : s.filled with
  | nil => exact .singleton slot
  | cons last rest =>
    refine .cons_cons (fun hpass => ?_) (hlast ▸ hchain)
    rw [h.start]
    simp only [Reservations.top, hlast]
    exact if_pos (hpass.trans h.pass)

theorem ReserveInv.commit (h : ReserveInv env s) (hheld : s.held = some (p, slot)) (fillOk : Bool) :
    ReserveInv env (env.commitSlot s p slot fillOk) := by
  obtain ⟨hp, hslot⟩ := h.held p slot hheld
  cases fillOk with
  | false =>
    exact ⟨h.shared, h.own, h.start_le, h.le_size, h.aligned, nofun,
      h.behind, h.disjoint, h.consecutive, h.grants, h.wraps⟩
  | true =>
    have htop : (env.commitSlot s p slot true).top env = slot.newWritePos :=
      hslot.top_commit rfl rfl
    have hstart := hslot.start
    have hordered := hslot.ordered
    have hle := h.start_le
    refine ⟨?_, ?_, htop ▸ by omega, htop ▸ hslot.end_le, htop ▸ hslot.aligned,
      nofun, ?_, ?_, hslot.continues h.consecutive, h.grants, h.wraps⟩
    · intro hmmap
      rw [htop]
      exact .inl (if_pos hmmap)
    · intro hmmap
      obtain rfl : p = 0 := hp.resolve_left (by rw [hmmap]; exact Bool.false_ne_true)
      rw [htop]
      exact update_self 0 _ s.writePos
    · intro slot' hmem
      rw [htop]
      rcases List.mem_cons.mp hmem with rfl | hold
      · exact ⟨hslot.pass.le, fun _ => le_rfl⟩
      · obtain ⟨hpass, hend⟩ := h.behind slot' hold
        exact ⟨hpass, fun heq => le_trans (hend heq) (by omega)⟩
    · refine List.pairwise_cons.mpr ⟨fun slot' hold hpass => ?_, h.disjoint⟩
      rw [hstart]
      exact (h.behind slot' hold).2 (hpass.trans hslot.pass)

theorem ReserveInv.openShared (h : ReserveInv env s) (hmmap : env.mmapDirectory = true) (p : Nat) :
    ReserveInv env { s with
      writePos := update s.writePos p (env.seatCursor s.sharedWritePos) } := by
  refine ⟨fun _ => ?_, fun hlocal => absurd (hlocal.symm.trans hmmap) Bool.false_ne_true,
    h.start_le, h.le_size, h.aligned, h.held, h.behind, h.disjoint, h.consecutive, h.grants,
    h.wraps⟩
  rcases h.shared hmmap with htop | ⟨hzero, htop, hall⟩
  · exact .inl htop
  · refine .inr ⟨hzero, htop, fun q => ?_⟩
    simp only [hzero, seatCursor_zero]
    by_cases hq : q = p
    · rw [hq, update_self]
    · rw [update_of_ne hq, hall q]

theorem reserveStep_cases {act : ReserveAct} (h : env.reserveStep s act = some s')
    (hbound : ∀ p, (env.mmapDirectory = true ∨ p = 0) →
      env.adoptCursor s p - env.stripe.offset ≤ env.stripe.size) :
    (∃ p, act = .openShared p ∧ env.mmapDirectory = true ∧ s' = { s with
        writePos := update s.writePos p (env.seatCursor s.sharedWritePos) }) ∨
    (∃ p len gates wrapped, act = .allocate p len gates ∧ s.held = none ∧
      (env.mmapDirectory = true ∨ p = 0) ∧ kHeaderSize ≤ len ∧
      Reserved env s p len wrapped s') ∨
    ∃ p slot fillOk, act = .commit fillOk ∧ s.held = some (p, slot) ∧
      s' = env.commitSlot s p slot fillOk := by
  cases act with unfold Env.reserveStep at h
  | openShared p =>
    simp only [] at h
    split at h <;> cases h
    next hopen =>
    exact .inl ⟨p, rfl, hopen.1, rfl⟩
  | allocate p len gates =>
    simp only [] at h
    split at h <;> cases h
    next hfree =>
    obtain ⟨wrapped, hres⟩ := @reserve_ok env len p s gates (hbound p hfree.2.1)
    exact .inr (.inl ⟨p, len, gates, wrapped, rfl, Option.isNone_iff_eq_none.mp hfree.1,
      hfree.2.1, hfree.2.2, hres⟩)
  | commit fillOk =>
    simp only [] at h
    split at h <;> cases h
    next p slot hheld =>
    exact .inr (.inr ⟨p, slot, fillOk, rfl, hheld, rfl⟩)

theorem ReserveInv.bound (h : ReserveInv env s) (p : Nat) (hp : env.mmapDirectory = true ∨ p = 0) :
    env.adoptCursor s p - env.stripe.offset ≤ env.stripe.size := by
  have hadopt := h.adopt hp
  have hle := h.le_size
  omega

theorem reserveInv_run {acts : List ReserveAct}
    (hrun : runs env.reserveStep (.fresh env) acts = some s) : ReserveInv env s := by
  refine runs_inv (fun s act s' h hstep => ?_) hrun (reserveInv_fresh env)
  rcases reserveStep_cases hstep h.bound with ⟨p, -, hmmap, rfl⟩ |
    ⟨p, len, gates, wrapped, -, hfree, hp, hlen, hres⟩ | ⟨p, slot, fillOk, -, hheld, rfl⟩
  · exact h.openShared hmmap p
  · exact h.reserve hp hlen hfree hres
  · exact h.commit hheld fillOk

theorem ReserveInv.gen_le {act : ReserveAct} (h : ReserveInv env s)
    (hstep : env.reserveStep s act = some s') : s.vol.gen ≤ s'.vol.gen := by
  rcases reserveStep_cases hstep h.bound with ⟨p, -, -, rfl⟩ |
    ⟨p, len, gates, wrapped, -, -, -, -, hres⟩ | ⟨p, slot, fillOk, -, -, rfl⟩
  · exact le_rfl
  · exact hres.moved.gen_le
  · cases fillOk <;> exact le_rfl

/-- What is granted, filled and visible along any run from a new directory:
every slot lies where it should, complete fills of one pass follow each other
without a gap or an overlap, readers never see past the last of them, and the
generation word counts the wraps. -/
theorem reservation_discipline (cfg : VolumeConfig) (set : Settings) (i : Nat)
    (hfits : stripeGeometryFits cfg = true)
    (hi : i < (computeStripeGeometry cfg.size cfg.stripeSize).numStripes)
    {acts : List ReserveAct} {s : Reservations}
    (hrun : runs (initStripe cfg set i hfits hi).reserveStep
      (.fresh (initStripe cfg set i hfits hi)) acts = some s) :
    let env := initStripe cfg set i hfits hi
    (∀ g ∈ s.granted, g.Inside env) ∧ s.filled.Pairwise Behind ∧
      s.filled.IsChain Continues ∧ env.guardCursor s ≤ env.stripe.offset + s.top env ∧
      env.stripe.passOf s.vol.gen = s.wraps ∧
      ∀ act s', env.reserveStep s act = some s' → s.vol.gen ≤ s'.vol.gen := by
  intro env
  have h : ReserveInv env s := reserveInv_run hrun
  refine ⟨h.grants, h.disjoint, h.consecutive, ?_, h.wraps, fun act s' => h.gen_le⟩
  unfold Env.guardCursor
  split
  · next hmmap =>
    rcases h.shared hmmap with htop | ⟨hzero, -, -⟩
    · exact Nat.le_of_eq htop
    · rw [hzero]
      exact Nat.zero_le _
  · next hlocal => exact Nat.le_of_eq (h.own (Bool.eq_false_iff.mpr hlocal))

def singleStripe : VolumeConfig where
  size := kVolumeHeaderSize + 724992 + 2097152
  stripeSize := 0
  mmapDirectory := true
  wrapRetention := true

def plainSettings : Settings where
  lease := ⟨100, 1000, 1, true, Nat.succ_pos 99⟩
  verifyChecksumOnRead := false
  unlinkSupersededAlternates := false
  maxObjectSize := 4194304
  ramCache := false
  persistentBase := true
  ramCoherence := false

def singleEnv : Env := initStripe singleStripe plainSettings 0 (by decide) (by decide)

def twoWriters : List ReserveAct :=
  [.allocate 0 1000000 openGates, .commit true, .allocate 1 600000 openGates, .commit false,
    .allocate 0 600000 openGates, .commit true, .openShared 1, .allocate 1 900000 openGates,
    .commit true]

theorem reservation_discipline_twoWriters : ∃ s,
    runs singleEnv.reserveStep (.fresh singleEnv) twoWriters = some s ∧
      s.granted.length = 4 ∧ s.wraps = 1 ∧
      (∀ g ∈ s.granted, g.Inside singleEnv) ∧ s.filled.Pairwise Behind ∧
      s.filled.IsChain Continues ∧
      singleEnv.guardCursor s ≤ singleEnv.stripe.offset + s.top singleEnv ∧
      singleEnv.stripe.passOf s.vol.gen = s.wraps ∧
      ∀ act s', singleEnv.reserveStep s act = some s' → s.vol.gen ≤ s'.vol.gen := by
  obtain ⟨s, hs, hgranted, hwraps⟩ : ∃ s, runs singleEnv.reserveStep (.fresh singleEnv)
      twoWriters = some s ∧ s.granted.length = 4 ∧ s.wraps = 1 := by decide +kernel
  exact ⟨s, hs, hgranted, hwraps,
    reservation_discipline singleStripe plainSettings 0 (by decide) (by decide) hs⟩

theorem advanceFor_openGates (env : Env) (s : State) (size : Nat) :
    (env.advanceFor s size openGates).2 = true := by
  unfold Env.advanceFor
  simp only []
  split
  · cases hadv : env.advanceFrontier s (env.stripe.chunkIndexCeil (s.cursor + size))
        openGates.mandatory with
    | none =>
      simp only [Env.advanceFrontier, openGates, if_true] at hadv
      split at hadv <;> cases hadv
    | some s' => rfl
  · rfl

theorem makeRoom_openGates (env : Env) (s : State) (size : Nat) :
    (env.makeRoom s size openGates).2 = true := by
  unfold Env.makeRoom
  split
  · exact advanceFor_openGates env _ size
  · split <;> rfl

theorem allocateWriteSlot_fits {s : State} (hstart : env.stripe.dataStart ≤ s.cursor)
    (hfits : s.cursor + roundUp8 len ≤ env.stripe.size) :
    ∃ s' slot, env.allocateWriteSlot s len openGates = (s', .ok slot) ∧
      slot.writeOffset = s.cursor ∧ slot.newWritePos = s.cursor + roundUp8 len := by
  cases halloc : env.allocateWriteSlot s len openGates with
  | mk s' res =>
    obtain ⟨hmoved, hgranted, hpass⟩ := allocateWriteSlot_moves halloc (by omega)
    rw [if_neg (by omega), Nat.add_zero] at hpass
    have hcursor : s'.cursor = s.cursor := by
      rcases hmoved.step with ⟨hsame, -, -⟩ | ⟨-, hwrap⟩
      · exact hsame
      · omega
    cases res with
    | ok slot =>
      have hg := hgranted slot rfl
      exact ⟨s', slot, rfl, hg.writeOffset.trans hcursor, hcursor ▸ hg.newWritePos⟩
    | error e =>
      -- the two refusals: too long for the data area, and a closed gate
      exfalso
      unfold Env.allocateWriteSlot at halloc
      simp only [] at halloc
      rw [if_neg (by omega)] at halloc
      generalize (if env.mmapDirectory = true then { s with lockGen := s.lockGen + 1 }
        else s) = s₀ at halloc
      have hroom := makeRoom_openGates env s₀ (roundUp8 len)
      cases hmake : env.makeRoom s₀ (roundUp8 len) openGates with
      | mk s₁ ok =>
        rw [hmake] at halloc hroom
        obtain rfl : ok = true := hroom
        cases halloc

theorem reserve_fits {top : Nat} (hadopt : env.adoptCursor s p = env.stripe.offset + top)
    (hstart : env.stripe.dataStart ≤ top) (hfits : top + roundUp8 len ≤ env.stripe.size) :
    ∃ slot gen, (env.reserve s p len openGates).held = some (p, slot) ∧
      (env.reserve s p len openGates).granted = ⟨slot, gen⟩ :: s.granted ∧
      slot.writeOffset = top ∧ slot.newWritePos = top + roundUp8 len := by
  have htop : env.adoptCursor s p - env.stripe.offset = top := by omega
  obtain ⟨vol', slot, halloc, hoffset, hnew⟩ := @allocateWriteSlot_fits env len
    { s.vol with cursor := env.adoptCursor s p - env.stripe.offset }
    (htop.symm ▸ hstart) (htop.symm ▸ hfits)
  refine ⟨slot, vol'.gen, ?_, ?_, hoffset.trans htop, htop ▸ hnew⟩
  · unfold Env.reserve
    simp only [halloc]
  · unfold Env.reserve
    simp only [halloc]

theorem reserveStep_allocate (hfree : s.held = none) (hp : env.mmapDirectory = true ∨ p = 0)
    (hlen : kHeaderSize ≤ len) (gates : Gates) :
    env.reserveStep s (.allocate p len gates) = some (env.reserve s p len gates) := by
  unfold Env.reserveStep
  exact if_pos ⟨Option.isNone_iff_eq_none.mpr hfree, hp, hlen⟩

theorem ReserveInv.grow (h : ReserveInv env s) (hfree : s.held = none) (hlen : kHeaderSize ≤ len)
    (hfits : s.top env + roundUp8 len ≤ env.stripe.size) :
    ∃ s', runs env.reserveStep s [.allocate 0 len openGates, .commit true] = some s' ∧
      ReserveInv env s' ∧ s'.held = none ∧ s'.top env = s.top env + roundUp8 len := by
  obtain ⟨slot, -, hheld, -, -, hnew⟩ := reserve_fits (h.adopt (.inr rfl)) h.start_le hfits
  obtain ⟨wrapped, hres⟩ := @reserve_ok env len 0 s openGates (h.bound 0 (.inr rfl))
  have hinv := h.reserve (.inr rfl) hlen hfree hres
  have hslot := (hinv.held 0 slot hheld).2
  refine ⟨env.commitSlot (env.reserve s 0 len openGates) 0 slot true, ?_,
    hinv.commit hheld true, rfl, ?_⟩
  · rw [runs_cons, reserveStep_allocate hfree (.inr rfl) hlen, Option.bind_some, runs_cons]
    simp only [Env.reserveStep, hheld, Option.bind_some, runs_nil]
  · rw [← hnew]
    exact hslot.top_commit rfl rfl

end CycloneCache.Ref.Volume

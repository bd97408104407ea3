import CycloneCache.Proofs.Reservations

namespace CycloneCache.Ref.Volume

open Lib Function

structure Grant.Starts (env : Env) (g : Grant) : Prop where
  aligned : (env.stripe.offset + g.slot.writeOffset) % 8 = 0
  start_le : env.dataOffset ≤ env.stripe.offset + g.slot.writeOffset
  lt_end : env.stripe.offset + g.slot.writeOffset < env.areaEnd

structure Seated (env : Env) (pos : Nat) : Prop where
  start_le : env.dataOffset ≤ pos
  le_end : pos ≤ env.areaEnd
  aligned : pos % 8 = 0 ∨ env.areaEnd < pos + 136

structure SeatInv (env : Env) (s : Reservations) : Prop where
  own : ∀ p, Seated env (s.writePos p)
  shared : env.mmapDirectory = true → env.dataOffset ≤ s.sharedWritePos →
    s.sharedWritePos ≤ env.areaEnd → Seated env s.sharedWritePos
  held : ∀ p slot, s.held = some (p, slot) → Seated env (env.stripe.offset + slot.newWritePos)
  grants : ∀ g ∈ s.granted, g.Starts env

theorem seated_dataOffset (env : Env) : Seated env env.dataOffset := by
  have hlt := env.stripe.start_lt
  have hoffset := env.offset_aligned
  have hstart := env.stripe.start_aligned
  refine ⟨le_rfl, ?_, .inl ?_⟩ <;> simp only [Env.dataOffset, Env.areaEnd] <;> omega

theorem seated_seatCursor (env : Env) (saved : Nat) : Seated env (env.seatCursor saved) := by
  unfold Env.seatCursor
  split
  · next hok => exact ⟨hok.2.1, hok.2.2.1, .inl hok.2.2.2⟩
  · exact seated_dataOffset env

variable {env : Env} {s s' : Reservations} {p : Nat}

section

variable {act : ReserveAct} (h : SeatInv env s)
include h

theorem SeatInv.adopt (p : Nat) : Seated env (env.adoptCursor s p) := by
  unfold Env.adoptCursor
  split
  · next hin => exact h.shared hin.1 hin.2.1 hin.2.2
  · exact h.own p

theorem SeatInv.bound (p : Nat) : env.adoptCursor s p - env.stripe.offset ≤ env.stripe.size := by
  have hle := (h.adopt p).le_end
  simp only [Env.areaEnd] at hle
  omega

theorem SeatInv.cursor {len : Nat} {wrapped : Bool} (hres : Reserved env s p len wrapped s') :
    Seated env (env.stripe.offset + s'.vol.cursor) := by
  rcases hres.moved.step with ⟨hcursor, -, -⟩ | ⟨hcursor, -⟩
  · have hadopt := h.adopt p
    have hstart := hadopt.start_le
    have hback : env.stripe.offset + s'.vol.cursor = env.adoptCursor s p := by
      rw [hcursor]
      simp only [Env.dataOffset] at hstart
      show env.stripe.offset + (env.adoptCursor s p - env.stripe.offset) = _
      omega
    rwa [hback]
  · rw [hcursor]
    exact seated_dataOffset env

theorem SeatInv.reserve {len : Nat} {wrapped : Bool} (hlen : kHeaderSize ≤ len)
    (hres : Reserved env s p len wrapped s') : SeatInv env s' := by
  have hcursor := h.cursor hres
  have hlong := kHeaderSize_le_roundUp8 hlen
  -- a granted slot had room, so its cursor is on a word
  have hslot : ∀ slot, Granted env s'.vol len slot → Grant.Starts env ⟨slot, s'.vol.gen⟩ ∧
        Seated env (env.stripe.offset + slot.newWritePos) := by
    intro slot hg
    have hstart := hcursor.start_le
    have hfits := hg.room.fits
    have hround := roundUp8_mod len
    have hword : (env.stripe.offset + s'.vol.cursor) % 8 = 0 := by
      rcases hcursor.aligned with hword | htight
      · exact hword
      · simp only [Env.areaEnd] at htight
        omega
    rw [hg.newWritePos]
    constructor
    · constructor
      · exact hg.writeOffset ▸ hword
      · exact hg.writeOffset ▸ hstart
      · show env.stripe.offset + slot.writeOffset < env.areaEnd
        rw [hg.writeOffset, Env.areaEnd]
        omega
    · refine ⟨by omega, ?_, .inl (by omega)⟩
      simp only [Env.areaEnd]
      omega
  refine ⟨?_, fun hmmap hlo hhi => ?_, fun q slot hheld => ?_, fun g hg => ?_⟩
  · rw [hres.writePos]
    exact (forall_update_iff s.writePos fun _ => Seated env).mpr ⟨hcursor, fun q _ => h.own q⟩
  · rw [hres.shared] at hlo hhi ⊢
    split at hlo
    · next hw =>
      rw [if_pos hw]
      exact seated_dataOffset env
    · next hw =>
      rw [if_neg hw] at hhi ⊢
      exact h.shared hmmap hlo hhi
  · rcases hres.grant with ⟨hsame, -⟩ | ⟨slot', hg, hnew, -⟩
    · exact h.held q slot (hsame ▸ hheld)
    · rw [hnew] at hheld
      cases hheld
      exact (hslot slot hg).2
  · rcases hres.grant with ⟨-, hsame⟩ | ⟨slot', hg', -, hnew⟩
    · exact h.grants g (hsame ▸ hg)
    · rw [hnew] at hg
      rcases List.mem_cons.mp hg with rfl | hold
      · exact (hslot slot' hg').1
      · exact h.grants g hold

theorem SeatInv.commit {slot : Slot} (hheld : s.held = some (p, slot)) (fillOk : Bool) :
    SeatInv env (env.commitSlot s p slot fillOk) := by
  have hend := h.held p slot hheld
  cases fillOk with
  | false => exact ⟨h.own, h.shared, nofun, h.grants⟩
  | true =>
    refine ⟨?_, fun hmmap hlo hhi => ?_, nofun, h.grants⟩
    · exact (forall_update_iff s.writePos fun _ => Seated env).mpr ⟨hend, fun q _ => h.own q⟩
    · show Seated env (if _ then _ else _)
      rw [if_pos hmmap]
      exact hend

theorem seatInv_step (hstep : env.reserveStep s act = some s') : SeatInv env s' := by
  rcases reserveStep_cases hstep (fun p _ => h.bound p) with ⟨p, -, -, rfl⟩ |
    ⟨p, len, gates, wrapped, -, -, -, hlen, hres⟩ | ⟨p, slot, fillOk, -, hheld, rfl⟩
  · refine ⟨?_, h.shared, h.held, h.grants⟩
    exact (forall_update_iff s.writePos fun _ => Seated env).mpr
      ⟨seated_seatCursor env _, fun q _ => h.own q⟩
  · exact h.reserve hlen hres
  · exact h.commit hheld fillOk

end

def Misseated (env : Env) (saved : Nat) : Prop :=
  env.mmapDirectory = true ∧ env.dataOffset ≤ saved ∧ saved + 136 ≤ env.areaEnd ∧ saved % 8 ≠ 0

theorem seatInv_opened {saved : Nat} (h : ¬ Misseated env saved) (gen : Nat) :
    SeatInv env (.opened env saved gen) := by
  refine ⟨fun _ => seated_seatCursor env saved, fun hmmap hlo hhi => ?_, nofun, nofun⟩
  refine ⟨hlo, hhi, ?_⟩
  by_cases hword : saved % 8 = 0
  · exact .inl hword
  · exact .inr (Nat.lt_of_not_le fun hroom => h ⟨hmmap, hlo, hroom, hword⟩)

theorem Misseated.granted {saved : Nat} (h : Misseated env saved) (gen : Nat) :
    ∃ s g, runs env.reserveStep (.opened env saved gen) [.allocate 0 kHeaderSize openGates]
        = some s ∧ g ∈ s.granted ∧ env.stripe.offset + g.slot.writeOffset = saved := by
  obtain ⟨hmmap, hlo, hroom, -⟩ := h
  have hstart := hlo
  simp only [Env.dataOffset] at hstart
  simp only [Env.areaEnd] at hroom
  have hhi : saved ≤ env.areaEnd := by
    simp only [Env.areaEnd]
    omega
  have hback : saved = env.stripe.offset + (saved - env.stripe.offset) := by omega
  have hadopt : env.adoptCursor (.opened env saved gen) 0
      = env.stripe.offset + (saved - env.stripe.offset) :=
    (if_pos ⟨hmmap, hlo, hhi⟩).trans hback
  obtain ⟨slot, gen', -, hgranted, hoffset, -⟩ := @reserve_fits env kHeaderSize 0
    (.opened env saved gen) _ hadopt (by omega) (by simp only [kHeaderSize, roundUp8]; omega)
  refine ⟨env.reserve (.opened env saved gen) 0 kHeaderSize openGates, ⟨slot, gen'⟩, ?_, ?_, ?_⟩
  · rw [runs_cons]
    simp [Env.reserveStep, Reservations.opened]
  · rw [hgranted]
    exact List.mem_cons_self
  · show env.stripe.offset + slot.writeOffset = saved
    omega

/-- Every slot of every run after a shared open starts on a word inside the
data area, unless the persisted cursor is misaligned with room behind it. -/
theorem persisted_cursor_fails_closed (cfg : VolumeConfig) (set : Settings) (i : Nat)
    (hfits : stripeGeometryFits cfg = true)
    (hi : i < (computeStripeGeometry cfg.size cfg.stripeSize).numStripes) (saved gen : Nat) :
    let env := initStripe cfg set i hfits hi
    (∀ acts s, runs env.reserveStep (.opened env saved gen) acts = some s →
        ∀ g ∈ s.granted, g.Starts env) ↔ ¬ Misseated env saved := by
  intro env
  constructor
  · intro hall hmis
    obtain ⟨s, g, hrun, hg, hoffset⟩ := hmis.granted gen
    have hword := (hall _ s hrun g hg).aligned
    rw [hoffset] at hword
    exact hmis.2.2.2 hword
  · intro hok acts s hrun
    exact (runs_inv (fun _ _ _ => seatInv_step) hrun (seatInv_opened hok gen)).grants

/-- Four bytes into the data area. -/
theorem misaligned_cursor_adopted : ¬ ∀ acts s,
    runs singleEnv.reserveStep (.opened singleEnv (singleEnv.dataOffset + 4) 0) acts = some s →
      ∀ g ∈ s.granted, g.Starts singleEnv := by
  intro hall
  have hmis : Misseated singleEnv (singleEnv.dataOffset + 4) := by
    refine ⟨rfl, Nat.le_add_right _ _, ?_, ?_⟩ <;> decide +kernel
  obtain ⟨s, g, hrun, hg, hoffset⟩ := hmis.granted 0
  have hword := (hall _ s hrun g hg).aligned
  rw [hoffset] at hword
  exact hmis.2.2.2 hword

theorem persisted_cursor_fails_closed_word : ¬ Misseated singleEnv (singleEnv.dataOffset + 4096) ∧
      ∀ acts s, runs singleEnv.reserveStep (.opened singleEnv (singleEnv.dataOffset + 4096) 7) acts
        = some s → ∀ g ∈ s.granted, g.Starts singleEnv := by
  have hword : ¬ Misseated singleEnv (singleEnv.dataOffset + 4096) := fun h =>
    h.2.2.2 (by decide +kernel)
  exact ⟨hword, (persisted_cursor_fails_closed singleStripe plainSettings 0 (by decide) (by decide)
    (singleEnv.dataOffset + 4096) 7).mpr hword⟩

end CycloneCache.Ref.Volume

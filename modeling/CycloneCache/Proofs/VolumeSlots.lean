import CycloneCache.Proofs.StripeLog
import CycloneCache.Ref.VolumeWrite

namespace CycloneCache.Ref.Volume

open Lib

structure CursorOk (env : Env) (s : State) : Prop where
  start_le : env.stripe.dataStart ≤ s.cursor
  le_size : s.cursor ≤ env.stripe.size
  aligned : s.cursor % 8 = 0

structure Advanced (env : Env) (s s' : State) : Prop where
  frame : s' = { s with gen := s'.gen }
  gen_le : s.gen ≤ s'.gen
  pass : env.stripe.passOf s'.gen = env.stripe.passOf s.gen

structure Moved (env : Env) (s s' : State) : Prop where
  frame : s' = { s with cursor := s'.cursor, gen := s'.gen, lockGen := s'.lockGen }
  step : (s'.cursor = s.cursor ∧ env.stripe.passOf s'.gen = env.stripe.passOf s.gen ∧
      s.gen ≤ s'.gen) ∨
    (s'.cursor = env.stripe.dataStart ∧ env.stripe.passOf s'.gen = env.stripe.passOf s.gen + 1)
  flush : env.stripe.retain = false →
    s'.gen = s.gen ∨ env.stripe.frontierOf s'.gen = env.stripe.chunks

namespace Advanced

variable {env : Env} {s s' : State}

theorem refl (env : Env) (s : State) : Advanced env s s := ⟨rfl, le_rfl, rfl⟩

theorem trans {s'' : State} (h₁ : Advanced env s s') (h₂ : Advanced env s' s'') :
    Advanced env s s'' := by
  refine ⟨?_, le_trans h₁.gen_le h₂.gen_le, h₂.pass.trans h₁.pass⟩
  rw [h₂.frame, h₁.frame]

theorem cursor (h : Advanced env s s') : s'.cursor = s.cursor := by rw [h.frame]

theorem frontier_le (h : Advanced env s s') :
    env.stripe.frontierOf s.gen ≤ env.stripe.frontierOf s'.gen := by
  have hle := h.gen_le
  rw [← env.stripe.genOf_passOf s.gen, ← env.stripe.genOf_passOf s'.gen, h.pass,
    Stripe.genOf, Stripe.genOf] at hle
  omega

end Advanced

variable {env : Env} {s s' : State} {gates : Gates} {len : Nat}

theorem advanceFrontier_ok {upTo : Nat} {gate : Bool}
    (h : env.advanceFrontier s upTo gate = some s') (hle : upTo ≤ env.stripe.chunks) :
    Advanced env s s' ∧ upTo ≤ env.stripe.frontierOf s'.gen := by
  unfold Env.advanceFrontier at h
  split at h
  · next hdone =>
    cases h
    exact ⟨.refl env s, hdone⟩
  · next hmore =>
    split at h <;> cases h
    refine ⟨⟨rfl, ?_, Stripe.passOf_genOf hle⟩, ?_⟩
    · show s.gen ≤ env.stripe.genOf (env.stripe.passOf s.gen) upTo
      nth_rewrite 1 [← env.stripe.genOf_passOf s.gen]
      simp only [Stripe.genOf]
      omega
    · rw [Stripe.frontierOf_genOf hle]

theorem earlyAdvance_ok (env : Env) (s : State) (size : Nat) (gate : Bool) :
    Advanced env s (env.earlyAdvance s size gate) := by
  unfold Env.earlyAdvance
  simp only []
  split
  · generalize hup : env.stripe.chunkIndexCeil _ = upTo
    have hle : upTo ≤ env.stripe.chunks := hup ▸ env.stripe.chunkIndexCeil_le _
    cases hadv : env.advanceFrontier s upTo gate with
    | none => exact .refl env s
    | some s' => exact (advanceFrontier_ok hadv hle).1
  · exact .refl env s

theorem advanceFor_ok {size : Nat} {ok : Bool} (h : env.advanceFor s size gates = (s', ok))
    (hfits : s.cursor + size ≤ env.stripe.size) :
    Advanced env s s' ∧ (ok = true →
      s.cursor + size ≤ env.stripe.frontierRelOf (env.stripe.frontierOf s'.gen)) := by
  unfold Env.advanceFor at h
  simp only [] at h
  split at h
  · cases hadv : env.advanceFrontier s (env.stripe.chunkIndexCeil (s.cursor + size))
        gates.mandatory with
    | none =>
      rw [hadv] at h
      cases h
      exact ⟨.refl env s, nofun⟩
    | some s₁ =>
      rw [hadv] at h
      cases h
      obtain ⟨hs₁, hup⟩ := advanceFrontier_ok hadv (env.stripe.chunkIndexCeil_le _)
      have hearly := earlyAdvance_ok env s₁ size gates.early
      refine ⟨hs₁.trans hearly, fun _ => ?_⟩
      calc s.cursor + size
          ≤ env.stripe.frontierRelOf (env.stripe.chunkIndexCeil (s.cursor + size)) :=
            Stripe.le_frontierRelOf_ceil hfits
        _ ≤ _ := Stripe.frontierRelOf_mono (le_trans hup hearly.frontier_le)
  · next hroom =>
    cases h
    have hearly := earlyAdvance_ok env s size gates.early
    refine ⟨hearly, fun _ => ?_⟩
    exact le_trans (Nat.le_of_not_gt hroom) (Stripe.frontierRelOf_mono hearly.frontier_le)

theorem passOf_wrap (env : Env) (s : State) :
    env.stripe.passOf (env.wrap s).gen = env.stripe.passOf s.gen + 1 :=
  Stripe.passOf_genOf env.stripe.wrapFrontier_le

theorem Moved.refl (env : Env) (s : State) : Moved env s s :=
  ⟨rfl, .inl ⟨rfl, rfl, le_rfl⟩, fun _ => .inl rfl⟩

theorem Moved.wrap (env : Env) (s : State) : Moved env s (env.wrap s) := by
  refine ⟨rfl, .inr ⟨rfl, passOf_wrap env s⟩, fun hflush => .inr ?_⟩
  show env.stripe.frontierOf (env.stripe.genOf _ env.stripe.wrapFrontier) = _
  rw [Stripe.frontierOf_genOf env.stripe.wrapFrontier_le, Stripe.wrapFrontier, hflush]
  rfl

theorem Moved.advance {s₁ : State} (h : Moved env s s₁) (hadv : Advanced env s₁ s')
    (hretain : env.stripe.retain = true) : Moved env s s' := by
  refine ⟨?_, ?_, fun hflush => absurd (hflush.symm.trans hretain) Bool.false_ne_true⟩
  · rw [hadv.frame, h.frame]
  · rw [hadv.cursor, hadv.pass]
    rcases h.step with ⟨hc, hp, hg⟩ | hwrap
    · exact .inl ⟨hc, hp, le_trans hg hadv.gen_le⟩
    · exact .inr hwrap

theorem Moved.gen_le (h : Moved env s s') : s.gen ≤ s'.gen := by
  rcases h.step with ⟨-, -, hle⟩ | ⟨-, hpass⟩
  · exact hle
  · rw [← env.stripe.genOf_passOf s.gen, ← env.stripe.genOf_passOf s'.gen]
    exact Nat.le_of_lt (Stripe.genOf_lt_of_pass_lt (by omega) (env.stripe.frontierOf_le _) _)

theorem Moved.cursorOk (h : Moved env s s') (hc : CursorOk env s) : CursorOk env s' := by
  rcases h.step with ⟨heq, -, -⟩ | ⟨heq, -⟩
  · exact ⟨heq ▸ hc.start_le, heq ▸ hc.le_size, heq ▸ hc.aligned⟩
  · exact ⟨Nat.le_of_eq heq.symm, heq ▸ Nat.le_of_lt env.stripe.start_lt,
      heq ▸ env.stripe.start_aligned⟩

structure Room (env : Env) (s' : State) (size : Nat) : Prop where
  fits : s'.cursor + size ≤ env.stripe.size
  runway : env.stripe.retain = true →
    s'.cursor + size ≤ env.stripe.frontierRelOf (env.stripe.frontierOf s'.gen)

theorem makeRoom_ok {size : Nat} {ok : Bool} (h : env.makeRoom s size gates = (s', ok))
    (hcursor : s.cursor ≤ env.stripe.size) (harea : size ≤ env.stripe.size - env.stripe.dataStart) :
    Moved env s s' ∧ (ok = true → Room env s' size) ∧
      env.stripe.passOf s'.gen = env.stripe.passOf s.gen +
        if size > env.stripe.size - s.cursor ∧ (env.stripe.retain = true ∨ gates.wrap = true)
        then 1 else 0 := by
  have hlt := env.stripe.start_lt
  unfold Env.makeRoom at h
  split at h
  · next hretain =>
    -- with or without the wrap, the document fits behind the cursor
    generalize hs₁ : (if size > env.stripe.size - s.cursor then env.wrap s else s) = s₁ at h
    have hmoved : Moved env s s₁ := by
      rw [← hs₁]
      split
      · exact .wrap env s
      · exact .refl env s
    have hfits : s₁.cursor + size ≤ env.stripe.size := by
      rw [← hs₁]
      split
      · show env.stripe.dataStart + size ≤ env.stripe.size
        omega
      · omega
    obtain ⟨hadv, hrun⟩ := advanceFor_ok h hfits
    refine ⟨hmoved.advance hadv hretain, fun hok => ?_, ?_⟩
    · rw [← hadv.cursor] at hfits hrun
      exact ⟨hfits, fun _ => hrun hok⟩
    · rw [hadv.pass, ← hs₁]
      split
      · next hfull => rw [if_pos ⟨hfull, .inl hretain⟩, passOf_wrap]
      · next hroom => rw [if_neg fun h => hroom h.1, Nat.add_zero]
  · next hflush =>
    split at h
    · next hfull =>
      split at h <;> cases h
      · next hgate =>
        refine ⟨.wrap env s, fun _ => ⟨?_, fun h => absurd h hflush⟩, ?_⟩
        · show env.stripe.dataStart + size ≤ env.stripe.size
          omega
        · rw [if_pos ⟨hfull, .inr hgate⟩, passOf_wrap]
      · next hgate =>
        refine ⟨.refl env s, (nomatch ·), ?_⟩
        rw [if_neg fun h => h.2.elim hflush hgate, Nat.add_zero]
    · next hroom =>
      cases h
      refine ⟨.refl env s, fun _ => ⟨by omega, fun h => absurd h hflush⟩, ?_⟩
      rw [if_neg fun h => hroom h.1, Nat.add_zero]

theorem tailFillEnd_lt (st : Stripe) (cfg : LeaseConfig) (gen next size : Nat) :
    tailFillEnd st cfg gen next size < next + kTailFillPage := by
  unfold tailFillEnd
  simp only [kTailFillPage]
  split
  · have hpage : (st.offset + next + 4096 - 1) / 4096 * 4096 - st.offset < next + 4096 := by
      omega
    have hmin := Nat.min_le_left ((st.offset + next + 4096 - 1) / 4096 * 4096 - st.offset) st.size
    split <;> (split <;> omega)
  · omega

structure Granted (env : Env) (s' : State) (len : Nat) (slot : Slot) : Prop where
  writeOffset : slot.writeOffset = s'.cursor
  newWritePos : slot.newWritePos = s'.cursor + roundUp8 len
  pass : slot.pass = env.stripe.passOf s'.gen
  serial : slot.fillSerial < 2 ^ 16
  room : Room env s' (roundUp8 len)
  fillEnd_le : slot.fillEnd ≤ env.stripe.size
  fillEnd_near : slot.fillEnd < slot.newWritePos + kTailFillPage
  fillEnd_runway : env.stripe.retain = true →
    slot.fillEnd ≤ env.stripe.frontierRelOf (env.stripe.frontierOf s'.gen)

theorem Granted.cursorOk {slot : Slot} (h : Granted env s len slot) (hc : CursorOk env s)
    (hcursor : s'.cursor = slot.newWritePos) : CursorOk env s' := by
  have hnew := h.newWritePos
  have hfits := h.room.fits
  have hstart := hc.start_le
  have haligned := hc.aligned
  have hround := roundUp8_mod len
  exact ⟨by omega, by omega, by omega⟩

theorem CursorOk.frame (h : CursorOk env s) (hcursor : s'.cursor = s.cursor) : CursorOk env s' :=
  ⟨hcursor ▸ h.start_le, hcursor ▸ h.le_size, hcursor ▸ h.aligned⟩

theorem allocateWriteSlot_moves {res : Except CacheError Slot}
    (h : env.allocateWriteSlot s len gates = (s', res)) (hcursor : s.cursor ≤ env.stripe.size) :
    Moved env s s' ∧ (∀ slot, res = .ok slot → Granted env s' len slot) ∧
      env.stripe.passOf s'.gen = env.stripe.passOf s.gen +
        if roundUp8 len ≤ env.stripe.size - env.stripe.dataStart ∧
          roundUp8 len > env.stripe.size - s.cursor ∧
          (env.stripe.retain = true ∨ gates.wrap = true)
        then 1 else 0 := by
  unfold Env.allocateWriteSlot at h
  simp only [] at h
  generalize hs₀ : (if env.mmapDirectory = true then { s with lockGen := s.lockGen + 1 }
    else s) = s₀ at h
  have hlock : s₀ = { s with lockGen := s₀.lockGen } := by
    rw [← hs₀]
    split <;> rfl
  have hcursor₀ : s₀.cursor = s.cursor := by rw [hlock]
  have hgen₀ : s₀.gen = s.gen := by rw [hlock]
  -- taking the lock is not a move
  have hmoved : ∀ {s₁}, Moved env s₀ s₁ → Moved env s s₁ := by
    intro s₁ hm
    rw [hlock] at hm
    exact ⟨hm.frame, hm.step, hm.flush⟩
  split at h
  · next hlarge =>
    cases h
    refine ⟨hmoved (.refl env _), nofun, ?_⟩
    rw [if_neg fun h => Nat.not_le_of_gt hlarge h.1, Nat.add_zero, hgen₀]
  · next harea =>
    cases hroom : env.makeRoom s₀ (roundUp8 len) gates with
    | mk s₁ ok =>
      obtain ⟨hm, hok, hpass⟩ := makeRoom_ok hroom (hcursor₀ ▸ hcursor) (Nat.le_of_not_gt harea)
      simp only [hcursor₀, hgen₀] at hpass
      simp only [Nat.le_of_not_gt harea, true_and]
      rw [hroom] at h
      cases ok with cases h
      | false =>
        exact ⟨hmoved hm, nofun, hpass⟩
      | true =>
        refine ⟨hmoved hm, fun slot hslot => ?_, hpass⟩
        cases hslot
        have htail := tailFillEnd_le env.stripe env.lease s'.gen
          (s'.cursor + roundUp8 len) (roundUp8 len)
        refine ⟨rfl, rfl, rfl, ?_, hok rfl, htail.1, tailFillEnd_lt .., htail.2⟩
        show (if _ then _ else _) < 2 ^ 16
        split
        · exact Nat.mod_lt _ (by decide)
        · decide

theorem allocateWriteSlot_ok {res : Except CacheError Slot}
    (h : env.allocateWriteSlot s len gates = (s', res)) (hc : CursorOk env s) :
    Moved env s s' ∧ ∀ slot, res = .ok slot → Granted env s' len slot :=
  ⟨(allocateWriteSlot_moves h hc.le_size).1, (allocateWriteSlot_moves h hc.le_size).2.1⟩

end CycloneCache.Ref.Volume

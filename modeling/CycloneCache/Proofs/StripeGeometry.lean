import CycloneCache.Ref.Wrap

namespace CycloneCache.Ref

namespace Stripe

variable {st : Stripe}

theorem chunkSize_pos (st : Stripe) : 0 < st.chunkSize := by
  have hcov := st.covered
  have hlt := st.start_lt
  by_contra h
  have hz : st.chunkSize = 0 := by omega
  rw [hz, Nat.mul_zero] at hcov
  omega

theorem chunkOf_lt (st : Stripe) (o : Nat) : st.chunkOf o < st.chunks := by
  have hpos := st.chunks_pos
  simp only [chunkOf]
  split
  · exact hpos
  · split <;> omega

theorem chunkOf_mul_le {o : Nat} (ho : st.dataStart ≤ o) :
    st.dataStart + st.chunkOf o * st.chunkSize ≤ o := by
  simp only [chunkOf]
  split
  · omega
  · have hdiv := Nat.div_mul_le_self (o - st.dataStart) st.chunkSize
    split
    · next hge =>
      have hle : (st.chunks - 1) * st.chunkSize ≤
          (o - st.dataStart) / st.chunkSize * st.chunkSize :=
        Nat.mul_le_mul_right _ (by omega)
      omega
    · omega

theorem frontierRelOf_le_size (st : Stripe) (f : Nat) : st.frontierRelOf f ≤ st.size := by
  simp only [frontierRelOf]
  split
  · exact Nat.le_refl _
  · split <;> omega

theorem frontierRelOf_le (f : Nat) (hf : f < st.chunks) :
    st.frontierRelOf f ≤ st.dataStart + f * st.chunkSize := by
  simp only [frontierRelOf, if_neg (Nat.not_le.mpr hf)]
  split <;> omega

theorem frontierRelOf_le_of_le_chunkOf {f o : Nat} (ho : st.dataStart ≤ o)
    (hf : f ≤ st.chunkOf o) : st.frontierRelOf f ≤ o := by
  have hlt := st.chunkOf_lt o
  calc st.frontierRelOf f ≤ st.dataStart + f * st.chunkSize := frontierRelOf_le f (by omega)
    _ ≤ st.dataStart + st.chunkOf o * st.chunkSize :=
        Nat.add_le_add_left (Nat.mul_le_mul_right _ hf) _
    _ ≤ o := chunkOf_mul_le ho

theorem chunkOf_lt_of_lt_frontier {f o x : Nat} (ho : st.dataStart ≤ o)
    (hx : o ≤ x) (hlt : x < st.frontierRelOf f) : st.chunkOf o < f := by
  by_contra h
  have := frontierRelOf_le_of_le_chunkOf ho (Nat.le_of_not_lt h)
  omega

theorem lt_frontierRelOf_of_chunkOf_lt {f o : Nat} (ho : o < st.size)
    (hf : st.chunkOf o < f) : o < st.frontierRelOf f := by
  have hpos := chunkSize_pos st
  by_cases hall : st.chunks ≤ f
  · rw [frontierRelOf, if_pos hall]
    exact ho
  · have hreach : o < st.dataStart + f * st.chunkSize := by
      simp only [chunkOf] at hf
      split at hf
      · next hfirst =>
        have hmul : 1 * st.chunkSize ≤ f * st.chunkSize := Nat.mul_le_mul_right _ hf
        omega
      · split at hf
        · omega
        · have := (Nat.div_lt_iff_lt_mul hpos).mp hf
          omega
    simp only [frontierRelOf, if_neg hall]
    split <;> omega

theorem dataStart_le_frontierRelOf (st : Stripe) (f : Nat) : st.dataStart ≤ st.frontierRelOf f := by
  have hlt := st.start_lt
  simp only [frontierRelOf]
  split
  · omega
  · split <;> omega

theorem frontierRelOf_mono {f g : Nat} (h : f ≤ g) : st.frontierRelOf f ≤ st.frontierRelOf g := by
  by_cases hg : st.chunks ≤ g
  · rw [frontierRelOf.eq_def st g, if_pos hg]
    exact st.frontierRelOf_le_size f
  · have hmul : f * st.chunkSize ≤ g * st.chunkSize := Nat.mul_le_mul_right _ h
    simp only [frontierRelOf, if_neg hg, if_neg (show ¬ f ≥ st.chunks by omega)]
    split <;> split <;> omega

theorem chunkIndexCeil_le (st : Stripe) (o : Nat) : st.chunkIndexCeil o ≤ st.chunks := by
  simp only [chunkIndexCeil]
  split <;> omega

theorem le_frontierRelOf_ceil {need : Nat} (h : need ≤ st.size) :
    need ≤ st.frontierRelOf (st.chunkIndexCeil need) := by
  have hpos := chunkSize_pos st
  by_cases hstart : need ≤ st.dataStart
  · have hz : st.chunkIndexCeil need = 0 := by
      simp only [chunkIndexCeil, hstart, true_or, if_true]
    have hchunks := st.chunks_pos
    have hlt := st.start_lt
    rw [hz, frontierRelOf, if_neg (by omega)]
    simp only [Nat.zero_mul, Nat.add_zero, hlt, if_true]
    exact hstart
  · have hceil := le_ceil_mul (a := need - st.dataStart) hpos
    simp only [chunkIndexCeil, hstart, Nat.ne_of_gt hpos, or_self, if_false]
    rcases Nat.le_total st.chunks
        ((need - st.dataStart + st.chunkSize - 1) / st.chunkSize) with hle | hle
    · rw [Nat.min_eq_right hle, frontierRelOf, if_pos (Nat.le_refl _)]
      exact h
    · rw [Nat.min_eq_left hle]
      simp only [frontierRelOf]
      split
      · exact h
      · split <;> omega

theorem frontierRelOf_lt_of_ceil {need f : Nat} (hf : f + 1 = st.chunkIndexCeil need) :
    st.frontierRelOf f < need := by
  have hpos := chunkSize_pos st
  have hle := st.chunkIndexCeil_le need
  have hrel := st.frontierRelOf_le f (by omega)
  unfold chunkIndexCeil at hf
  split at hf
  · cases hf
  · next hin =>
    have hceil : f + 1 ≤ (need - st.dataStart + st.chunkSize - 1) / st.chunkSize := by omega
    rw [Nat.le_div_iff_mul_le hpos, Nat.succ_mul] at hceil
    omega

theorem passOf_genOf {pass f : Nat} (hf : f ≤ st.chunks) : st.passOf (st.genOf pass f) = pass := by
  simp only [passOf, genOf]
  rw [Nat.add_comm, Nat.add_mul_div_right _ _ (Nat.succ_pos _),
    Nat.div_eq_of_lt (by omega), Nat.zero_add]

theorem frontierOf_genOf {pass f : Nat} (hf : f ≤ st.chunks) :
    st.frontierOf (st.genOf pass f) = f := by
  simp only [frontierOf, genOf]
  rw [Nat.add_comm, Nat.add_mul_mod_self_right, Nat.mod_eq_of_lt (by omega), Nat.min_eq_left hf]

theorem frontierOf_eq_mod (st : Stripe) (gen : Nat) :
    st.frontierOf gen = gen % (st.chunks + 1) := by
  have h : gen % (st.chunks + 1) < st.chunks + 1 := Nat.mod_lt gen (Nat.succ_pos _)
  exact Nat.min_eq_left (Nat.le_of_lt_succ h)

theorem frontierOf_le (st : Stripe) (gen : Nat) : st.frontierOf gen ≤ st.chunks :=
  Nat.min_le_right _ _

theorem snapshot_frontierRel (st : Stripe) (gen cursor : Nat) :
    (st.snapshot gen cursor).frontierRel = st.frontierRelOf (st.frontierOf gen) := by
  show st.frontierRelOf (min (gen - st.passOf gen * (st.chunks + 1)) st.chunks) = _
  rw [frontierOf, passOf, Nat.mul_comm, ← Nat.mod_eq_sub]

theorem genOf_passOf (st : Stripe) (gen : Nat) :
    st.genOf (st.passOf gen) (st.frontierOf gen) = gen := by
  rw [frontierOf_eq_mod]
  simp only [genOf, passOf]
  exact Nat.div_add_mod' gen (st.chunks + 1)

theorem passOf_mono {g h : Nat} (hle : g ≤ h) : st.passOf g ≤ st.passOf h :=
  Nat.div_le_div_right hle

theorem genOf_lt_of_pass_lt {p q f : Nat} (hpq : p < q) (hf : f ≤ st.chunks)
    (g : Nat) : st.genOf p f < st.genOf q g := by
  have hmul : (p + 1) * (st.chunks + 1) ≤ q * (st.chunks + 1) := Nat.mul_le_mul_right _ hpq
  rw [Nat.succ_mul] at hmul
  simp only [genOf]
  omega

theorem genOf_lt_iff {p q f g : Nat} (hf : f ≤ st.chunks) (hg : g ≤ st.chunks) :
    st.genOf p f < st.genOf q g ↔ p < q ∨ p = q ∧ f < g := by
  rcases Nat.lt_trichotomy p q with h | rfl | h
  · exact iff_of_true (genOf_lt_of_pass_lt h hf g) (.inl h)
  · rw [genOf, genOf, Nat.add_lt_add_iff_left]
    omega
  · have := genOf_lt_of_pass_lt h hg f
    exact iff_of_false (by omega) (by omega)

theorem wrapFrontier_le (st : Stripe) : st.wrapFrontier ≤ st.chunks := by
  simp only [wrapFrontier]
  split <;> omega

theorem exposureThreshold_eq (pass o : Nat) :
    st.exposureThreshold pass o = st.genOf (pass + 1) (st.chunkOf o) := rfl

theorem threshold_lt_iff {gen pass o : Nat} : st.exposureThreshold pass o < gen ↔
      pass + 1 < st.passOf gen ∨ (st.passOf gen = pass + 1 ∧ st.chunkOf o < st.frontierOf gen) := by
  have hc := st.chunkOf_lt o
  have hf := st.frontierOf_le gen
  rw [exposureThreshold_eq]
  nth_rewrite 1 [← st.genOf_passOf gen]
  rw [genOf_lt_iff (by omega) hf]
  omega

/-- The last chunk holds something, and no sum of `retention_geometry` leaves
64 bits. -/
theorem retentionGeometry_tight {dataArea : Nat} (h : 0 < dataArea) :
    let g := retentionGeometry dataArea
    g.2 % 8 = 0 ∧ (g.1 - 1) * g.2 < dataArea ∧
      (dataArea < 2 ^ 63 → dataArea + g.2 < 2 ^ 64 ∧ dataArea + kMaxChunks < 2 ^ 64) := by
  simp only [retentionGeometry, if_neg (Nat.ne_of_gt h)]
  have hmod := roundUp8_mod ((dataArea + kMaxChunks - 1) / kMaxChunks)
  generalize hround : roundUp8 _ = r at hmod
  rw [roundUp8] at hround
  simp only [kMaxChunks, kMinFrontierChunk] at hround ⊢
  generalize hq : max r 1048576 = q
  have hpos : 0 < q := by omega
  refine ⟨by omega, ?_, by omega⟩
  have hceil := Nat.div_mul_le_self (dataArea + q - 1) q
  calc (min (max ((dataArea + q - 1) / q) 1) 64 - 1) * q
      ≤ ((dataArea + q - 1) / q - 1) * q := Nat.mul_le_mul_right q (by omega)
    _ = (dataArea + q - 1) / q * q - q := Nat.sub_one_mul _ _
    _ < dataArea := by omega

/-- The geometry of retention, the frontier that a position needs, and the order
of the packed generations, for every stripe. -/
theorem frontier_arithmetic {offset dataStart size : Nat} (hfits : dataStart < size)
    (haligned : dataStart % 8 = 0) (wrapRetention : Bool) :
    let g := retentionGeometry (size - dataStart)
    let st := configureFrontier offset dataStart size wrapRetention hfits haligned
    (1 ≤ g.1 ∧ g.1 ≤ 64 ∧ g.2 % 8 = 0 ∧ (g.1 - 1) * g.2 < size - dataStart ∧
        size - dataStart ≤ g.1 * g.2 ∧
      (size - dataStart < 2 ^ 63 →
        size - dataStart + g.2 < 2 ^ 64 ∧ size - dataStart + kMaxChunks < 2 ^ 64)) ∧
    (∀ need, need ≤ size → need ≤ st.frontierRelOf (st.chunkIndexCeil need) ∧
      ∀ f, f + 1 = st.chunkIndexCeil need → st.frontierRelOf f < need) ∧
    ∀ p P c f, c < st.chunks → f ≤ st.chunks →
      (P * (st.chunks + 1) + f > (p + 1) * (st.chunks + 1) + c ↔
        P > p + 1 ∨ P = p + 1 ∧ f > c) := by
  intro g st
  obtain ⟨hpos, hmax⟩ := retentionGeometry_chunks (size - dataStart)
  obtain ⟨hmod, hlast, hwords⟩ := @retentionGeometry_tight (size - dataStart) (by omega)
  refine ⟨⟨hpos, hmax, hmod, hlast, retentionGeometry_covers _, hwords⟩, ?_, ?_⟩
  · exact fun need hneed => ⟨le_frontierRelOf_ceil hneed, fun f => frontierRelOf_lt_of_ceil⟩
  · intro p P c f hc hf
    have := @genOf_lt_iff st (p + 1) P c f (Nat.le_of_lt hc) hf
    rw [eq_comm (a := P)]
    exact this

/-- A stripe of 32 MiB with its directory in the file. -/
theorem frontier_arithmetic_32MiB :
    let g := retentionGeometry (33554432 - 724992)
    g = (32, 1048576) ∧ (g.1 - 1) * g.2 < 33554432 - 724992 :=
  ⟨by decide +kernel,
    (@frontier_arithmetic 64 724992 33554432 (by decide) (by decide) true).1.2.2.2.1⟩

section Admission

variable {o target source writeSerial threshold : Nat} {phase : Bool} {cls : AdmitClass}
  {snap : StripeSnapshot}

theorem admitPosition_kCurrent : st.admitPosition o phase snap = .kCurrent ↔
    st.inDataArea o = true ∧ phase = snap.phase ∧ o < snap.cursorRel := by
  simp only [admitPosition]
  grind

theorem admitPosition_kRetained : st.admitPosition o phase snap = .kRetained ↔
    st.inDataArea o = true ∧ phase ≠ snap.phase ∧ st.retain = true ∧ snap.pass > 0 ∧
      o ≥ snap.frontierRel := by
  simp only [admitPosition]
  grind

theorem admitHop_kCurrent : st.admitHop target source cls snap = .kCurrent ↔
    target ≠ 0 ∧ st.inDataArea target = true ∧ target < source ∧ cls = .kCurrent ∧
      target < snap.cursorRel := by
  simp only [admitHop]
  grind

theorem admitHop_kRetained : st.admitHop target source cls snap = .kRetained ↔
    target ≠ 0 ∧ st.inDataArea target = true ∧ target < source ∧ cls = .kRetained ∧
      st.retain = true ∧ target ≥ snap.frontierRel := by
  simp only [admitHop]
  grind

theorem admitDocument_eq_some : st.admitDocument snap cls o writeSerial = some threshold ↔
    cls ≠ .kReject ∧ st.stampAdmits snap cls writeSerial = true ∧ snap.gen ≤ threshold ∧
      threshold = st.exposureThreshold (expectedPass cls snap) o := by
  simp only [admitDocument]
  grind

end Admission

end Stripe

theorem phaseOf_eq {p q : Nat} : phaseOf p = phaseOf q ↔ p % 2 = q % 2 := by
  rw [phaseOf, phaseOf, Bool.eq_iff_iff, beq_iff_eq, beq_iff_eq]
  omega

end CycloneCache.Ref

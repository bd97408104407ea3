import CycloneCache.Proofs.ChainPlans
import CycloneCache.Proofs.Reservations

namespace CycloneCache.Ref.Volume

open Lib

theorem offset_setOffset (w : DirWords) (o : BitVec 64) :
    (w.setOffset o).offset = (o.setWidth 40).setWidth 64 := by
  apply BitVec.eq_of_getElem_eq
  intro i hi
  simp only [DirWords.offset, DirWords.setOffset, BitVec.getElem_or, BitVec.getElem_setWidth,
    BitVec.getElem_shiftLeft, BitVec.getLsbD_and, BitVec.getLsbD_or, BitVec.getLsbD_setWidth,
    BitVec.getLsbD_ushiftRight]
  -- bit by bit: each one comes from one of the three words
  interval_cases i <;> simp

theorem toNat_offset_setOffset (w : DirWords) (e : DirEntry) (o : Nat) :
    (w.setOffset (BitVec.ofNat 64 o)).offset.toNat = (e.setOffset o).offset := by
  rw [offset_setOffset]
  simp only [BitVec.toNat_setWidth, BitVec.toNat_ofNat, DirEntry.setOffset]
  omega

structure Survives (o serial : Nat) : Prop where
  words : ∀ w : DirWords, (w.setOffset (BitVec.ofNat 64 o)).offset.toNat = o
  entry : ∀ p : Publication, p.offset = o → (p.entry.offset = o ∧ p.entry.isEmpty = false) ∧
      ∀ e, (p.update e).offset = o ∧ (p.update e).isEmpty = false
  link : Document.linkOffset (Document.makeLink o serial) = o ∧
    Document.linkSerial (Document.makeLink o serial) = serial

theorem linkSerial_makeLink {rel serial : Nat} (hrel : 0 < rel) (hserial : serial < 2 ^ 16) :
    Document.linkSerial (Document.makeLink rel serial) = serial := by
  simp only [Document.linkSerial, Document.makeLink, Document.kLinkSerialShift]
  rw [if_neg (by omega)]
  omega

theorem survives_of_lt {o serial : Nat} (hpos : 0 < o) (ho : o < 2 ^ 40)
    (hserial : serial < 2 ^ 16) : Survives o serial := by
  have hmod : o % 2 ^ 40 = o := Nat.mod_eq_of_lt ho
  have hne : (o == 0) = false := by
    simp only [beq_eq_false_iff_ne]
    omega
  refine ⟨fun w => ?_, fun p hp => ?_, linkOffset_makeLink (by omega) serial,
    linkSerial_makeLink hpos hserial⟩
  · rw [toNat_offset_setOffset w .empty, DirEntry.setOffset, hmod]
  · subst hp
    have hstored : ∀ e, (p.update e).offset = p.offset ∧ (p.update e).isEmpty = false := by
      intro e
      have hoff : (p.update e).offset = p.offset := hmod
      exact ⟨hoff, by rw [DirEntry.isEmpty, hoff, hne]⟩
    exact ⟨hstored .empty, hstored⟩

theorem not_survives_tib (serial : Nat) : ¬ Survives (2 ^ 40) serial := by
  intro h
  have hwords := h.words ⟨0, 0, 0⟩
  rw [toNat_offset_setOffset _ .empty] at hwords
  exact absurd hwords (by decide)

theorem granted_at_tib {env : Env} (hstart : env.stripe.dataStart + kHeaderSize ≤ 2 ^ 40)
    (hsize : 2 ^ 40 + roundUp8 kHeaderSize ≤ env.stripe.size) :
    ∃ acts s g, runs env.reserveStep (.fresh env) acts = some s ∧ g ∈ s.granted ∧
      g.slot.writeOffset = 2 ^ 40 ∧ 2 ^ 40 + roundUp8 kHeaderSize ≤ g.slot.newWritePos := by
  have haligned := env.stripe.start_aligned
  have hround : roundUp8 (2 ^ 40 - env.stripe.dataStart) = 2 ^ 40 - env.stripe.dataStart := by
    simp only [roundUp8]
    omega
  have htop : (Reservations.fresh env).top env = env.stripe.dataStart := rfl
  obtain ⟨s, hrun, hinv, hfree, hmoved⟩ := (reserveInv_fresh env).grow rfl
    (show kHeaderSize ≤ 2 ^ 40 - env.stripe.dataStart by omega) (by omega)
  have htib : s.top env = 2 ^ 40 := by omega
  obtain ⟨slot, gen, -, hgranted, hoffset, hnew⟩ :=
    @reserve_fits env kHeaderSize 0 s _ (hinv.adopt (.inr rfl)) hinv.start_le (htib.symm ▸ hsize)
  refine ⟨_, _, ⟨slot, gen⟩,
    runs_snoc hrun (reserveStep_allocate hfree (.inr rfl) le_rfl openGates), ?_,
    hoffset.trans htib, htib ▸ Nat.le_of_eq hnew.symm⟩
  rw [hgranted]
  exact List.mem_cons_self

def Grant.Named (g : Grant) : Prop :=
  ∀ o, g.slot.writeOffset ≤ o → o + roundUp8 kHeaderSize ≤ g.slot.newWritePos →
    Survives o g.slot.fillSerial

theorem Grant.Inside.named {env : Env} {g : Grant} (h : g.Inside env)
    (hsize : env.stripe.size < 2 ^ 40 + roundUp8 kHeaderSize) : g.Named := by
  intro o hlo hhi
  have hstart := env.start_pos
  have hfirst := h.start_le
  have hend := h.end_le
  exact survives_of_lt (by omega) (by omega) h.serial

theorem dataStart_initStripe (cfg : VolumeConfig) (set : Settings) (i : Nat)
    (hfits : stripeGeometryFits cfg = true)
    (hi : i < (computeStripeGeometry cfg.size cfg.stripeSize).numStripes) :
    (initStripe cfg set i hfits hi).stripe.dataStart + kHeaderSize ≤ 2 ^ 40 := by
  show stripeDirectorySpan cfg.mmapDirectory + kHeaderSize ≤ 2 ^ 40
  cases cfg.mmapDirectory <;> decide

/-- Every document of every slot that can be granted in a stripe is named by
its entry and by links to it, if and only if no document can start at 1 TiB. -/
theorem offsets_survive_directory (cfg : VolumeConfig) (set : Settings) (i : Nat)
    (hfits : stripeGeometryFits cfg = true)
    (hi : i < (computeStripeGeometry cfg.size cfg.stripeSize).numStripes) :
    let env := initStripe cfg set i hfits hi
    (∀ acts s, runs env.reserveStep (.fresh env) acts = some s → ∀ g ∈ s.granted, g.Named) ↔
      env.stripe.size < 2 ^ 40 + roundUp8 kHeaderSize := by
  intro env
  constructor
  · intro hall
    by_contra hlarge
    obtain ⟨acts, s, g, hrun, hg, hoffset, hnew⟩ :=
      granted_at_tib (dataStart_initStripe cfg set i hfits hi) (Nat.le_of_not_lt hlarge)
    exact not_survives_tib _ (hall acts s hrun g hg (2 ^ 40) (Nat.le_of_eq hoffset) hnew)
  · intro hsize acts s hrun g hg
    exact ((reserveInv_run hrun).grants g hg).named hsize

def wideStripe : VolumeConfig where
  size := kVolumeHeaderSize + 2 ^ 40 + 4096
  stripeSize := 2 ^ 40 + 4096
  mmapDirectory := true
  wrapRetention := false

def wideEnv : Env := initStripe wideStripe plainSettings 0 (by decide +kernel) (by decide +kernel)

theorem offset_lost_at_tib : ¬ ∀ acts s, runs wideEnv.reserveStep (.fresh wideEnv) acts = some s →
      ∀ g ∈ s.granted, g.Named := by
  intro hall
  obtain ⟨acts, s, g, hrun, hg, hoffset, hnew⟩ := @granted_at_tib wideEnv
    (by decide +kernel) (by decide +kernel)
  exact not_survives_tib _ (hall acts s hrun g hg (2 ^ 40) (Nat.le_of_eq hoffset) hnew)

theorem offsets_survive_directory_single : singleEnv.stripe.size < 2 ^ 40 + roundUp8 kHeaderSize ∧
      ∀ acts s, runs singleEnv.reserveStep (.fresh singleEnv) acts = some s →
        ∀ g ∈ s.granted, g.Named := by
  have hsize : singleEnv.stripe.size < 2 ^ 40 + roundUp8 kHeaderSize := by decide +kernel
  exact ⟨hsize,
    (offsets_survive_directory singleStripe plainSettings 0 (by decide) (by decide)).mpr hsize⟩

end CycloneCache.Ref.Volume

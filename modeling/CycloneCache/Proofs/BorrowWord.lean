import CycloneCache.Lib.Headcount
import CycloneCache.Ref.BorrowWord

namespace CycloneCache.Ref.BorrowWord

open Lib Function

section Words

variable {k : Nat}

theorem toNat_kCountMaskOf : (kCountMaskOf k).toNat = 2 ^ k - 1 := by
  have hlt : 2 ^ k - 1 < 2 ^ (k + 8) :=
    lt_of_lt_of_le (Nat.sub_lt (Nat.two_pow_pos k) Nat.one_pos)
      (Nat.pow_le_pow_right (by decide) (Nat.le_add_right k 8))
  rw [kCountMaskOf, BitVec.toNat_ofNat, Nat.mod_eq_of_lt hlt]

theorem two_pow_le (hk : k ≤ 24) : 2 ^ k ≤ 2 ^ 24 := Nat.pow_le_pow_right (by decide) hk

theorem toNat_countOf (hk : k ≤ 24) (slot : Word k) :
    (countOf slot).toNat = slot.toNat % 2 ^ k := by
  have hlt : slot.toNat % 2 ^ k < 2 ^ k := Nat.mod_lt _ (Nat.two_pow_pos k)
  have hle := two_pow_le hk
  rw [countOf, BitVec.toNat_setWidth, BitVec.toNat_and, toNat_kCountMaskOf,
    Nat.and_two_pow_sub_one_eq_mod, Nat.mod_eq_of_lt (by omega)]

theorem toNat_generationOf (slot : Word k) : (generationOf slot).toNat = slot.toNat / 2 ^ k := by
  have hlt : slot.toNat / 2 ^ k < 2 ^ 8 := by
    apply Nat.div_lt_of_lt_mul
    rw [← Nat.pow_add]
    exact slot.isLt
  rw [generationOf, BitVec.toNat_setWidth, BitVec.toNat_ushiftRight, Nat.shiftRight_eq_div_pow,
    Nat.mod_eq_of_lt hlt]

theorem toNat_packOf (hk : k ≤ 24) (gen : BitVec 8) (cnt : BitVec 32) :
    (packOf k gen cnt).toNat = 2 ^ k * gen.toNat + cnt.toNat % 2 ^ k := by
  have hle := two_pow_le hk
  have hpos := Nat.two_pow_pos k
  have hgen := gen.isLt
  have hmask : ((kCountMaskOf k).setWidth 32).toNat = 2 ^ k - 1 := by
    rw [BitVec.toNat_setWidth, toNat_kCountMaskOf, Nat.mod_eq_of_lt (by omega)]
  have hcnt : ((cnt &&& (kCountMaskOf k).setWidth 32).setWidth 64).toNat = cnt.toNat % 2 ^ k := by
    have hlt : cnt.toNat % 2 ^ k < 2 ^ k := Nat.mod_lt _ hpos
    rw [BitVec.toNat_setWidth, BitVec.toNat_and, hmask, Nat.and_two_pow_sub_one_eq_mod,
      Nat.mod_eq_of_lt (by omega)]
  have hhigh : 2 ^ k * gen.toNat ≤ 2 ^ k * 255 := Nat.mul_le_mul_left _ (by omega)
  have hlow : cnt.toNat % 2 ^ k < 2 ^ k := Nat.mod_lt _ hpos
  have hshift : (gen.setWidth 64 <<< k).toNat = 2 ^ k * gen.toNat := by
    rw [BitVec.toNat_shiftLeft, BitVec.toNat_setWidth,
      Nat.mod_eq_of_lt (show gen.toNat < 2 ^ 64 by omega), Nat.shiftLeft_eq, Nat.mul_comm,
      Nat.mod_eq_of_lt (by omega)]
  have hword : 2 ^ (k + 8) = 2 ^ k * 256 := Nat.pow_add 2 k 8
  rw [packOf, BitVec.toNat_setWidth, BitVec.toNat_or, hshift, hcnt,
    ← Nat.two_pow_add_eq_or_of_lt hlow, Nat.mod_eq_of_lt (by omega)]

theorem generationOf_packOf (hk : k ≤ 24) (gen : BitVec 8) (cnt : BitVec 32) :
    generationOf (packOf k gen cnt) = gen := by
  apply BitVec.eq_of_toNat_eq
  rw [toNat_generationOf, toNat_packOf hk, Nat.mul_add_div (Nat.two_pow_pos k),
    Nat.div_eq_of_lt (Nat.mod_lt _ (Nat.two_pow_pos k)), Nat.add_zero]

theorem countOf_packOf (hk : k ≤ 24) (gen : BitVec 8) {cnt : BitVec 32} (h : cnt.toNat < 2 ^ k) :
    countOf (packOf k gen cnt) = cnt := by
  apply BitVec.eq_of_toNat_eq
  rw [toNat_countOf hk, toNat_packOf hk, Nat.mul_add_mod, Nat.mod_mod, Nat.mod_eq_of_lt h]

theorem countOf_lt (hk : k ≤ 24) (slot : Word k) : (countOf slot).toNat < 2 ^ k := by
  rw [toNat_countOf hk]
  exact Nat.mod_lt _ (Nat.two_pow_pos k)

variable {slot : Word k}

theorem succ_lt_of_not_saturated (hk : k ≤ 24) (h : saturated slot = false) :
    (countOf slot).toNat + 1 < 2 ^ k := by
  have hlt := countOf_lt hk slot
  have hle := two_pow_le hk
  have hne : (countOf slot).toNat ≠ 2 ^ k - 1 := by
    intro heq
    have hmask : countOf slot = (kCountMaskOf k).setWidth 32 := by
      apply BitVec.eq_of_toNat_eq
      rw [heq, BitVec.toNat_setWidth, toNat_kCountMaskOf, Nat.mod_eq_of_lt (by omega)]
    rw [saturated, hmask, beq_self_eq_true] at h
    cases h
  omega

theorem acquired_word (hk : k ≤ 24) (h : saturated slot = false) :
    generationOf (packOf k (generationOf slot) (countOf slot + 1)) = generationOf slot ∧
      (countOf (packOf k (generationOf slot) (countOf slot + 1))).toNat =
        (countOf slot).toNat + 1 := by
  have hlt := succ_lt_of_not_saturated hk h
  have hle := two_pow_le hk
  have hsucc : (countOf slot + 1).toNat = (countOf slot).toNat + 1 := by
    rw [BitVec.toNat_add]
    exact Nat.mod_eq_of_lt (by show (countOf slot).toNat + 1 < 2 ^ 32; omega)
  refine ⟨generationOf_packOf hk _ _, ?_⟩
  rw [countOf_packOf hk _ (by omega), hsucc]

theorem released_word (hk : k ≤ 24) (h : countOf slot ≠ 0) :
    generationOf (packOf k (generationOf slot) (countOf slot - 1)) = generationOf slot ∧
      (countOf (packOf k (generationOf slot) (countOf slot - 1))).toNat + 1 =
        (countOf slot).toNat := by
  have hlt := countOf_lt hk slot
  have hpos : 1 ≤ (countOf slot).toNat :=
    Nat.one_le_iff_ne_zero.mpr fun h0 => h (BitVec.eq_of_toNat_eq (by rw [h0]; rfl))
  have hpred : (countOf slot - 1).toNat = (countOf slot).toNat - 1 :=
    BitVec.toNat_sub_of_le (BitVec.le_def.mpr hpos)
  refine ⟨generationOf_packOf hk _ _, ?_⟩
  rw [countOf_packOf hk _ (by omega), hpred, Nat.sub_add_cancel hpos]

end Words

theorem epoch_eq {gen₀ : BitVec 8} {a b : Nat}
    (h : gen₀ + BitVec.ofNat 8 a = gen₀ + BitVec.ofNat 8 b) (hle : a ≤ b) (hlt : b < a + 256) :
    a = b := by
  have hmod : a % 2 ^ 8 = b % 2 ^ 8 := by
    have hbits := congrArg BitVec.toNat (BitVec.add_right_inj _ |>.mp h)
    rwa [BitVec.toNat_ofNat, BitVec.toNat_ofNat] at hbits
  omega

section Inv

variable {P T : Type} {k : Nat}

def Pc.token : Pc T k → Option T
  | .acquiring t _ | .releasing t _ _ => some t
  | _ => none

def Pc.Ok (pc : Pc T k) (tokens : T → Place) : Prop :=
  match pc with
  | .idle => True
  | .acquiring t cur => tokens t = .opening ∧ saturated cur = false
  | .releasing t token cur =>
    tokens t = .closing token ∧ generationOf cur = token.generation ∧ countOf cur ≠ 0
  | .resetting cur => countOf cur ≠ 0

def Token.Ok (gen₀ : BitVec 8) (resets : Nat) (token : Token) : Prop :=
  token.counted = true ∧ token.generation = gen₀ + BitVec.ofNat 8 token.epoch ∧ token.epoch ≤ resets

structure Inv (gen₀ : BitVec 8) (s : State P T k) : Prop where
  generation : generationOf s.slot = gen₀ + BitVec.ofNat 8 s.resets
  count : ((countOf s.slot).toNat : ℕ∞) = headcount (fun _ => Place.OpenIn s.resets) s.tokens
  held : ∀ t token, s.tokens t = .held token → token.Ok gen₀ s.resets
  closing : ∀ t token, s.tokens t = .closing token → token.Ok gen₀ s.resets
  pc : ∀ p, (s.pc p).Ok s.tokens
  own : ∀ p q t, (s.pc p).token = some t → (s.pc q).token = some t → p = q

variable {gen₀ : BitVec 8} {s : State P T k} {t : T} {token : Token} {p : P}

theorem Inv.alone (h : Inv gen₀ s) (hopen : s.tokens t ≠ .opening)
    (hclosing : ∀ token, s.tokens t ≠ .closing token) (q : P) : (s.pc q).token ≠ some t := by
  intro hq
  have hpc := h.pc q
  cases hpcq : s.pc q with
  | idle | resetting cur =>
    rw [hpcq] at hq
    cases hq
  | acquiring t' cur =>
    rw [hpcq] at hq hpc
    cases hq
    exact hopen hpc.1
  | releasing t' token cur =>
    rw [hpcq] at hq hpc
    cases hq
    exact hclosing token hpc.1

theorem Place.openIn_of {place : Place} {n : Nat} (h : place = .held token ∨ place = .closing token) :
    place.OpenIn n ↔ token.epoch = n := by
  rcases h with rfl | rfl <;> exact Iff.rfl

theorem Inv.token_ok (h : Inv gen₀ s)
    (hplace : s.tokens t = .held token ∨ s.tokens t = .closing token) : token.Ok gen₀ s.resets := by
  rcases hplace with hplace | hplace
  · exact h.held t token hplace
  · exact h.closing t token hplace

theorem Inv.counted (h : Inv gen₀ s) (hopen : (s.tokens t).OpenIn s.resets) :
    countOf s.slot ≠ 0 := by
  intro hzero
  have hcount := h.count
  rw [hzero] at hcount
  exact headcount_eq_zero.mp hcount.symm t hopen

theorem fresh_inv (hk : k ≤ 24) (gen₀ : BitVec 8) : Inv gen₀ (State.fresh P T k gen₀) := by
  constructor
  · show generationOf (packOf k gen₀ 0) = gen₀ + BitVec.ofNat 8 0
    rw [generationOf_packOf hk]
    exact (BitVec.add_zero gen₀).symm
  · show ((countOf (packOf k gen₀ 0)).toNat : ℕ∞) = headcount _ fun _ => Place.unused
    have hzero : countOf (packOf k gen₀ 0) = 0 := countOf_packOf hk _ (Nat.two_pow_pos k)
    rw [hzero, headcount_eq_zero.mpr fun _ => id]
    rfl
  · nofun
  · nofun
  · exact fun _ => trivial
  · nofun

variable [DecidableEq P]

theorem Inv.gotoReset (h : Inv gen₀ s) {pc : Pc T k} (hpc : pc.Ok s.tokens)
    (hnone : pc.token = none) : Inv gen₀ (s.goto p pc) := by
  refine ⟨h.generation, h.count, h.held, h.closing, ?_, ?_⟩
  · exact (forall_update_iff s.pc fun _ pc => pc.Ok s.tokens).mpr ⟨hpc, fun q _ => h.pc q⟩
  · show ∀ q r u, (update s.pc p pc q).token = some u → (update s.pc p pc r).token = some u → q = r
    have hkeep : ∀ q u, (update s.pc p pc q).token = some u → (s.pc q).token = some u := by
      refine (forall_update_iff s.pc fun q pc => ∀ u, pc.token = some u →
        (s.pc q).token = some u).mpr ⟨fun u hu => ?_, fun _ _ _ hu => hu⟩
      rw [hnone] at hu
      cases hu
    exact fun q r u hq hr => h.own q r u (hkeep q u hq) (hkeep r u hr)

theorem Inv.tryReset (h : Inv gen₀ s) (p : P) : Inv gen₀ (tryReset s p s.slot) := by
  unfold BorrowWord.tryReset
  split
  · exact h.gotoReset trivial rfl
  · next hsome => exact h.gotoReset hsome rfl

theorem tryReset_keeps (s : State P T k) (p : P) (cur : Word k) :
    (tryReset s p cur).slot = s.slot ∧ (tryReset s p cur).resets = s.resets := by
  unfold tryReset
  split <;> exact ⟨rfl, rfl⟩

theorem Inv.reset (hk : k ≤ 24) (h : Inv gen₀ s) {cur : Word k} (hslot : s.slot = cur) :
    Inv gen₀ { s.goto p .idle with
      slot := packOf k (generationOf cur + 1) 0, resets := s.resets + 1 } := by
  have hword : countOf (packOf k (generationOf cur + 1) 0) = 0 :=
    countOf_packOf hk _ (Nat.two_pow_pos k)
  have hlater : ∀ token : Token, token.Ok gen₀ s.resets → token.Ok gen₀ (s.resets + 1) :=
    fun token hok => ⟨hok.1, hok.2.1, Nat.le_succ_of_le hok.2.2⟩
  have hidle : Inv gen₀ (s.goto p .idle) := h.gotoReset trivial rfl
  constructor
  · show generationOf (packOf k (generationOf cur + 1) 0) = gen₀ + BitVec.ofNat 8 (s.resets + 1)
    rw [generationOf_packOf hk, ← hslot, h.generation, BitVec.ofNat_add, BitVec.add_assoc]
    rfl
  · show ((countOf (packOf k (generationOf cur + 1) 0)).toNat : ℕ∞) =
      headcount (fun _ => Place.OpenIn (s.resets + 1)) s.tokens
    have hnone : headcount (fun _ => Place.OpenIn (s.resets + 1)) s.tokens = 0 := by
      rw [headcount_eq_zero]
      intro t hopen
      cases hplace : s.tokens t with rw [hplace] at hopen
      | held token =>
        have hle := (h.held t token hplace).2.2
        exact absurd (show token.epoch = s.resets + 1 from hopen) (by omega)
      | closing token =>
        have hle := (h.closing t token hplace).2.2
        exact absurd (show token.epoch = s.resets + 1 from hopen) (by omega)
      | _ =>
        exact hopen
    rw [hword, hnone]
    rfl
  · exact fun t token ht => hlater token (h.held t token ht)
  · exact fun t token ht => hlater token (h.closing t token ht)
  · exact hidle.pc
  · exact hidle.own

variable [DecidableEq T]

theorem Inv.moved (h : Inv gen₀ s) {pc : Pc T k} {place : Place} {slot : Word k}
    (hmine : ∀ q, q ≠ p → (s.pc q).token ≠ some t) (hpc : pc.Ok (update s.tokens t place))
    (hat : pc.token = none ∨ pc.token = some t)
    (hheld : ∀ token, place = .held token → token.Ok gen₀ s.resets)
    (hclosing : ∀ token, place = .closing token → token.Ok gen₀ s.resets)
    (hgen : generationOf slot = generationOf s.slot)
    (hcount : Tracks (Place.OpenIn s.resets) (s.tokens t) place (countOf s.slot).toNat
      (countOf slot).toNat) :
    Inv gen₀ { s with
      slot := slot, tokens := update s.tokens t place,
      pc := update s.pc p pc } := by
  have hothers : ∀ q, q ≠ p → (s.pc q).Ok (update s.tokens t place) := by
    intro q hq
    have hq' := h.pc q
    have hmine := hmine q hq
    cases hpcq : s.pc q with
    | idle => trivial
    | acquiring t' cur | releasing t' token cur =>
      rw [hpcq] at hq' hmine
      have hne : t' ≠ t := fun heq => hmine (by rw [heq]; rfl)
      exact ⟨by rw [update_of_ne hne]; exact hq'.1, hq'.2⟩
    | resetting cur =>
      rw [hpcq] at hq'
      exact hq'
  constructor
  · show generationOf slot = gen₀ + BitVec.ofNat 8 s.resets
    rw [hgen]
    exact h.generation
  · exact Tracks.headcount_eq hcount h.count
  · exact (forall_update_iff s.tokens
      fun _ pl => ∀ token, pl = .held token → token.Ok gen₀ s.resets).mpr
        ⟨hheld, fun u _ => h.held u⟩
  · exact (forall_update_iff s.tokens
      fun _ pl => ∀ token, pl = .closing token → token.Ok gen₀ s.resets).mpr
        ⟨hclosing, fun u _ => h.closing u⟩
  · exact (forall_update_iff s.pc fun _ pc => pc.Ok (update s.tokens t place)).mpr ⟨hpc, hothers⟩
  · have hnew : ∀ q, q ≠ p → ∀ u, pc.token = some u → (s.pc q).token ≠ some u := by
      intro q hq u hu
      rcases hat with hnone | hsome
      · rw [hnone] at hu
        cases hu
      · rw [hsome] at hu
        cases hu
        exact hmine q hq
    show ∀ q r u, (update s.pc p pc q).token = some u → (update s.pc p pc r).token = some u → q = r
    intro q r u hqu hru
    by_cases hqp : q = p <;> by_cases hrp : r = p
    · rw [hqp, hrp]
    · subst hqp
      rw [update_self] at hqu
      rw [update_of_ne hrp] at hru
      exact absurd hru (hnew r hrp u hqu)
    · subst hrp
      rw [update_self] at hru
      rw [update_of_ne hqp] at hqu
      exact absurd hqu (hnew q hqp u hru)
    · rw [update_of_ne hqp] at hqu
      rw [update_of_ne hrp] at hru
      exact h.own q r u hqu hru

inductive Effect (s : State P T k) (l : P × Act T) (s' : State P T k) : Prop where
  | keep (hslot : s'.slot = s.slot) (hresets : s'.resets = s.resets)
  | acquire (hnone : releaseOf s l = none) (hgen : generationOf s'.slot = generationOf s.slot)
      (hcount : (countOf s'.slot).toNat = (countOf s.slot).toNat + 1)
      (hresets : s'.resets = s.resets)
  /-- Only a token of the present generation is dropped. -/
  | release (token : Token) (hsome : releaseOf s l = some token)
      (hepoch : token.epoch = s.resets) (hgen : generationOf s'.slot = generationOf s.slot)
      (hcount : (countOf s'.slot).toNat + 1 = (countOf s.slot).toNat)
      (hresets : s'.resets = s.resets)
  | reset (hnone : releaseOf s l = none) (hgen : generationOf s'.slot = generationOf s.slot + 1)
      (hcount : countOf s'.slot = 0) (hresets : s'.resets = s.resets + 1)

theorem Inv.tryRelease (h : Inv gen₀ s)
    (hplace : s.tokens t = .held token ∨ s.tokens t = .closing token)
    (hmine : ∀ q, q ≠ p → (s.pc q).token ≠ some t) : Inv gen₀ (tryRelease s p t token s.slot) := by
  have htoken := h.token_ok hplace
  unfold BorrowWord.tryRelease
  split
  · next hstale =>
    -- otherwise the token would be in the count
    have hepoch : ¬ (s.tokens t).OpenIn s.resets := by
      intro hopen
      have heq := (Place.openIn_of hplace).mp hopen
      rcases hstale with hgen | hzero
      · rw [h.generation, htoken.2.1, heq] at hgen
        exact hgen rfl
      · exact h.counted hopen hzero
    exact h.moved hmine trivial (.inl rfl) nofun nofun rfl
      (.inl ⟨⟨fun hopen => absurd hopen hepoch, nofun⟩, rfl⟩)
  · next hlive =>
    rw [not_or, ne_eq, not_not] at hlive
    refine h.moved hmine ⟨update_self .., hlive⟩ (.inr rfl) nofun ?_ rfl
      (.inl ⟨(Place.openIn_of hplace), rfl⟩)
    rintro _ ⟨⟩
    exact htoken

theorem Inv.tryAcquire (h : Inv gen₀ s) (hroom : saturated s.slot = false)
    (hplace : s.tokens t = .unused ∨ s.tokens t = .opening)
    (hmine : ∀ q, q ≠ p → (s.pc q).token ≠ some t) :
    Inv gen₀ (tryAcquire (s.put t .opening) p t s.slot) := by
  have hclosed : ¬ (s.tokens t).OpenIn s.resets := by
    rcases hplace with hplace | hplace <;> rw [hplace] <;> exact id
  unfold BorrowWord.tryAcquire
  rw [hroom]
  exact h.moved hmine ⟨update_self .., hroom⟩ (.inr rfl) nofun nofun rfl
    (.inl ⟨⟨fun hopen => absurd hopen hclosed, nofun⟩, rfl⟩)

theorem tryAcquire_keeps (s : State P T k) (p : P) (t : T) (cur : Word k) :
    (tryAcquire s p t cur).slot = s.slot ∧ (tryAcquire s p t cur).resets = s.resets := by
  unfold tryAcquire
  split <;> exact ⟨rfl, rfl⟩

theorem tryRelease_keeps (s : State P T k) (p : P) (t : T) (token : Token) (cur : Word k) :
    (tryRelease s p t token cur).slot = s.slot ∧
      (tryRelease s p t token cur).resets = s.resets := by
  unfold tryRelease
  split <;> exact ⟨rfl, rfl⟩

theorem Inv.acquired (hk : k ≤ 24) (h : Inv gen₀ s) (hpc : s.pc p = .acquiring t s.slot)
    (spurious : Bool) :
    let s' := { (s.goto p .idle).put t (.held ⟨generationOf s.slot, true, s.resets⟩) with
      slot := packOf k (generationOf s.slot) (countOf s.slot + 1) }
    Effect s (p, .cas spurious) s' ∧ Inv gen₀ s' := by
  intro s'
  have hown := h.pc p
  rw [hpc] at hown
  obtain ⟨hgen, hcount⟩ := acquired_word hk hown.2
  have hmine : ∀ q, q ≠ p → (s.pc q).token ≠ some t := fun q hq hqt =>
    hq (h.own q p t hqt (by rw [hpc]; rfl))
  refine ⟨.acquire (by simp [releaseOf, hpc]) hgen hcount rfl, ?_⟩
  refine h.moved hmine trivial (.inl rfl) ?_ nofun hgen (.inr (.inl ⟨?_, rfl, hcount⟩))
  · rintro _ ⟨⟩
    exact ⟨rfl, h.generation, le_rfl⟩
  · rw [hown.1]
    exact id

theorem Inv.released (hk : k ≤ 24) (h : Inv gen₀ s) (hpc : s.pc p = .releasing t token s.slot)
    (hwindow : s.resets < token.epoch + 256) (spurious : Bool) :
    let s' := { (s.goto p .idle).put t (.released token) with
      slot := packOf k token.generation (countOf s.slot - 1) }
    Effect s (p, .cas spurious) s' ∧ Inv gen₀ s' := by
  intro s'
  have hown := h.pc p
  rw [hpc] at hown
  obtain ⟨hplace, hsame, hsome⟩ := hown
  obtain ⟨hgen, hcount⟩ := released_word hk hsome
  rw [hsame] at hgen hcount
  have htoken := h.closing t token hplace
  have hbits : gen₀ + BitVec.ofNat 8 token.epoch = gen₀ + BitVec.ofNat 8 s.resets := by
    rw [← htoken.2.1, ← hsame, h.generation]
  have hepoch : token.epoch = s.resets := epoch_eq hbits htoken.2.2 hwindow
  have hmine : ∀ q, q ≠ p → (s.pc q).token ≠ some t := fun q hq hqt =>
    hq (h.own q p t hqt (by rw [hpc]; rfl))
  have hgen' : generationOf s'.slot = generationOf s.slot := hgen.trans hsame.symm
  refine ⟨.release token (by simp [releaseOf, hpc]) hepoch hgen' hcount rfl, ?_⟩
  refine h.moved hmine trivial (.inl rfl) nofun nofun hgen' (.inr (.inr ⟨?_, nofun, ?_⟩))
  · rw [hplace]
    exact hepoch
  · exact Nat.eq_sub_of_add_eq hcount

theorem Inv.step (hk : k ≤ 24) (h : Inv gen₀ s) {l : P × Act T} {s' : State P T k}
    (hok : Bounded s l) (hs : step s l = some s') : Effect s l s' ∧ Inv gen₀ s' := by
  obtain ⟨hroom, hwindow⟩ := hok
  obtain ⟨p, act⟩ := l
  cases act with simp only [BorrowWord.step] at hs
  | acquire t =>
    split at hs <;> cases hs
    next hpc hplace =>
    have halone := h.alone (by rw [hplace]; nofun) (by rw [hplace]; nofun)
    obtain ⟨hslot, hresets⟩ := tryAcquire_keeps (s.put t .opening) p t s.slot
    exact ⟨.keep hslot hresets, h.tryAcquire hroom (.inl hplace) fun q _ => halone q⟩
  | release t =>
    split at hs
    · next token hpc hplace =>
      have hcounted := (h.held t token hplace).1
      rw [hcounted] at hs
      cases hs
      have halone := h.alone (by rw [hplace]; nofun) (by rw [hplace]; nofun)
      obtain ⟨hslot, hresets⟩ := tryRelease_keeps s p t token s.slot
      exact ⟨.keep hslot hresets, h.tryRelease (.inl hplace) fun q _ => halone q⟩
    · cases hs
  | forceReset =>
    split at hs <;> cases hs
    obtain ⟨hslot, hresets⟩ := tryReset_keeps s p s.slot
    exact ⟨.keep hslot hresets, h.tryReset p⟩
  | cas spurious =>
    have hown := h.pc p
    simp only [exchange] at hs
    split at hs <;> cases hs
    · next t cur hpc =>
      rw [hpc] at hown
      split
      · next hswap =>
        rw [← hswap.1] at hpc ⊢
        exact h.acquired hk hpc spurious
      · have hsame : s.put t .opening = s := by
          rw [State.put, ← hown.1, update_eq_self]
        have hmine : ∀ q, q ≠ p → (s.pc q).token ≠ some t := fun q hq hqt =>
          hq (h.own q p t hqt (by rw [hpc]; rfl))
        obtain ⟨hslot, hresets⟩ := tryAcquire_keeps s p t s.slot
        have hinv := h.tryAcquire hroom (.inr hown.1) hmine
        rw [hsame] at hinv
        exact ⟨.keep hslot hresets, hinv⟩
    · next t token cur hpc =>
      rw [hpc] at hown
      split
      · next hswap =>
        rw [← hswap.1] at hpc ⊢
        exact h.released hk hpc (hwindow token (by simp [releaseOf, hpc])) spurious
      · have hmine : ∀ q, q ≠ p → (s.pc q).token ≠ some t := fun q hq hqt =>
          hq (h.own q p t hqt (by rw [hpc]; rfl))
        obtain ⟨hslot, hresets⟩ := tryRelease_keeps s p t token s.slot
        exact ⟨.keep hslot hresets, h.tryRelease (.inr hown.1) hmine⟩
    · next cur hpc =>
      split
      · next hswap =>
        refine ⟨.reset (by simp [releaseOf, hpc]) ?_ ?_ rfl, h.reset hk hswap.1⟩
        · rw [hswap.1]
          exact generationOf_packOf hk _ _
        · exact countOf_packOf hk _ (Nat.two_pow_pos k)
      · obtain ⟨hslot, hresets⟩ := tryReset_keeps s p s.slot
        exact ⟨.keep hslot hresets, h.tryReset p⟩

end Inv

/-- While the count stays below saturation it is the number of open tokens of
the present generation. A release of a token from an earlier one does nothing,
and no step takes from the generation: an acquire and a release leave it, a
reset makes it the next one. -/
theorem borrow_counting {P T : Type} [DecidableEq P] [DecidableEq T] {k : Nat} (hk : k ≤ 24)
    {gen₀ : BitVec 8} {ls : List (P × Act T)} {s : State P T k}
    (hrun : runs step (.fresh P T k gen₀) ls = some s)
    (hok : StepsOk step Bounded (.fresh P T k gen₀) ls) :
    ((countOf s.slot).toNat : ℕ∞) = headcount (fun _ => Place.OpenIn s.resets) s.tokens ∧
      ∀ l s', Bounded s l → step s l = some s' →
        (∀ token, releaseOf s l = some token → token.epoch ≠ s.resets → s'.slot = s.slot) ∧
          (∀ token, releaseOf s l = some token → s'.slot = s.slot ∨
            (countOf s'.slot).toNat + 1 = (countOf s.slot).toNat) ∧
          generationOf s'.slot = generationOf s.slot + BitVec.ofNat 8 (s'.resets - s.resets) := by
  have hinv : Inv gen₀ s := runs_inv_of_ok (fun _ _ _ h hok hs => (h.step hk hok hs).2) hok hrun
    (fresh_inv hk gen₀)
  refine ⟨hinv.count, fun l s' hbounded hs => ?_⟩
  cases (hinv.step hk hbounded hs).1 with
  | keep hslot hresets =>
    refine ⟨fun _ _ _ => hslot, fun _ _ => .inl hslot, ?_⟩
    rw [hslot, hresets, Nat.sub_self]
    exact (BitVec.add_zero _).symm
  | acquire hnone hgen hcount hresets =>
    rw [hnone]
    refine ⟨nofun, nofun, ?_⟩
    rw [hgen, hresets, Nat.sub_self]
    exact (BitVec.add_zero _).symm
  | release token hsome hepoch hgen hcount hresets =>
    rw [hsome]
    refine ⟨?_, fun _ _ => .inr hcount, ?_⟩
    · rintro _ ⟨⟩ hne
      exact absurd hepoch hne
    · rw [hgen, hresets, Nat.sub_self]
      exact (BitVec.add_zero _).symm
  | reset hnone hgen hcount hresets =>
    rw [hnone]
    refine ⟨nofun, nofun, ?_⟩
    rw [hgen, hresets, Nat.add_sub_cancel_left]
    rfl

def lateRelease : List (Nat × Act Nat) :=
  [(0, .acquire 0), (1, .acquire 1), (0, .cas false), (1, .cas false), (1, .cas false),
    (2, .forceReset), (2, .cas false), (0, .acquire 2), (0, .cas false), (1, .release 0)]

theorem borrow_counting_late :
    ∃ s, runs step (.fresh Nat Nat 8 255) lateRelease = some s ∧ s.resets = 1 ∧
      headcount (fun _ => Place.OpenIn s.resets) s.tokens = 1 := by
  obtain ⟨s, hrun, hresets, hcount⟩ : ∃ s, runs step (.fresh Nat Nat 8 255) lateRelease = some s ∧
      s.resets = 1 ∧ (countOf s.slot).toNat = 1 := by decide +kernel
  have hok : StepsOk step Bounded (.fresh Nat Nat 8 255) lateRelease :=
    @stepsOk_of_sound _ _ _ _ _ _ (fun s l => !saturated s.slot &&
        (releaseOf s l).all fun token => s.resets < token.epoch + 256)
      (fun s l h => by
        simp only [Bool.and_eq_true, Bool.not_eq_true', Option.all_eq_true, decide_eq_true_eq] at h
        exact h) (by decide +kernel)
  have hresult := (borrow_counting (by decide) hrun hok).1
  rw [hcount] at hresult
  exact ⟨s, hrun, hresets, hresult.symm⟩

end CycloneCache.Ref.BorrowWord

import CycloneCache.Ref.Routing
import Mathlib.Data.Nat.ChineseRemainder

namespace CycloneCache.Ref

open Volume (VolumeConfig computeStripeGeometry)

theorem mod_gcd_agree {h V S : Nat} : h % V ≡ h % S [MOD Nat.gcd V S] := by
  have hV : h % V ≡ h [MOD Nat.gcd V S] := (Nat.mod_modEq h V).of_dvd (Nat.gcd_dvd_left V S)
  have hS : h % S ≡ h [MOD Nat.gcd V S] := (Nat.mod_modEq h S).of_dvd (Nat.gcd_dvd_right V S)
  exact hV.trans hS.symm

theorem coprime_of_residues {V S v : Nat} (hS : 0 < S)
    (hall : ∀ s < S, ∃ h, h % V = v ∧ h % S = s) : Nat.Coprime V S := by
  by_contra hg
  have hpos : 0 < Nat.gcd V S := Nat.gcd_pos_of_pos_right V hS
  have htwo : 2 ≤ Nat.gcd V S := by
    have : Nat.gcd V S ≠ 1 := hg
    omega
  have hle : Nat.gcd V S ≤ S := Nat.gcd_le_right V hS
  -- the stripes 0 and 1 would have to agree with the volume
  obtain ⟨a, hav, ha⟩ := hall 0 hS
  obtain ⟨b, hbv, hb⟩ := hall 1 (by omega)
  have h0 : v ≡ 0 [MOD Nat.gcd V S] := by
    have := mod_gcd_agree (h := a) (V := V) (S := S)
    rwa [hav, ha] at this
  have h1 : v ≡ 1 [MOD Nat.gcd V S] := by
    have := mod_gcd_agree (h := b) (V := V) (S := S)
    rwa [hbv, hb] at this
  have h01 : 0 % Nat.gcd V S = 1 % Nat.gcd V S := h0.symm.trans h1
  rw [Nat.zero_mod, Nat.mod_eq_of_lt htwo] at h01
  exact absurd h01 (by decide)

theorem le_of_residues {V S v h : Nat} (hcop : Nat.Coprime V S) (hv : v < V) (hS : 0 < S)
    (hmodV : h % V = v) (hmodS : h % S = (v + V * (S - 1)) % S) : v + V * (S - 1) ≤ h := by
  have hV : h ≡ v + V * (S - 1) [MOD V] := by
    rw [Nat.ModEq, Nat.add_mul_mod_self_left, hmodV, Nat.mod_eq_of_lt hv]
  have hcong : h ≡ v + V * (S - 1) [MOD V * S] :=
    (Nat.modEq_and_modEq_iff_modEq_mul hcop).mp ⟨hV, hmodS⟩
  have hlt : v + V * (S - 1) < V * S := by
    obtain ⟨n, rfl⟩ := Nat.exists_eq_add_of_lt hS
    simp only [Nat.zero_add, Nat.add_sub_cancel, Nat.mul_succ]
    omega
  calc v + V * (S - 1) = (v + V * (S - 1)) % (V * S) := (Nat.mod_eq_of_lt hlt).symm
    _ = h % (V * S) := hcong.symm
    _ ≤ h := Nat.mod_le _ _

theorem residues_covered_iff {V S v bound : Nat} (hS : 0 < S) (hv : v < V) :
    (∀ s < S, ∃ h < bound, h % V = v ∧ h % S = s) ↔ Nat.Coprime V S ∧ v + V * (S - 1) < bound := by
  constructor
  · intro hall
    have hcop : Nat.Coprime V S := coprime_of_residues hS fun s hs =>
      (hall s hs).imp fun h hh => hh.2
    obtain ⟨h, hlt, hmodV, hmodS⟩ := hall ((v + V * (S - 1)) % S) (Nat.mod_lt _ hS)
    exact ⟨hcop, lt_of_le_of_lt (le_of_residues hcop hv hS hmodV hmodS) hlt⟩
  · rintro ⟨hcop, hbound⟩ s hs
    have hne : V ≠ 0 := by omega
    let k := Nat.chineseRemainder hcop v s
    have hk : (k : Nat) < V * S := Nat.chineseRemainder_lt_mul hcop v s hne (by omega)
    have hmodV : (k : Nat) % V = v % V := k.2.1
    have hmodS : (k : Nat) % S = s % S := k.2.2
    rw [Nat.mod_eq_of_lt hv] at hmodV
    rw [Nat.mod_eq_of_lt hs] at hmodS
    have hquot : (k : Nat) / V ≤ S - 1 := by
      have := Nat.div_lt_of_lt_mul hk
      omega
    have hsplit : V * ((k : Nat) / V) + (k : Nat) % V = k := Nat.div_add_mod _ _
    have hle : V * ((k : Nat) / V) ≤ V * (S - 1) := Nat.mul_le_mul_left V hquot
    exact ⟨k, by omega, hmodV, hmodS⟩

theorem CacheKey.segmentHash_lt (key : CacheKey) : key.segmentHash < 2 ^ 32 :=
  Nat.mod_lt _ (by decide)

theorem CacheKey.exists_segmentHash {h : Nat} (hlt : h < 2 ^ 32) :
    ∃ key : CacheKey, key.segmentHash = h := by
  refine ⟨BitVec.ofNat 256 h, ?_⟩
  have hwide : h < 2 ^ 256 := Nat.lt_trans hlt (by decide)
  rw [CacheKey.segmentHash, BitVec.toNat_ofNat, Nat.mod_eq_of_lt hwide, Nat.mod_eq_of_lt hlt]

theorem numStripes_pos (cfg : VolumeConfig) : 0 < numStripes cfg := by
  unfold numStripes computeStripeGeometry
  simp only []
  split
  · split
    · exact Nat.one_pos
    · simp only [Volume.kAutoStripeTarget]
      omega
  · split
    · exact Nat.one_pos
    · next h => exact Nat.pos_of_ne_zero h

theorem CacheVolumes.usable_default_iff {vols : CacheVolumes} {v s : Nat}
    (hv : v < vols.defaultVolumes.length) :
    vols.Usable (.ofDefault v) s ↔ ∃ h < 2 ^ 32, h % vols.defaultVolumes.length = v ∧
        h % numStripes vols.defaultVolumes[v] = s := by
  have hne : vols.defaultVolumes ≠ [] := List.ne_nil_of_length_pos (by omega)
  have hstripes : numStripes vols.defaultVolumes[v] ≠ 0 := Nat.ne_of_gt (numStripes_pos _)
  constructor
  · rintro ⟨key, tier, hroute⟩
    refine ⟨key.segmentHash, key.segmentHash_lt, ?_⟩
    unfold route selectVolume at hroute
    split at hroute
    · cases hroute
    · next v' hv' =>
      split at hroute
      · cases hroute
      · next cfg hcfg =>
        obtain ⟨s', hs', hpair⟩ := Option.map_eq_some_iff.mp hroute
        obtain ⟨rfl, rfl⟩ := Prod.mk.inj hpair
        rw [if_neg hne] at hv'
        split at hv'
        · cases hv'
        · injection Option.some.inj hv' with hidx
          have hcfg' : vols.defaultVolumes[v] = cfg :=
            Option.some.inj ((List.getElem?_eq_getElem hv).symm.trans hcfg)
          rw [selectStripe, if_neg (hcfg' ▸ hstripes)] at hs'
          exact ⟨hidx, hcfg' ▸ Option.some.inj hs'⟩
  · rintro ⟨h, hlt, hmodV, hmodS⟩
    obtain ⟨key, rfl⟩ := CacheKey.exists_segmentHash hlt
    refine ⟨key, .kDefault, ?_⟩
    simp only [route, selectVolume, config, selectStripe, hmodV, hne, if_false,
      reduceCtorEq, false_and, List.getElem?_eq_getElem hv, hstripes, Option.map_some, hmodS]

/-- Every stripe of every default volume has keys, exactly when the number of
default volumes shares no factor with a volume's number of stripes and the
hashes of the volume's last stripe are 32-bit values. -/
theorem stripes_usable_iff (vols : CacheVolumes) :
    (∀ (v : Nat) (hv : v < vols.defaultVolumes.length),
        ∀ s < numStripes vols.defaultVolumes[v], vols.Usable (.ofDefault v) s) ↔
      ∀ (v : Nat) (hv : v < vols.defaultVolumes.length),
        Nat.Coprime vols.defaultVolumes.length (numStripes vols.defaultVolumes[v]) ∧
          v + vols.defaultVolumes.length * (numStripes vols.defaultVolumes[v] - 1) < 2 ^ 32 := by
  refine forall_congr' fun v => forall_congr' fun hv => ?_
  rw [← residues_covered_iff (numStripes_pos _) hv]
  exact forall_congr' fun s => forall_congr' fun _ => CacheVolumes.usable_default_iff hv

def twoVolumes : CacheVolumes where
  defaultVolumes := [⟨67108928, 0, false, true⟩, ⟨67108928, 0, false, true⟩]
  smallVolume := none

/-- Stripe 1 of the first of two volumes gets no key: its hashes would be
even and odd. -/
theorem stripe_never_used : Volume.stripeGeometryFits ⟨67108928, 0, false, true⟩ = true ∧
      1 < numStripes ⟨67108928, 0, false, true⟩ ∧
      ¬ twoVolumes.Usable (.ofDefault 0) 1 := by
  refine ⟨by decide +kernel, by decide +kernel, ?_⟩
  have hv : 0 < twoVolumes.defaultVolumes.length := by decide
  rw [CacheVolumes.usable_default_iff hv]
  rintro ⟨h, -, heven, hodd⟩
  have hnum : numStripes ⟨67108928, 0, false, true⟩ = 2 := by decide +kernel
  change h % 2 = 0 at heven
  change h % numStripes ⟨67108928, 0, false, true⟩ = 1 at hodd
  rw [hnum] at hodd
  omega

end CycloneCache.Ref

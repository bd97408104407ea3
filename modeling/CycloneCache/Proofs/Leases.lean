import CycloneCache.Ref.LeaseEpisodes

namespace CycloneCache.Ref

open Lib Function

theorem publishedDeadline_pos {ns : Nat} (h : ns ≠ 0) : publishedDeadline ns ≠ 0 := by
  unfold publishedDeadline
  rw [if_neg h]
  simp only []
  split
  · exact Nat.one_ne_zero
  · next hms => exact hms

theorem publishedDeadline_le {ns : Nat} (h : 1000000 ≤ ns) :
    publishedDeadline ns ≤ ns / 1000000 := by
  unfold publishedDeadline
  rw [if_neg (by omega)]
  simp only []
  split
  · omega
  · exact Nat.mod_le _ _

def opensEpisode (cfg : LeaseConfig) (s : EpisodeState) (p : Nat) (episode : Bool)
    (expiry borrows : Nat) : Bool :=
  gateProtects cfg s.now expiry borrows && episode && s.since p == 0

def OpensAlone (cfg : Nat → LeaseConfig) (s : EpisodeState) : EpisodeAct → Prop
  | .gate p episode expiry borrows =>
    opensEpisode (cfg p) s p episode expiry borrows = true →
      (∀ q, q ≠ p → s.since q = 0) ∧ 1000000 ≤ s.now + (cfg p).ceiling
  | _ => True

structure EpisodeInv (ceiling : Nat) (s : EpisodeState) : Prop where
  one : ∀ p q, s.since p ≠ 0 → s.since q ≠ 0 → p = q
  covers : ∀ p, s.since p ≠ 0 → s.deadlineMs ≠ 0 ∧ s.deadlineMs ≤ (s.since p + ceiling) / 1000000

variable {ceiling p expiry : Nat} {s : EpisodeState} {cfg : LeaseConfig}

theorem EpisodeInv.close (hi : EpisodeInv ceiling s) (hp : s.since p ≠ 0) :
    EpisodeInv ceiling ((s.setSince p 0).publishWrapDeferredDeadline 0) := by
  -- the episode that ends was the only one
  have hnone : ∀ q, (s.setSince p 0).since q = 0 := by
    intro q
    by_cases hq : q = p
    · subst hq
      exact update_self ..
    · simp only [EpisodeState.setSince, update_of_ne hq]
      by_contra hne
      exact hq (hi.one q p hne hp)
  exact ⟨fun q _ hq => absurd (hnone q) hq, fun q hq => absurd (hnone q) hq⟩

theorem EpisodeInv.endDeferralEpisode (hi : EpisodeInv ceiling s) (p : Nat) :
    EpisodeInv ceiling (s.endDeferralEpisode p) := by
  unfold EpisodeState.endDeferralEpisode
  split
  · exact hi
  · next hp => exact hi.close hp

theorem EpisodeInv.open (halone : ∀ q, q ≠ p → s.since q = 0) (hms : 1000000 ≤ s.now + ceiling) :
    EpisodeInv ceiling ((s.setSince p s.now).publishWrapDeferredDeadline (s.now + ceiling)) := by
  have hone : ∀ q, (s.setSince p s.now).since q ≠ 0 → q = p := by
    intro q hq
    by_contra hne
    simp only [EpisodeState.setSince, update_of_ne hne] at hq
    exact hq (halone q hne)
  refine ⟨fun q r hq hr => (hone q hq).trans (hone r hr).symm, fun q hq => ?_⟩
  obtain rfl := hone q hq
  simp only [EpisodeState.publishWrapDeferredDeadline, EpisodeState.setSince, update_self]
  exact ⟨publishedDeadline_pos (by omega), publishedDeadline_le hms⟩

theorem EpisodeInv.leaseGate {episode : Bool} {borrows : Nat} (hi : EpisodeInv ceiling s)
    (hceiling : cfg.ceiling = ceiling)
    (halone : opensEpisode cfg s p episode expiry borrows = true →
      (∀ q, q ≠ p → s.since q = 0) ∧ 1000000 ≤ s.now + cfg.ceiling) :
    EpisodeInv ceiling (s.leaseGate cfg p episode expiry borrows).1 := by
  subst hceiling
  unfold EpisodeState.leaseGate
  split
  · exact hi.endDeferralEpisode p
  next hprotects =>
  split
  · exact hi
  next hepisode =>
  split
  · next hforce => exact hi.close hforce.1
  split
  · next hclosed =>
    have hopens : opensEpisode cfg s p episode expiry borrows = true := by
      simp only [Bool.not_eq_true', Bool.not_eq_false] at hprotects hepisode
      simp [opensEpisode, hprotects, hepisode, hclosed]
    obtain ⟨halone, hms⟩ := halone hopens
    exact EpisodeInv.open halone hms
  · exact hi

theorem episodeInv_step {cfg : Nat → LeaseConfig} (hceiling : ∀ p, (cfg p).ceiling = ceiling)
    {s' : EpisodeState} {l : EpisodeAct} (hi : EpisodeInv ceiling s) (hok : OpensAlone cfg s l)
    (hs : episodeStep cfg s l = some s') : EpisodeInv ceiling s' := by
  cases l with cases hs
  | tick d =>
    exact ⟨hi.one, hi.covers⟩
  | gate p episode expiry borrows =>
    exact hi.leaseGate (hceiling p) hok
  | granted p =>
    exact hi.endDeferralEpisode p

theorem leaseGate_forced {episode : Bool} {borrows : Nat}
    (h : (s.leaseGate cfg p episode expiry borrows).2 = .forced) :
    s.since p ≠ 0 ∧ s.since p + cfg.ceiling < s.now := by
  unfold EpisodeState.leaseGate at h
  split at h
  · cases h
  split at h
  · cases h
  split at h
  · next hforce => exact ⟨hforce.1, by omega⟩
  split at h <;> cases h

def defaultLease : LeaseConfig where
  leaseT := 5000000000
  ceiling := 60000000000
  shards := 1
  fillTail := false
  lease_pos := by decide

def overlappingEpisodes : List EpisodeAct :=
  [.tick 1000000000, .gate 0 true 2000000000 1, .tick 1000000000, .gate 1 true 3000000000 1]

def stampAll (expiry : Nat) (stamps : List (LeaseConfig × Nat)) : Nat :=
  stamps.foldl (fun e stamp => stampReadLease stamp.1 e stamp.2) expiry

theorem leaseActive_iff {now : Nat} : leaseActive cfg expiry now = true ↔
      now < expiry ∧ expiry ≤ now + cfg.leaseT + cfg.ceiling := by
  simp only [leaseActive, Bool.and_eq_true, decide_eq_true_eq, ne_eq]
  omega

theorem stampAll_within {bound t now : Nat} {stamps : List (LeaseConfig × Nat)}
    (hstamps : ∀ stamp ∈ stamps, stamp.2 ≤ now ∧ stamp.1.leaseT ≤ bound) :
    ∀ {expiry : Nat}, t ≤ expiry → expiry ≤ now + bound →
      t ≤ stampAll expiry stamps ∧ stampAll expiry stamps ≤ now + bound := by
  induction stamps with
  | nil => exact fun hlo hhi => ⟨hlo, hhi⟩
  | cons stamp stamps ih =>
    intro expiry hlo hhi
    obtain ⟨hnow, hterm⟩ := hstamps stamp List.mem_cons_self
    have hrest := fun st hst => hstamps st (List.mem_cons_of_mem _ hst)
    apply ih hrest
    · simp only [stampReadLease]
      split <;> omega
    · simp only [stampReadLease]
      split <;> omega

def longLease : LeaseConfig where
  leaseT := 70000000000
  ceiling := 60000000000
  shards := 1
  fillTail := false
  lease_pos := by decide

def publishedMs (deadlineNs : Nat) : Nat :=
  if deadlineNs / 1000000 % 4294967296 = 0 then deadlineNs / 1000000 + 1 else deadlineNs / 1000000

theorem publishedDeadline_eq {deadline : Nat} (h : deadline ≠ 0) :
    publishedDeadline deadline = publishedMs deadline % 4294967296 := by
  unfold publishedDeadline publishedMs
  rw [if_neg h]
  simp only []
  split <;> omega

def CountdownSafe (ceiling deadline now : Nat) : Prop :=
  deadline ≠ 0 ∧ (publishedMs deadline ≤ now / 1000000 ∨
    4294967296 ≤ publishedMs deadline - now / 1000000 ∨
    ceiling / 1000000 < publishedMs deadline - now / 1000000 ∨
    (publishedMs deadline = deadline / 1000000 ∧ now % 1000000 ≤ deadline % 1000000))

theorem wrapped_sub {k n : Nat} (h : n ≤ k) :
    (k % 4294967296 + (4294967296 - n % 4294967296)) % 4294967296 = (k - n) % 4294967296 := by
  omega

theorem wrapped_sub_of_lt {k n : Nat} (h : k < n) (hclose : n - k < 4294967296) :
    (k % 4294967296 + (4294967296 - n % 4294967296)) % 4294967296 = 4294967296 - (n - k) := by
  omega

theorem publishedMs_bounds (deadline : Nat) :
    deadline / 1000000 ≤ publishedMs deadline ∧ publishedMs deadline ≤ deadline / 1000000 + 1 := by
  unfold publishedMs
  split <;> omega

/-- Both sides cut nanoseconds to milliseconds, so the countdown can promise
up to a millisecond that is not there, and one more where the deadline was
moved off the sentinel. It is right exactly when neither shows. -/
theorem forced_wrap_countdown_iff {cfg : LeaseConfig} {since now : Nat}
    (hword : since + cfg.ceiling < 2 ^ 64) (hle : since ≤ now)
    (hsoon : now - since < 2 ^ 31 * 1000000) :
    nsUntilForcedWrap cfg true (publishedDeadline ((since + cfg.ceiling) % 2 ^ 64)) now ≤
        since + cfg.ceiling - now ↔
      CountdownSafe cfg.ceiling (since + cfg.ceiling) now := by
  rw [Nat.mod_eq_of_lt hword]
  unfold nsUntilForcedWrap CountdownSafe
  generalize hD : since + cfg.ceiling = deadline
  by_cases hzero : deadline = 0
  · rw [hzero]
    simp [publishedDeadline]
  · have hbounds := publishedMs_bounds deadline
    simp only [Bool.not_true, Bool.false_eq_true, if_false]
    rw [if_neg (publishedDeadline_pos hzero), publishedDeadline_eq hzero]
    generalize publishedMs deadline = k at *
    have hC : cfg.ceiling = deadline - since := by omega
    rw [hC]
    rcases Nat.lt_or_ge k (now / 1000000) with hlt | hge
    · -- past the deadline: the difference is beyond the ceiling
      rw [wrapped_sub_of_lt hlt (by omega), if_pos (by omega)]
      constructor
      · intro _
        exact ⟨hzero, .inl (by omega)⟩
      · intro _
        exact Nat.zero_le _
    · rw [wrapped_sub hge]
      rcases Nat.lt_or_ge (k - now / 1000000) 4294967296 with hnear | hfar
      · rw [Nat.mod_eq_of_lt hnear]
        split
        · next hover =>
          exact ⟨fun _ => ⟨hzero, .inr (.inr (.inl hover))⟩, fun _ => Nat.zero_le _⟩
        · next hover =>
          constructor
          · intro hcount
            refine ⟨hzero, ?_⟩
            omega
          · rintro ⟨-, hcond⟩
            omega
      · -- so far ahead that the count went round: what is left of it is too small
        constructor
        · intro _
          exact ⟨hzero, .inr (.inl hfar)⟩
        · intro _
          split
          · exact Nat.zero_le _
          · omega
theorem forced_wrap_countdown_at_once : nsUntilForcedWrap defaultLease true
        (publishedDeadline ((1000000 + defaultLease.ceiling) % 2 ^ 64)) 1000000 ≤
      1000000 + defaultLease.ceiling - 1000000 := by
  have hsafe : CountdownSafe defaultLease.ceiling (1000000 + defaultLease.ceiling) 1000000 := by
    unfold CountdownSafe
    decide
  exact (@forced_wrap_countdown_iff defaultLease 1000000 1000000 (by decide) (by decide)
    (by decide)).mpr hsafe

/-- One nanosecond before the deadline the countdown still promises a
millisecond. -/
theorem forced_wrap_countdown_late :
    1000000 ≤ 60000999999 ∧ 60000999999 - 1000000 < 2 ^ 31 * 1000000 ∧
      ¬ nsUntilForcedWrap defaultLease true
          (publishedDeadline ((1000000 + defaultLease.ceiling) % 2 ^ 64)) 60000999999 ≤
        1000000 + defaultLease.ceiling - 60000999999 := by
  decide

end CycloneCache.Ref

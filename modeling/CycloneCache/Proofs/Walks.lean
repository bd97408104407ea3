import CycloneCache.Ref.Walks
import CycloneCache.Proofs.StripeGeometry

namespace CycloneCache.Ref

open Lib

structure InRegion (st : Stripe) (snap : StripeSnapshot) (cls : AdmitClass) (o : Nat) : Prop where
  inArea : st.inDataArea o = true
  behind : cls = .kCurrent → o < snap.cursorRel
  ahead : cls = .kRetained → snap.frontierRel ≤ o

theorem admitPosition_inRegion {st : Stripe} {o : Nat} {phase : Bool} {snap : StripeSnapshot}
    (hne : st.admitPosition o phase snap ≠ .kReject) :
    InRegion st snap (st.admitPosition o phase snap) o := by
  cases h : st.admitPosition o phase snap with
  | kReject => exact absurd h hne
  | kCurrent =>
    obtain ⟨harea, -, hlt⟩ := Stripe.admitPosition_kCurrent.mp h
    exact ⟨harea, fun _ => hlt, (nomatch ·)⟩
  | kRetained =>
    obtain ⟨harea, -, -, -, hfront⟩ := Stripe.admitPosition_kRetained.mp h
    exact ⟨harea, (nomatch ·), fun _ => hfront⟩

theorem admitHop_inRegion {st : Stripe} {target source : Nat} {cls : AdmitClass}
    {snap : StripeSnapshot} (hne : st.admitHop target source cls snap ≠ .kReject) :
    st.admitHop target source cls snap = cls ∧ target < source ∧ InRegion st snap cls target := by
  cases h : st.admitHop target source cls snap with
  | kReject => exact absurd h hne
  | kCurrent =>
    obtain ⟨-, harea, hlt, rfl, hbehind⟩ := Stripe.admitHop_kCurrent.mp h
    exact ⟨rfl, hlt, harea, fun _ => hbehind, (nomatch ·)⟩
  | kRetained =>
    obtain ⟨-, harea, hlt, rfl, -, hfront⟩ := Stripe.admitHop_kRetained.mp h
    exact ⟨rfl, hlt, harea, (nomatch ·), fun _ => hfront⟩

namespace Volume

structure Confined (st : Stripe) (snap : StripeSnapshot) (cls : AdmitClass)
    (visits : List (Nat × AdmitClass)) : Prop where
  decreasing : visits.Pairwise fun a b => b.1 < a.1
  nodup : (visits.map Prod.fst).Nodup
  inArea : ∀ v ∈ visits, st.inDataArea v.1 = true
  oneClass : ∀ v ∈ visits, v.2 = cls
  bounded : visits.length ≤ kMaxChainTraversalDepth
  ahead : cls = .kRetained → ∀ v ∈ visits, snap.frontierRel ≤ v.1

section

variable {env : Env} {snap : StripeSnapshot} {halt : List Nat → Nat → Bool} {look : Look}

theorem hopWalk_cases (fuel : Nat) (visited : List Nat) (current : Nat) (cls : AdmitClass)
    (followed : Option Nat) :
    env.hopWalk snap halt look (fuel + 1) visited current cls followed = [] ∨
      env.hopWalk snap halt look (fuel + 1) visited current cls followed =
        [(current, cls)] ∨
      ∃ link next, env.stripe.admitHop next current cls snap = cls ∧ next < current ∧
        InRegion env.stripe snap cls next ∧
        env.hopWalk snap halt look (fuel + 1) visited current cls followed = (current, cls) ::
            env.hopWalk snap halt look fuel (visited ++ [current]) next cls (some link) := by
  generalize hwalk : env.hopWalk snap halt look (fuel + 1) visited current cls followed = walk
  rw [Env.hopWalk] at hwalk
  split at hwalk
  · exact .inl hwalk.symm
  · refine .inr ?_
    split at hwalk
    · exact .inl hwalk.symm
    · next link _ =>
      simp only [] at hwalk
      split at hwalk
      · exact .inl hwalk.symm
      · next hgo =>
        obtain ⟨hcls, hlt, hnext⟩ := admitHop_inRegion (not_or.mp hgo).2
        rw [hcls] at hwalk
        exact .inr ⟨link, _, hcls, hlt, hnext, hwalk.symm⟩

variable {cls : AdmitClass} {current fuel : Nat} {followed : Option Nat} {visited : List Nat}

theorem hopWalk_length :
    (env.hopWalk snap halt look fuel visited current cls followed).length ≤ fuel := by
  induction fuel generalizing visited current cls followed with
  | zero => exact Nat.le_refl 0
  | succ fuel ih =>
    rcases hopWalk_cases fuel visited current cls followed with h | h | ⟨_, _, -, -, -, h⟩
    · rw [h]
      exact Nat.zero_le _
    · rw [h]
      exact Nat.succ_le_succ (Nat.zero_le _)
    · rw [h]
      exact Nat.succ_le_succ ih

theorem hopWalk_inRegion (hstart : InRegion env.stripe snap cls current) :
    ∀ v ∈ env.hopWalk snap halt look fuel visited current cls followed,
      v.1 ≤ current ∧ v.2 = cls ∧ InRegion env.stripe snap cls v.1 := by
  induction fuel generalizing visited current followed with
  | zero => exact fun _ hv => absurd hv List.not_mem_nil
  | succ fuel ih =>
    have hfirst : current ≤ current ∧ cls = cls ∧ InRegion env.stripe snap cls current :=
      ⟨le_rfl, rfl, hstart⟩
    rcases hopWalk_cases fuel visited current cls followed with
      h | h | ⟨_, _, -, hlt, hnext, h⟩
    · rw [h]
      exact fun _ hv => absurd hv List.not_mem_nil
    · rw [h]
      exact List.forall_mem_singleton.mpr hfirst
    · rw [h]
      refine List.forall_mem_cons.mpr ⟨hfirst, fun v hv => ?_⟩
      obtain ⟨hle, hv'⟩ := ih hnext v hv
      exact ⟨le_trans hle (Nat.le_of_lt hlt), hv'⟩

theorem hopWalk_decreasing : (env.hopWalk snap halt look fuel visited current cls followed).Pairwise
      fun a b => b.1 < a.1 := by
  induction fuel generalizing visited current followed with
  | zero => exact .nil
  | succ fuel ih =>
    rcases hopWalk_cases fuel visited current cls followed with
      h | h | ⟨_, _, -, hlt, hnext, h⟩
    · rw [h]
      exact .nil
    · rw [h]
      exact List.pairwise_singleton _ _
    · rw [h]
      refine List.pairwise_cons.mpr ⟨fun v hv => ?_, ih⟩
      exact lt_of_le_of_lt (hopWalk_inRegion hnext v hv).1 hlt

theorem hopWalk_confined (hstart : InRegion env.stripe snap cls current) :
    Confined env.stripe snap cls
      (env.hopWalk snap halt look kMaxChainTraversalDepth visited current cls followed) where
  decreasing := hopWalk_decreasing
  nodup := List.pairwise_map.mpr <| hopWalk_decreasing.imp fun hlt heq => by
      rw [heq] at hlt
      exact Nat.lt_irrefl _ hlt
  inArea v hv := (hopWalk_inRegion hstart v hv).2.2.inArea
  oneClass v hv := (hopWalk_inRegion hstart v hv).2.1
  bounded := hopWalk_length
  ahead hret v hv := (hopWalk_inRegion hstart v hv).2.2.ahead hret

end

/-- Whatever the data area holds, every call's walk from an admitted head
goes down through the data area in the head's class, and ends. -/
theorem walk_confined (w : Walker) (env : Env) (m : Memory) (snap : StripeSnapshot)
    (key : CacheKey) (head : Nat) (phase : Bool)
    (hadm : env.stripe.admitPosition head phase snap ≠ .kReject) :
    Confined env.stripe snap (env.stripe.admitPosition head phase snap)
      (w.visits env m snap key head (env.stripe.admitPosition head phase snap)) :=
  hopWalk_confined (admitPosition_inRegion hadm)

def smallVolume : Env where
  stripe := smallStripe true
  fileSize := 1032
  mmapDirectory := false
  lease := ⟨1, 1, 64, false, Nat.one_pos⟩
  verifyChecksumOnRead := false
  unlinkSupersededAlternates := true
  maxObjectSize := 0
  ramCache := false
  persistentBase := true
  ramCoherence := false
  offset_aligned := rfl
  in_file := by decide
  start_pos := by decide

def linkedPair : Memory :=
  let bytes (id : UInt8) (link : Nat) : List UInt8 :=
    (DocumentBuilder.build ⟨5, [], [], id, link, 0⟩).elim [] Document.serialize
  writeAt (writeAt (fun _ => 0) 264 (bytes 0 0)) 520 (bytes 1 264)

theorem walk_confined_pair :
    Walker.commitAlternateWrite.visits smallVolume linkedPair ((smallStripe true).snapshot 3 8)
        5 520 .kRetained = [(520, .kRetained), (264, .kRetained)] ∧
      Confined (smallStripe true) ((smallStripe true).snapshot 3 8) .kRetained
        (Walker.commitAlternateWrite.visits smallVolume linkedPair
          ((smallStripe true).snapshot 3 8) 5 520 .kRetained) :=
  ⟨by decide +kernel,
    walk_confined .commitAlternateWrite smallVolume linkedPair ((smallStripe true).snapshot 3 8)
      5 520 false (by decide)⟩

section

variable {env : Env} {m : Memory} {snap : StripeSnapshot}

theorem walkAlternates_visits {key : CacheKey} {fuel current : Nat} {visited : List Nat}
    {cls : AdmitClass} {followed : Option Nat} :
    ((env.walkAlternates m snap key fuel current cls followed).map fun n => (n.offset, n.cls)) <+:
      env.hopWalk snap (fun _ _ => false) (env.lookReader m snap key) fuel visited current
        cls followed := by
  induction fuel generalizing visited current cls followed with
  | zero => exact List.prefix_refl []
  | succ fuel ih =>
    unfold Env.walkAlternates Env.hopWalk
    simp only [Bool.false_eq_true, if_false, Env.lookReader]
    split
    · exact List.nil_prefix
    · rw [List.map_cons]
      refine List.prefix_cons_inj _ |>.mpr ?_
      simp only []
      split
      · exact List.nil_prefix
      · exact ih

end

end Volume

end CycloneCache.Ref

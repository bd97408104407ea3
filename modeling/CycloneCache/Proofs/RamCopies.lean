import CycloneCache.Proofs.RamWriters

namespace CycloneCache.Ref.Ram

open Lib Function

def Sees (d : Disk) (good : Nat → Nat → Prop) : Pc → Prop
  | .readDisk _ o => d.docs o ≠ none ∧ ∀ i b, d.Holds o i b → good i b
  | .altWalk _ nodes o =>
    d.docs o ≠ none ∧ (∀ n ∈ nodes, good n.id n.body) ∧
      ∀ m i b, Reach (linkOf d.docs) o m → d.Holds m i b → good i b
  | .altSelect _ nodes => ∀ n ∈ nodes, good n.id n.body
  | .altServe _ n _ => good n.id n.body
  | _ => True

section Sees

variable {cfg : Config} {s s' : State} {a : Act} {t : Nat} {pc pc' : Pc} {d d' : Disk}
  {good : Nat → Nat → Prop}

theorem Sees.grows (h : Sees d good pc) (hm : MemOk d) (hg : Grows d d') : Sees d' good pc := by
  cases pc with
  | readDisk f o => exact ⟨hg.docs h.1, fun i b hh => h.2 i b (hg.holds_back h.1 hh)⟩
  | altWalk r nodes o =>
    obtain ⟨ho, hnodes, hahead⟩ := h
    refine ⟨hg.docs ho, hnodes, ?_⟩
    intro m i b hr hh
    have hold := hg.reach ho hr
    exact hahead m i b hold (hg.holds_back (hm.docs_of_reach ho hold) hh)
  | altSelect r nodes | altServe r n stage => exact h
  | _ => trivial

theorem Sees.imp {good' : Nat → Nat → Prop} (h : Sees d good pc)
    (himp : ∀ i b, good i b → good' i b) : Sees d good' pc := by
  cases pc with
  | readDisk f o => exact ⟨h.1, fun i b hh => himp i b (h.2 i b hh)⟩
  | altWalk r nodes o =>
    exact ⟨h.1, fun n hn => himp _ _ (h.2.1 n hn), fun m i b hr hh => himp i b (h.2.2 m i b hr hh)⟩
  | altSelect r nodes => exact fun n hn => himp _ _ (h n hn)
  | altServe r n stage => exact himp _ _ h
  | _ => trivial

theorem seenAt_holds {o : Nat} {x : AltDoc} (hx : d.docs o = some x) :
    d.Holds o (seenAt o x).id (seenAt o x).body := ⟨x, hx, rfl, rfl⟩

theorem Sees.glance (h : Sees s.disk good pc) (hm : MemOk s.disk)
    (hchain : ∀ o i b, s.disk.OnChain o → s.disk.Holds o i b → good i b)
    (hg : Glance cfg s t a pc pc') : Sees s.disk good pc' := by
  cases hg with
  | readHead f o hv he =>
    exact ⟨hm.entry o he, fun i b hh => hchain o i b ⟨o, he, .refl o⟩ hh⟩
  | head r o hv he =>
    exact ⟨hm.entry o he, nofun, fun m i b hr hh => hchain m i b ⟨o, he, hr⟩ hh⟩
  | next r nodes o x hx hn =>
    obtain ⟨-, hnodes, hahead⟩ := h
    have hlink : linkOf s.disk.docs o = some x.nextAlternateOffset := by
      rw [linkOf_eq hx, asLink, if_neg hn]
    refine ⟨hm.closed _ _ hlink, ?_, fun m i b hr hh => hahead m i b (Reach.head hlink hr) hh⟩
    refine List.forall_mem_append.mpr ⟨hnodes, List.forall_mem_singleton.mpr ?_⟩
    exact hahead o _ _ (.refl o) (seenAt_holds hx)
  | last r nodes o x hx =>
    obtain ⟨-, hnodes, hahead⟩ := h
    refine List.forall_mem_append.mpr ⟨hnodes, List.forall_mem_singleton.mpr ?_⟩
    exact hahead o _ _ (.refl o) (seenAt_holds hx)
  | cut a r nodes o => exact h.2.1
  | pick r nodes i n hn => exact h n (List.mem_of_getElem? hn)
  | miss r n hl hram | copy r n c hl hram | stale r n c | loaded r n hu | offer r n he
  | accept r n hv hs | undo r n => exact h
  | _ => trivial

end Sees

def Pc.epoch? : Pc → Option Nat
  | .altVersion _ e => some e
  | .altProbe r => some r.epoch
  | .altWalk r _ _ => some r.epoch
  | .altSelect r _ => some r.epoch
  | .altServe r _ _ => some r.epoch
  | _ => none

inductive Watch where
  | versions
  | rewrites

namespace Watch

def bound : Watch → (Nat → Nat) → Nat → Nat → Nat
  | .versions, f, _ => f
  | .rewrites, _, p => fun _ => p

def target : Watch → Nat → Nat
  | .versions, i => i
  | .rewrites, _ => kOriginal

def floor (w : Watch) (s : State) : Nat → Nat := w.bound s.floor s.rewritten

def mark (w : Watch) (s : State) : Nat → Nat := w.bound s.mark s.rebased

def raised (w : Watch) (out : Outcome) (s : State) : Nat → Nat :=
  w.bound (out.bound s.mark) (out.rewritten.getD s.rebased)

end Watch

def Aged (w : Watch) (s : State) (pc : Pc) : Prop :=
  ∀ e, pc.epoch? = some e → e ≤ s.disk.removeEpoch ∧
    (e = s.disk.removeEpoch → Sees s.disk (fun i b => w.mark s i ≤ b) pc)

def Pc.evicts (pc : Pc) (i : Nat) : Prop :=
  ∃ todo out target, pc = .storing todo out ∧ .evict target ∈ todo ∧ covers target i = true

def Pending (s : State) (i : Nat) : Prop := ∃ t, (s.pcs t).evicts i

def Safe (w : Watch) (s : State) (i b : Nat) : Prop :=
  w.floor s i ≤ b ∧ (w.mark s i ≤ b ∨ Pending s (w.target i))

def Pc.offers (pc : Pc) (n : Seen) : Prop :=
  ∃ r, pc = .altServe r n .pred ∨ pc = .altServe r n .insert

structure Guarded (w : Watch) (s : State) : Prop where
  floor : ∀ i, w.floor s i ≤ w.mark s i
  mark : ∀ i, w.mark s i ≤ s.disk.bodies
  chain : ∀ o i b, s.disk.OnChain o → s.disk.Holds o i b → w.mark s i ≤ b
  readers : ∀ t, Aged w s (s.pcs t)
  rises : ∀ t todo out, s.pcs t = .storing todo out → ∀ i, w.mark s i ≤ w.raised out s i
  promised : ∀ t todo out, s.pcs t = .storing todo out →
    .bumpEpoch ∈ todo ∨ ∀ i, w.raised out s i ≤ w.mark s i
  copies : ∀ i c, s.ram i = some c → w.target i = i → Safe w s i c.body
  offers : ∀ t n, (s.pcs t).offers n → s.ramLock = some t ∧ Safe w s n.id n.body

structure SameBounds (s s' : State) : Prop where
  mark : s'.mark = s.mark
  floor : s'.floor = s.floor
  rebased : s'.rebased = s.rebased
  rewritten : s'.rewritten = s.rewritten

section

variable {cfg : Config} {s s' : State} {a : Act} {t : Nat} {pc pc' : Pc} {w : Watch}

theorem SameBounds.floor_eq (h : SameBounds s s') : w.floor s' = w.floor s := by
  rw [Watch.floor, Watch.floor, h.floor, h.rewritten]

theorem SameBounds.mark_eq (h : SameBounds s s') : w.mark s' = w.mark s := by
  rw [Watch.mark, Watch.mark, h.mark, h.rebased]

theorem SameBounds.raised_eq (h : SameBounds s s') (out : Outcome) :
    w.raised out s' = w.raised out s := by
  rw [Watch.raised, Watch.raised, h.mark, h.rebased]

theorem Aged.frame (h : Aged w s pc) (hm : MemOk s.disk) (hg : Grows s.disk s'.disk)
    (hmark : s'.disk.removeEpoch = s.disk.removeEpoch → w.mark s' = w.mark s) : Aged w s' pc := by
  intro e he
  obtain ⟨hle, hsees⟩ := h e he
  refine ⟨le_trans hle hg.epoch, ?_⟩
  intro heq
  have := hg.epoch
  have hsame : e = s.disk.removeEpoch := by omega
  rw [hmark (by omega)]
  exact (hsees hsame).grows hm hg

theorem Glance.epoch? (h : Glance cfg s t a pc pc') {e : Nat} (he : pc'.epoch? = some e) :
    pc.epoch? = some e ∨ ∃ f, pc' = .altVersion f s.disk.removeEpoch := by
  cases h with
  | fail a pc h => cases he
  | epoch f => exact .inr ⟨f, rfl⟩
  | version f e' | head r o hv hentry | next r nodes o x hx hn | last r nodes o x hx
  | cut a r nodes o | pick r nodes i n hn | miss r n hl hram | copy r n c hl hram | stale r n c
  | loaded r n hu | offer r n he' | accept r n hv hs | undo r n =>
    exact .inl he
  | _ => cases he

theorem Aged.glance (h : Aged w s pc) (hm : MemOk s.disk)
    (hchain : ∀ o i b, s.disk.OnChain o → s.disk.Holds o i b → w.mark s i ≤ b)
    (hg : Glance cfg s t a pc pc') : Aged w s pc' := by
  intro e he
  rcases hg.epoch? he with hold | ⟨f, rfl⟩
  · obtain ⟨hle, hsees⟩ := h e hold
    exact ⟨hle, fun heq => (hsees heq).glance hm hchain hg⟩
  · exact ⟨(Option.some.inj he).ge, fun _ => trivial⟩

theorem aged_of_no_epoch (h : pc.epoch? = none) : Aged w s pc := by
  intro e he
  rw [h] at he
  cases he

theorem Raise.le_apply (r : Raise) (bound : Nat → Nat) (i : Nat) : bound i ≤ r.apply bound i := by
  unfold Raise.apply
  split
  · exact Nat.le_max_left _ _
  · exact le_rfl

theorem Outcome.le_bound (out : Outcome) (bound : Nat → Nat) (i : Nat) :
    bound i ≤ out.bound bound i := by
  unfold Outcome.bound
  cases out.raise with
  | none => exact le_rfl
  | some r => exact r.le_apply bound i

theorem Outcome.bound_cases (out : Outcome) (bound : Nat → Nat) (i : Nat) :
    out.bound bound i = bound i ∨ ∃ r, out.raise = some r ∧ covers r.target i = true ∧
      out.bound bound i = max (bound i) r.least := by
  unfold Outcome.bound
  cases hr : out.raise with
  | none => exact .inl rfl
  | some r =>
    simp only [Option.elim, Raise.apply]
    split
    · next hc => exact .inr ⟨r, rfl, hc, rfl⟩
    · exact .inl rfl

variable {i : Nat} {out : Outcome} {n : Seen} {d : Disk} {p : Program} {st : Store}
  {todo : List Store}

theorem Outcome.least_le_bound {r : Raise} (hr : out.raise = some r) {bound : Nat → Nat}
    (hc : covers r.target i = true) : r.least ≤ out.bound bound i := by
  rw [Outcome.bound, hr]
  simp only [Option.elim, Raise.apply]
  rw [if_pos hc]
  exact Nat.le_max_right _ _

theorem Outcome.bound_mono (out : Outcome) {f g : Nat → Nat} (h : ∀ i, f i ≤ g i) (i : Nat) :
    out.bound f i ≤ out.bound g i := by
  unfold Outcome.bound
  cases out.raise with
  | none => exact h i
  | some r =>
    simp only [Option.elim, Raise.apply]
    have := h i
    split <;> omega

theorem Outcome.bound_idem (out : Outcome) (bound : Nat → Nat) (i : Nat) :
    out.bound (out.bound bound) i ≤ out.bound bound i := by
  unfold Outcome.bound
  cases out.raise with
  | none => exact le_rfl
  | some r =>
    simp only [Option.elim, Raise.apply]
    split <;> omega

theorem Pending.update (h : Pending s i) (hpcs : s'.pcs = update s.pcs t pc')
    (hkeep : (s.pcs t).evicts i → pc'.evicts i) : Pending s' i := by
  obtain ⟨u, hu⟩ := h
  refine ⟨u, ?_⟩
  rw [hpcs]
  by_cases hut : u = t
  · rw [hut, update_self]
    exact hkeep (hut ▸ hu)
  · rw [update_of_ne hut]
    exact hu

theorem Safe.update {b : Nat} (h : Safe w s i b) (hb : SameBounds s s')
    (hpcs : s'.pcs = update s.pcs t pc')
    (hkeep : (s.pcs t).evicts (w.target i) → pc'.evicts (w.target i)) : Safe w s' i b := by
  unfold Safe
  rw [hb.floor_eq, hb.mark_eq]
  exact ⟨h.1, h.2.imp_right fun hp => hp.update hpcs hkeep⟩

theorem not_evicts (h : pc.isStoring = false) : ¬ pc.evicts i := by
  rintro ⟨todo, out, target, rfl, -⟩
  cases h

theorem Guarded.quiet (hg : Guarded w s) (hdisk : s'.disk = s.disk) (hb : SameBounds s s')
    (hpcs : s'.pcs = update s.pcs t pc')
    (hkeep : ∀ i, (s.pcs t).evicts i → pc'.evicts i) (hread : Aged w s pc')
    (hstore : ∀ todo out, pc' = .storing todo out → (∀ i, w.mark s i ≤ w.raised out s i) ∧
      (.bumpEpoch ∈ todo ∨ ∀ i, w.raised out s i ≤ w.mark s i))
    (hcopies : ∀ i c, s'.ram i = some c → w.target i = i → Safe w s i c.body)
    (hoffer : ∀ n, pc'.offers n → s'.ramLock = some t ∧ Safe w s n.id n.body)
    (hlock : ∀ u, u ≠ t → s.ramLock = some u → s'.ramLock = some u) : Guarded w s' := by
  have hsafe : ∀ {i b}, Safe w s i b → Safe w s' i b := fun h => h.update hb hpcs (hkeep _)
  have haged : ∀ {pc : Pc}, Aged w s pc → Aged w s' pc := by
    intro pc h
    unfold Aged
    rw [hdisk, hb.mark_eq]
    exact h
  constructor
  · rw [hb.floor_eq, hb.mark_eq]
    exact hg.floor
  · rw [hb.mark_eq, hdisk]
    exact hg.mark
  · rw [hb.mark_eq, hdisk]
    exact hg.chain
  · intro u
    rcases moved_cases (j := u) rfl hpcs with ⟨-, hpc⟩ | ⟨-, hpc⟩
    · rw [← hpc]
      exact haged hread
    · rw [← hpc]
      exact haged (hg.readers u)
  · intro u todo out hu
    rw [hb.mark_eq, hb.raised_eq]
    rcases moved_cases hu hpcs with ⟨-, hpc⟩ | ⟨-, hpc⟩
    · exact (hstore todo out hpc).1
    · exact hg.rises u todo out hpc
  · intro u todo out hu
    rw [hb.mark_eq, hb.raised_eq]
    rcases moved_cases hu hpcs with ⟨-, hpc⟩ | ⟨-, hpc⟩
    · exact (hstore todo out hpc).2
    · exact hg.promised u todo out hpc
  · exact fun i c hc hi => hsafe (hcopies i c hc hi)
  · intro u n hu
    rcases moved_cases (j := u) rfl hpcs with ⟨rfl, hpc⟩ | ⟨hut, hpc⟩
    · rw [← hpc] at hu
      exact ⟨(hoffer n hu).1, hsafe (hoffer n hu).2⟩
    · rw [← hpc] at hu
      obtain ⟨hl, hs⟩ := hg.offers u n hu
      exact ⟨hlock u hut hl, hsafe hs⟩

theorem Guarded.quiet_reader (hg : Guarded w s) (hdisk : s'.disk = s.disk) (hb : SameBounds s s')
    (hpcs : s'.pcs = update s.pcs t pc')
    (hold : (s.pcs t).isStoring = false) (hnew : pc'.isStoring = false) (hread : Aged w s pc')
    (hcopies : ∀ i c, s'.ram i = some c → s.ram i = some c) (hoffer : ∀ n, ¬ pc'.offers n)
    (hlock : s'.ramLock = s.ramLock ∨ ∃ n, (s.pcs t).offers n) : Guarded w s' := by
  refine hg.quiet hdisk hb hpcs (fun i h => absurd h (not_evicts hold)) hread ?_
    (fun i c hc => hg.copies i c (hcopies i c hc)) (fun n hn => absurd hn (hoffer n)) ?_
  · rintro todo out rfl
    cases hnew
  · intro u hut hu
    rcases hlock with hl | ⟨n, hn⟩
    · rw [hl, hu]
    · have := (hg.offers t n hn).1
      rw [hu] at this
      exact absurd (Option.some.inj this) hut

theorem dropCopy_le {j : Nat} {c : Copy} (h : (s.dropCopy i).ram j = some c) :
    s.ram j = some c := by
  rcases moved_cases h rfl with ⟨-, h⟩ | ⟨-, h⟩
  · cases h
  · exact h

theorem not_offers (h : pc.holdsNothing = true) : ¬ pc.offers n := by
  rintro ⟨r, rfl | rfl⟩ <;> cases h

theorem isStoring_of_holdsMutex (h : pc.holdsMutex = false) : pc.isStoring = false := by
  cases pc with
  | storing todo out => cases h
  | _ => rfl

theorem Glance.offers (h : Glance cfg s t a pc pc') (hn : pc'.offers n) : pc.offers n := by
  obtain ⟨r, hr⟩ := hn
  cases h with
  | accept r' n' hv hs =>
    rcases hr with hr | hr
    · cases hr
    · cases hr
      exact ⟨_, .inl rfl⟩
  | pick r' nodes i n' hn' =>
    rcases hr with hr | hr <;> (split at hr <;> cases hr)
  | _ => rcases hr with hr | hr <;> cases hr

theorem Guarded.glance (hg : Guarded w s) (hm : MemOk s.disk) (hpc : s.pcs t = pc)
    (h : Glance cfg s t a pc pc') : Guarded w (s.setPc t pc') := by
  have haged := hg.readers t
  rw [hpc] at haged
  refine hg.quiet rfl ⟨rfl, rfl, rfl, rfl⟩ rfl ?_ (haged.glance hm hg.chain h) ?_ hg.copies ?_ fun _ _ h => h
  · intro i hi
    exact absurd hi (not_evicts (isStoring_of_holdsMutex (hpc ▸ h.holdsMutex)))
  · rintro todo out rfl
    have := h.isReader
    cases this
  · intro n hn
    have := h.offers hn
    rw [← hpc] at this
    exact hg.offers t n this

theorem Guarded.lock (hg : Guarded w s) {r : Sample} (hpc : s.pcs t = .altServe r n .put)
    (hl : s.ramLock = none) (he : s.disk.removeEpoch = r.epoch) :
    Guarded w ({ s with ramLock := some t }.setPc t (.altServe r n .pred)) := by
  have haged := hg.readers t
  rw [hpc] at haged
  have hmark : w.mark s n.id ≤ n.body := (haged r.epoch rfl).2 he.symm
  refine hg.quiet rfl ⟨rfl, rfl, rfl, rfl⟩ rfl ?_ haged ?_ hg.copies ?_ ?_
  · intro i hi
    rw [hpc] at hi
    exact absurd hi (not_evicts rfl)
  · intro todo out h
    cases h
  · rintro n' ⟨r', h | h⟩
    · cases h
      exact ⟨rfl, le_trans (hg.floor _) hmark, .inl hmark⟩
    · cases h
  · intro u _ hu
    rw [hl] at hu
    cases hu

theorem Guarded.insert (hg : Guarded w s) {r : Sample} (hpc : s.pcs t = .altServe r n .insert) :
    Guarded w (insertStep s t r n true) := by
  have haged := hg.readers t
  rw [hpc] at haged
  have hoffer : (s.pcs t).offers n := ⟨r, .inr hpc⟩
  obtain ⟨hlock, hsafe⟩ := hg.offers t n hoffer
  refine @Guarded.quiet s _ t (.altServe r n .recheck) w hg rfl ⟨rfl, rfl, rfl, rfl⟩ rfl ?_ haged ?_ ?_ ?_ ?_
  · intro i hi
    rw [hpc] at hi
    exact absurd hi (not_evicts rfl)
  · intro todo out h
    cases h
  · intro i c hc
    rcases moved_cases hc rfl with ⟨rfl, hnew⟩ | ⟨-, hc⟩
    · cases hnew
      exact fun _ => hsafe
    · exact hg.copies i c hc
  · rintro n' ⟨r', h | h⟩ <;> cases h
  · intro u hut hu
    rw [hlock] at hu
    exact absurd (Option.some.inj hu).symm hut

theorem removeAlternate_program {id : Nat} (h : removeAlternateProgram cfg d id = some p) :
    (∃ stores target, p.stores = stores ++ invalidate cfg target) ∧ p.out.rewritten = none := by
  unfold removeAlternateProgram at h
  split at h
  · cases h
  · split at h
    · split at h <;> cases h
      exact ⟨⟨_, _, rfl⟩, rfl⟩
    · split at h
      · split at h
        · cases h
          exact ⟨⟨_, _, rfl⟩, rfl⟩
        · split at h <;> cases h
          exact ⟨⟨_, _, rfl⟩, rfl⟩
      · split at h <;> cases h
        exact ⟨⟨_, _, rfl⟩, rfl⟩

theorem bumpEpoch_mem_invalidate (hram : cfg.ramCache = true) (target : Option Nat) :
    .bumpEpoch ∈ invalidate cfg target := by
  rw [invalidate, if_pos hram]
  exact List.mem_cons_self

theorem Starts.bumps (h : Starts cfg s t pc p) (hram : cfg.ramCache = true) :
    .bumpEpoch ∈ p.stores := by
  have hinv := bumpEpoch_mem_invalidate hram
  cases h with
  | remove p hm hp =>
    unfold removeProgram at hp
    split at hp <;> cases hp
    exact List.mem_append_right _ (hinv _)
  | removeAlternate id p hm hp =>
    obtain ⟨⟨stores, target, hstores⟩, -⟩ := removeAlternate_program hp
    rw [hstores]
    exact List.mem_append_right _ (hinv _)
  | flushed len pass hm | write len | alternate id len plan dropped pass hp =>
    exact List.mem_append_right _ (hinv _)
  | other shared evicts =>
    apply List.mem_append_right
    rw [if_pos hram]
    exact List.mem_cons_self

theorem MemOk.chain_exec (hm : MemOk d) (hpre : Pre d st) {good : Nat → Nat → Prop}
    (hchain : ∀ o i b, d.OnChain o → d.Holds o i b → good i b)
    (hnew : ∀ id len plan, st = .publish id len plan → good id d.bodies) :
    ∀ o i b, (d.exec st).OnChain o → (d.exec st).Holds o i b → good i b := by
  intro o i b hon hh
  by_cases hst : ∃ id len plan, st = .publish id len plan
  · obtain ⟨id, len, plan, rfl⟩ := hst
    have hslot : SlotOk d len plan := hpre.2
    rcases hm.onChain_publish hslot hon hh with ⟨x, hx, rfl, rfl⟩ | ⟨hc, hne, hr, hh⟩
    · rcases (hslot.source hx).2 with ⟨-, hid, hbody⟩ | ⟨c, hc, hid, hbody⟩
      · rw [hid, hbody]
        exact hnew id len plan rfl
      · rw [hid, hbody]
        exact hchain _ _ _ (hslot.carried c hc).onChain (hslot.carried c hc).holds
    · rcases hslot.link hc with h0 | ⟨hon, -⟩
      · exact absurd h0 hne
      · exact hchain o i b (hon.trans hr) hh
  · have hold := hm.onChain_exec hpre (fun id len plan h => hst ⟨id, len, plan, h⟩) hon
    exact hchain o i b hold ((hm.grows hpre).holds_back (hm.docs_of_onChain hold) hh)

theorem bodies_exec (d : Disk) (st : Store) : d.bodies ≤ (d.exec st).bodies := by
  cases st with
  | publish id len plan => exact Nat.le_succ _
  | _ => exact le_rfl

theorem evicts_tail (hst : ∀ target, st ≠ .evict target)
    (h : (Pc.storing (st :: todo) out).evicts i) : (Pc.storing todo out).evicts i := by
  obtain ⟨_, _, target, heq, hmem, hc⟩ := h
  cases heq
  rcases List.mem_cons.mp hmem with heq | hmem
  · exact absurd heq.symm (hst target)
  · exact ⟨todo, out, target, rfl, hmem, hc⟩

theorem not_offers_storing : ¬ (Pc.storing todo out).offers n := by
  rintro ⟨r, h | h⟩ <;> cases h

theorem Guarded.program (hg : Guarded w s) (hw : WritersOk cfg s)
    (hheld : (s.pcs t).holdsMutex = true) (hpcs : s'.pcs = update s.pcs t pc')
    (hlock : s'.ramLock = s.ramLock) (hgrows : Grows s.disk s'.disk)
    (hepoch : s'.disk.removeEpoch = s.disk.removeEpoch → w.mark s' = w.mark s)
    (hpc' : pc'.epoch? = none ∧ ∀ n, ¬ pc'.offers n)
    (hfloor : ∀ i, w.floor s' i ≤ w.mark s' i) (hmark : ∀ i, w.mark s' i ≤ s'.disk.bodies)
    (hchain : ∀ o i b, s'.disk.OnChain o → s'.disk.Holds o i b → w.mark s' i ≤ b)
    (hrest : ∀ todo out, pc' = .storing todo out → (∀ i, w.mark s' i ≤ w.raised out s' i) ∧
      (.bumpEpoch ∈ todo ∨ ∀ i, w.raised out s' i ≤ w.mark s' i))
    (hcopies : ∀ i c, s'.ram i = some c → w.target i = i → Safe w s' i c.body)
    (hoffers : ∀ u n, (s.pcs u).offers n → Safe w s' n.id n.body) : Guarded w s' := by
  have hother : ∀ {u : Nat}, u ≠ t → s'.pcs u = s.pcs u := by
    intro u hut
    rw [hpcs, update_of_ne hut]
  have hself : s'.pcs t = pc' := by
    rw [hpcs, update_self]
  have hstores : ∀ {u : Nat} {todo : List Store} {out : Outcome},
      s'.pcs u = .storing todo out → pc' = .storing todo out := by
    intro u todo out hu
    by_cases hut : u = t
    · rw [hut, hself] at hu
      exact hu
    · rw [hother hut] at hu
      exact absurd (hw.eq_of_holds hheld (holds_at hu rfl)) hut
  refine ⟨hfloor, hmark, hchain, ?_, fun u todo out hu => (hrest todo out (hstores hu)).1,
    fun u todo out hu => (hrest todo out (hstores hu)).2, hcopies, ?_⟩
  · intro u
    by_cases hut : u = t
    · rw [hut, hself]
      exact aged_of_no_epoch hpc'.1
    · rw [hother hut]
      exact (hg.readers u).frame hw.mem hgrows hepoch
  · intro u n hu
    by_cases hut : u = t
    · rw [hut, hself] at hu
      exact absurd hu (hpc'.2 n)
    · rw [hother hut] at hu
      rw [hlock]
      exact ⟨(hg.offers u n hu).1, hoffers u n hu⟩

theorem storing_quiet :
    (Pc.storing todo out).epoch? = none ∧ ∀ n, ¬ (Pc.storing todo out).offers n :=
  ⟨rfl, fun _ => not_offers_storing⟩

theorem Guarded.store (hg : Guarded w s) (hw : WritersOk cfg s)
    (hpc : s.pcs t = .storing (st :: todo) out)
    (hst : (∀ target, st ≠ .evict target) ∧ st ≠ .bumpEpoch) :
    Guarded w ({ s with disk := s.disk.exec st }.setPc t (.storing todo out)) := by
  have hpre := (hw.programOk hpc).1
  have hsafe : ∀ {i b}, Safe w s i b →
      Safe w ({ s with disk := s.disk.exec st }.setPc t (.storing todo out)) i b := by
    intro i b h
    refine h.update ⟨rfl, rfl, rfl, rfl⟩ rfl ?_
    rw [hpc]
    exact evicts_tail hst.1
  refine hg.program hw (by rw [hpc]; rfl) rfl rfl (hw.mem.grows hpre) (fun _ => rfl) storing_quiet
    hg.floor (fun i => le_trans (hg.mark i) (bodies_exec _ _))
    (hw.mem.chain_exec hpre hg.chain fun id _ _ _ => hg.mark id) ?_
    (fun i c hc hi => hsafe (hg.copies i c hc hi)) fun u n hu => hsafe (hg.offers u n hu).2
  intro todo' out' heq
  cases heq
  refine ⟨hg.rises t _ _ hpc, (hg.promised t _ _ hpc).imp_left fun hmem => ?_⟩
  exact (List.mem_cons.mp hmem).resolve_left fun heq => hst.2 heq.symm

theorem Watch.raised_cases (hp : Promised cfg s.disk todo out) (i : Nat) :
    w.raised out s i = w.mark s i ∨ ∃ target, .evict target ∈ todo ∧
      covers target (w.target i) = true := by
  cases w with
  | versions =>
    rcases out.bound_cases s.mark i with heq | ⟨r, hr, hcov, -⟩
    · exact .inl heq
    · obtain ⟨target, hmem, hcovers⟩ := hp.evicts r hr
      exact .inr ⟨target, hmem, hcovers i hcov⟩
  | rewrites =>
    cases hr : out.rewritten with
    | none =>
      refine .inl ?_
      change out.rewritten.getD s.rebased = s.rebased
      rw [hr]
      rfl
    | some p =>
      obtain ⟨target, hmem, hcovers⟩ := hp.evicts _ (hp.rebased p hr).1
      exact .inr ⟨target, hmem, hcovers kOriginal (beq_self_eq_true kOriginal)⟩

theorem Watch.raised_le (hp : Promised cfg s.disk todo out)
    (hu : w = .versions → cfg.unlinkSupersededAlternates = true)
    (hmark : ∀ i, w.mark s i ≤ s.disk.bodies)
    (hchain : ∀ o i b, s.disk.OnChain o → s.disk.Holds o i b → w.mark s i ≤ b) :
    (∀ i, w.raised out s i ≤ s.disk.bodies) ∧
      ∀ o i b, s.disk.OnChain o → s.disk.Holds o i b → w.raised out s i ≤ b := by
  cases w with
  | versions =>
    constructor
    · intro i
      have := hmark i
      rcases out.bound_cases s.mark i with heq | ⟨r, hr, -, heq⟩
      · exact heq.trans_le this
      · exact heq.trans_le (Nat.max_le.mpr ⟨this, hp.least r hr⟩)
    · intro o i b hon hh
      have := hchain o i b hon hh
      rcases out.bound_cases s.mark i with heq | ⟨r, hr, hcov, heq⟩
      · exact heq.trans_le this
      · exact heq.trans_le (Nat.max_le.mpr ⟨this, hp.raised (hu rfl) r hr o i b hon hh hcov⟩)
  | rewrites =>
    change (Nat → out.rewritten.getD s.rebased ≤ _) ∧ ∀ _ _ _, _ → _ →
      out.rewritten.getD s.rebased ≤ _
    cases hr : out.rewritten with
    | none => exact ⟨hmark, hchain⟩
    | some p =>
      obtain ⟨hraise, hall⟩ := hp.rebased p hr
      exact ⟨fun _ => hp.least _ hraise, hall⟩

theorem Watch.raised_bump (w : Watch) (out : Outcome) (i : Nat) : w.raised out ({ s with
      disk := s.disk.exec .bumpEpoch
      mark := out.bound s.mark
      rebased := out.rewritten.getD s.rebased }.setPc t pc') i = w.raised out s i := by
  cases w with
  | versions => exact Nat.le_antisymm (out.bound_idem s.mark i) (out.le_bound _ i)
  | rewrites =>
    change out.rewritten.getD (out.rewritten.getD s.rebased) = out.rewritten.getD s.rebased
    cases out.rewritten <;> rfl

theorem Guarded.bump (hg : Guarded w s) (hw : WritersOk cfg s)
    (hu : w = .versions → cfg.unlinkSupersededAlternates = true)
    (hpc : s.pcs t = .storing (.bumpEpoch :: todo) out) :
    Guarded w ({ s with
      disk := s.disk.exec .bumpEpoch
      mark := out.bound s.mark
      rebased := out.rewritten.getD s.rebased }.setPc t (.storing todo out)) := by
  obtain ⟨hpre, hprom, -⟩ := hw.programOk hpc
  obtain ⟨hbodies, hchain⟩ := Watch.raised_le hprom hu hg.mark hg.chain
  have hrises := hg.rises t _ _ hpc
  have hsafe : ∀ {i b}, Safe w s i b → Safe w ({ s with
      disk := s.disk.exec .bumpEpoch
      mark := out.bound s.mark
      rebased := out.rewritten.getD s.rebased }.setPc t (.storing todo out)) i b := by
    intro i b h
    refine ⟨h.1, ?_⟩
    rcases @Watch.raised_cases cfg s w out todo hprom i with heq | ⟨target, hmem, hcov⟩
    · refine h.2.imp heq.trans_le fun hp => ?_
      refine hp.update rfl ?_
      rw [hpc]
      exact evicts_tail nofun
    · refine .inr ⟨t, ?_⟩
      change (update s.pcs t (.storing todo out) t).evicts (w.target i)
      rw [update_self]
      exact ⟨todo, out, target, rfl, hmem, hcov⟩
  refine hg.program hw (by rw [hpc]; rfl) rfl rfl (hw.mem.grows hpre)
    (fun heq => absurd heq (Nat.succ_ne_self _)) storing_quiet
    (fun i => le_trans (hg.floor i) (hrises i)) hbodies hchain ?_
    (fun i c hc hi => hsafe (hg.copies i c hc hi)) fun u n hu => hsafe (hg.offers u n hu).2
  intro todo' out' heq
  cases heq
  exact ⟨fun i => (w.raised_bump out i).ge, .inr fun i => (w.raised_bump out i).le⟩

theorem evictCopies_eq_some {target : Option Nat} {ram : Copies} {c : Copy}
    (h : evictCopies target ram i = some c) : covers target i = false ∧ ram i = some c := by
  unfold evictCopies at h
  split at h
  · cases h
  · next hc => exact ⟨Bool.eq_false_iff.mpr hc, h⟩

theorem Guarded.evict (hg : Guarded w s) (hw : WritersOk cfg s) {target : Option Nat}
    (hpc : s.pcs t = .storing (.evict target :: todo) out) (hl : s.ramLock = none) :
    Guarded w ({ s with ram := evictCopies target s.ram }.setPc t (.storing todo out)) := by
  refine hg.program hw (by rw [hpc]; rfl) rfl rfl (Grows.refl _) (fun _ => rfl) storing_quiet
    hg.floor hg.mark hg.chain ?_ ?_ ?_
  · intro todo' out' heq
    cases heq
    refine ⟨hg.rises t _ _ hpc, (hg.promised t _ _ hpc).imp_left fun hmem => ?_⟩
    exact (List.mem_cons.mp hmem).resolve_left nofun
  · intro i c hc hi
    obtain ⟨hcov, hc⟩ := evictCopies_eq_some hc
    obtain ⟨hfloor, hmark⟩ := hg.copies i c hc hi
    refine ⟨hfloor, hmark.imp_right fun hp => hp.update rfl ?_⟩
    rw [hpc, hi]
    rintro ⟨_, _, target', heq, hmem, hcov'⟩
    cases heq
    rcases List.mem_cons.mp hmem with heq | hmem
    · cases heq
      rw [hcov] at hcov'
      cases hcov'
    · exact ⟨todo, out, target', rfl, hmem, hcov'⟩
  · intro u n hn
    have := (hg.offers u n hn).1
    rw [hl] at this
    cases this

theorem WritersOk.not_pending (hw : WritersOk cfg s) (hpc : s.pcs t = .storing [] out) :
    ¬ Pending s i := by
  rintro ⟨u, todo, out', target, hu, hmem, -⟩
  obtain ⟨-, rfl, -⟩ := hw.eq_of_storing hpc hu
  cases hmem

theorem Guarded.finish (hg : Guarded w s) (hw : WritersOk cfg s) (hpc : s.pcs t = .storing [] out) :
    Guarded w (finish s t out) := by
  have hdone : ∀ i, w.raised out s i ≤ w.mark s i :=
    (hg.promised t _ _ hpc).resolve_left List.not_mem_nil
  have hbelow : ∀ i, w.floor (Ram.finish s t out) i ≤ w.mark s i := by
    intro i
    refine le_trans ?_ (hdone i)
    cases w with
    | versions => exact out.bound_mono hg.floor i
    | rewrites =>
      change out.rewritten.getD s.rewritten ≤ out.rewritten.getD s.rebased
      cases out.rewritten with
      | none => exact hg.floor i
      | some p => exact le_rfl
  have hsafe : ∀ {i b}, Safe w s i b → Safe w (Ram.finish s t out) i b := by
    intro i b h
    have hmark := h.2.resolve_right (hw.not_pending hpc)
    exact ⟨le_trans (hbelow i) hmark, .inl hmark⟩
  exact hg.program hw (by rw [hpc]; rfl) rfl rfl (Grows.refl _) (fun _ => rfl)
    ⟨rfl, fun n => not_offers rfl⟩ hbelow hg.mark hg.chain nofun
    (fun i c hc hi => hsafe (hg.copies i c hc hi)) fun u n hu => hsafe (hg.offers u n hu).2

theorem Starts.rewritten (h : Starts cfg s t pc p) {b : Nat} (hb : p.out.rewritten = some b) :
    b = s.disk.bodies ∧ p.out.raise = some ⟨some kOriginal, b⟩ := by
  cases h with
  | remove p hm hp =>
    unfold removeProgram at hp
    split at hp <;> cases hp
    cases hb
  | removeAlternate id p hm hp =>
    rw [(removeAlternate_program hp).2] at hb
    cases hb
  | flushed len pass hm | write len =>
    obtain rfl := Option.some.inj hb
    exact ⟨rfl, rfl⟩
  | alternate id len plan dropped pass hp | other shared evicts => cases hb

theorem Starts.rises (h : Starts cfg s t pc p) (hmark : ∀ i, w.mark s i ≤ s.disk.bodies) (i : Nat) :
    w.mark s i ≤ w.raised p.out s i := by
  cases w with
  | versions => exact p.out.le_bound s.mark i
  | rewrites =>
    change s.rebased ≤ p.out.rewritten.getD s.rebased
    cases hr : p.out.rewritten with
    | none => exact le_rfl
    | some b =>
      rw [(h.rewritten hr).1]
      exact hmark i

theorem Guarded.prepares (hg : Guarded w s) (hram : cfg.ramCache = true) (hpc : s.pcs t = pc)
    {m : Option Nat} (h : Prepares cfg s t pc m pc') :
    Guarded w ({ s with mutex := m }.setPc t pc') := by
  have hold : (s.pcs t).isStoring = false := by
    rw [hpc]
    cases h with
    | start pc p hst =>
      cases hst <;> rfl
    | _ => rfl
  have hnew : pc'.epoch? = none ∧ ∀ n, ¬ pc'.offers n := by
    cases h <;> refine ⟨rfl, ?_⟩ <;> rintro n ⟨r, h | h⟩ <;> cases h
  refine hg.quiet rfl ⟨rfl, rfl, rfl, rfl⟩ rfl (fun i h => absurd h (not_evicts hold))
    (aged_of_no_epoch hnew.1) ?_ hg.copies (fun n hn => absurd hn (hnew.2 n)) fun _ _ h => h
  rintro todo out rfl
  cases h with
  | start pc p hst => exact ⟨hst.rises hg.mark, .inl (hst.bumps hram)⟩

theorem Guarded.move (hg : Guarded w s) (hw : WritersOk cfg s) (hram : cfg.ramCache = true)
    (hu : w = .versions → cfg.unlinkSupersededAlternates = true) (h : Move cfg s a s') :
    Guarded w s' := by
  cases h with
  | call t c result hpc =>
    have hnew : (beginCall cfg s c).epoch? = none ∧ (beginCall cfg s c).holdsNothing = true ∧
        (beginCall cfg s c).isStoring = false := by
      rcases beginCall_cases cfg s c with h | h | h | h <;> rw [h] <;> exact ⟨rfl, rfl, rfl⟩
    exact hg.quiet_reader rfl ⟨rfl, rfl, rfl, rfl⟩ rfl (by rw [hpc]; rfl) hnew.2.2 (aged_of_no_epoch hnew.1)
      (fun _ _ h => h) (fun n => not_offers hnew.2.1) (.inl rfl)
  | glance t a pc pc' hpc hgl => exact hg.glance hw.mem hpc hgl
  | serve t pc ans hpc hs =>
    exact hg.quiet_reader rfl ⟨rfl, rfl, rfl, rfl⟩ rfl (by rw [hpc]; exact isStoring_of_holdsMutex hs.holdsMutex)
      rfl (aged_of_no_epoch rfl) (fun _ _ h => h) (fun n => not_offers rfl) (.inl rfl)
  | readDrop t f hpc hl =>
    exact hg.quiet_reader rfl ⟨rfl, rfl, rfl, rfl⟩ rfl (by rw [hpc]; rfl) rfl (aged_of_no_epoch rfl)
      (fun _ _ h => dropCopy_le h) (fun n => not_offers rfl) (.inl rfl)
  | drop t r n hpc hl =>
    have haged := hg.readers t
    rw [hpc] at haged
    exact hg.quiet_reader rfl ⟨rfl, rfl, rfl, rfl⟩ rfl (by rw [hpc]; rfl) rfl haged
      (fun _ _ h => dropCopy_le h) (fun n => not_offers rfl) (.inl rfl)
  | undo t r n hpc hl =>
    exact hg.quiet_reader rfl ⟨rfl, rfl, rfl, rfl⟩ rfl (by rw [hpc]; rfl) rfl (aged_of_no_epoch rfl)
      (fun _ _ h => dropCopy_le h) (fun n => not_offers rfl) (.inl rfl)
  | lock t r n hpc hl he => exact hg.lock hpc hl he
  | refuse t a r n hpc =>
    have hold : (s.pcs t).isStoring = false := by
      rcases hpc with hpc | hpc <;> rw [hpc] <;> rfl
    exact hg.quiet_reader rfl ⟨rfl, rfl, rfl, rfl⟩ rfl hold rfl (aged_of_no_epoch rfl) (fun _ _ h => h)
      (fun n => not_offers rfl) (.inr ⟨n, r, hpc⟩)
  | insert t r n hpc => exact hg.insert hpc
  | prepare t a m pc pc' hpc hp => exact hg.prepares hram hpc hp
  | wrap t al hpc | advance t o al hpc => exact { hg with }
  | store t st todo out hpc hst => exact hg.store hw hpc hst
  | bump t todo out hpc => exact hg.bump hw hu hpc
  | evict t target todo out hpc hl => exact hg.evict hw hpc hl
  | finish t out hpc => exact hg.finish hw hpc
  | ramEvict id => exact { hg with copies := fun i c hc => hg.copies i c (dropCopy_le hc) }

theorem guarded_opened (h : OpensOn cfg d)
    (hu : w = .versions → cfg.unlinkSupersededAlternates = true) : Guarded w (State.opened d) := by
  refine ⟨?_, ?_, ?_, fun _ => aged_of_no_epoch rfl, nofun, nofun, nofun,
    fun _ _ hn => absurd hn (not_offers rfl)⟩
  · cases w <;> exact fun _ => le_rfl
  · intro i
    cases w with
    | versions => exact Nat.le_of_lt (h.mem.latest i)
    | rewrites => exact Nat.zero_le _
  · intro o i b hon hh
    cases w with
    | versions => exact ((h.settled (hu rfl)).newest o i b hon hh).ge
    | rewrites => exact Nat.zero_le _

end

end CycloneCache.Ref.Ram

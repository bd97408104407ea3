import CycloneCache.Proofs.RamCopies

namespace CycloneCache.Ref.Ram

open Lib Function

def Disk.Has (d : Disk) (i b : Nat) : Prop := ∃ o, d.Holds o i b

structure Later (s s' : State) : Prop where
  grows : Grows s.disk s'.disk
  served : ∀ i, s.served i ≤ s'.served i
  latest : s'.disk.version = s.disk.version → s.disk.version % 2 = 0 →
    s'.disk.latest = s.disk.latest

def StartOk (s : State) (f : Start) : Prop :=
  ∀ i, f.served i ≤ s.served i ∧ (f.served i = 0 ∨ s.disk.Has i (f.served i))

def SampleOk (s : State) (r : Sample) : Prop := StartOk s r.start ∧ r.version ≤ s.disk.version

def SameVersion (s : State) (r : Sample) : Prop := r.version % 2 = 0 ∧ s.disk.version = r.version

def IsFirst (nodes : List Seen) (k : Nat) (n : Seen) : Prop :=
  nodes[k]? = some n ∧ ∀ j m, j < k → nodes[j]? = some m → m.id ≠ n.id

structure WalkOk (s : State) (r : Sample) (want : Nat → Nat) (nodes : List Seen) : Prop where
  start : ∀ i, r.start.served i ≤ want i
  same : SameVersion s r → ∀ i, want i = s.disk.latest i
  first : ∀ k n, IsFirst nodes k n → n.body = want n.id
  has : ∀ n ∈ nodes, s.disk.Has n.id n.body

def Ahead (d : Disk) (want : Nat → Nat) (nodes : List Seen) (o : Nat) : Prop :=
  ∀ m i b, Reach (linkOf d.docs) o m → d.Holds m i b →
    b = want i ∨ (∃ n ∈ nodes, n.id = i) ∨ m ≠ o ∧ ∃ b', d.Holds o i b'

structure PickOk (cfg : Config) (s : State) (r : Sample) (n : Seen) (stage : Stage) : Prop where
  sample : SampleOk s r
  start : r.start.served n.id ≤ n.body
  same : SameVersion s r → n.body = s.disk.latest n.id
  has : s.disk.Has n.id n.body
  uses : stage = .get → useRamCache cfg n = true
  stamp : ∀ c, stage = .stamp c → r.start.served n.id ≤ c.body ∧ s.disk.Has n.id c.body

def ReadOk (cfg : Config) (s : State) : Pc → Prop
  | .altEpoch f => StartOk s f
  | .altVersion f _ => StartOk s f
  | .altProbe r => SampleOk s r
  | .altWalk r nodes o =>
    SampleOk s r ∧ s.disk.docs o ≠ none ∧ ∃ want, WalkOk s r want nodes ∧ Ahead s.disk want nodes o
  | .altSelect r nodes => SampleOk s r ∧ ∃ want, WalkOk s r want nodes
  | .altServe r n stage => PickOk cfg s r n stage
  | _ => True

def Stage.body? (n : Seen) : Stage → Option Nat
  | .get => none
  | .stamp c => some c.body
  | .drop => none
  | _ => some n.body

def Pc.knows (pc : Pc) (i b : Nat) : Prop :=
  ∃ r n stage, pc = .altServe r n stage ∧ n.id = i ∧ stage.body? n = some b

def Known (cfg : Config) (s : State) (i : Nat) : Prop :=
  (cfg.ramCache && cfg.usesRam (s.disk.latest i)) = true ∧
    (s.served i = s.disk.latest i ∨ ∃ t, (s.pcs t).knows i (s.disk.latest i))

def NoneOlder (s : State) (i : Nat) : Prop :=
  (∀ c, s.ram i = some c → s.disk.latest i ≤ c.body) ∧
    ∀ t r n, s.pcs t = .altServe r n .insert → n.id = i → s.disk.latest i ≤ n.body

def Publishing (s : State) (i : Nat) : Prop :=
  ∃ t todo out, s.pcs t = .storing todo out ∧ (∀ st ∈ todo, st.isPublish = false) ∧
    s.disk.latest i ≤ out.bound s.floor i

structure Covered (s : State) : Prop where
  copies : ∀ i c, s.ram i = some c → s.floor i ≤ c.body
  lock : ∀ t n, (s.pcs t).offers n → s.ramLock = some t

structure Ordered (cfg : Config) (s : State) : Prop where
  docs : ∀ o i b, s.disk.Holds o i b → b ≤ s.disk.latest i ∧ (b ≤ s.floor i ∨ b = s.disk.latest i)
  returned : ∀ i, s.disk.latest i ≤ s.floor i ∨ Publishing s i
  window : ∀ h m i b, s.disk.entry = some h → Reach (linkOf s.disk.docs) h m →
    s.disk.Holds m i b → b = s.disk.latest i ∨ m ≠ h ∧ ∃ b', s.disk.Holds h i b'
  copies : ∀ i c, s.ram i = some c → s.disk.Has i c.body
  served : ∀ i, s.served i = 0 ∨ s.disk.Has i (s.served i)
  readers : ∀ t, ReadOk cfg s (s.pcs t)
  known : ∀ i, Known cfg s i → NoneOlder s i

def ReadsInOrder (s : State) : Act → Prop
  | .select t (some i) => ∀ r nodes n, s.pcs t = .altSelect r nodes → nodes[i]? = some n →
      IsFirst nodes i n
  | .step t => ∀ r n, s.pcs t = .altServe r n .pred → s.disk.version < r.version + 2 ^ 32
  | _ => True

section

variable {cfg : Config} {s s' : State} {a : Act} {t : Nat} {pc pc' : Pc} {b i o : Nat} {d : Disk}
  {r : Sample} {nodes : List Seen} {want : Nat → Nat} {n : Seen} {st : Store} {out : Outcome}
  {todo : List Store}

theorem Disk.Has.grows {d' : Disk} (h : d.Has i b) (hg : Grows d d') : d'.Has i b := by
  obtain ⟨o, ho⟩ := h
  exact ⟨o, hg.holds ho⟩

theorem StartOk.later {f : Start} (h : StartOk s f) (hl : Later s s') : StartOk s' f := by
  intro i
  obtain ⟨hle, hhas⟩ := h i
  exact ⟨le_trans hle (hl.served i), hhas.imp_right fun hh => hh.grows hl.grows⟩

theorem SampleOk.later (h : SampleOk s r) (hl : Later s s') : SampleOk s' r :=
  ⟨h.1.later hl, le_trans h.2 hl.grows.version⟩

theorem SameVersion.back (h : SameVersion s' r) (hr : SampleOk s r) (hl : Later s s') :
    SameVersion s r ∧ s'.disk.latest = s.disk.latest := by
  have hv := hl.grows.version
  have hle := hr.2
  have heq : s.disk.version = r.version := by
    have := h.2
    omega
  exact ⟨⟨h.1, heq⟩, hl.latest (by rw [h.2, heq]) (by rw [heq]; exact h.1)⟩

theorem WalkOk.later (h : WalkOk s r want nodes) (hr : SampleOk s r) (hl : Later s s') :
    WalkOk s' r want nodes := by
  refine ⟨h.start, ?_, h.first, fun n hn => (h.has n hn).grows hl.grows⟩
  intro hsame
  obtain ⟨hold, hlatest⟩ := hsame.back hr hl
  rw [hlatest]
  exact h.same hold

theorem Ahead.grows {d' : Disk} (h : Ahead d want nodes o) (hm : MemOk d) (ho : d.docs o ≠ none)
    (hg : Grows d d') : Ahead d' want nodes o := by
  intro m i b hr hh
  have hold := hg.reach ho hr
  rcases h m i b hold (hg.holds_back (hm.docs_of_reach ho hold) hh) with hw | hn | ⟨hne, b', hb⟩
  · exact .inl hw
  · exact .inr (.inl hn)
  · exact .inr (.inr ⟨hne, b', hg.holds hb⟩)

theorem PickOk.later {stage : Stage} (h : PickOk cfg s r n stage) (hl : Later s s') :
    PickOk cfg s' r n stage := by
  refine ⟨h.sample.later hl, h.start, ?_, h.has.grows hl.grows, h.uses, ?_⟩
  · intro hsame
    obtain ⟨hold, hlatest⟩ := hsame.back h.sample hl
    rw [hlatest]
    exact h.same hold
  · intro c hc
    exact ⟨(h.stamp c hc).1, (h.stamp c hc).2.grows hl.grows⟩

theorem ReadOk.later (h : ReadOk cfg s pc) (hm : MemOk s.disk) (hl : Later s s') :
    ReadOk cfg s' pc := by
  cases pc with
  | altEpoch f | altVersion f e => exact StartOk.later h hl
  | altProbe r => exact SampleOk.later h hl
  | altWalk r nodes o =>
    obtain ⟨hr, ho, want, hwalk, hahead⟩ := h
    exact ⟨hr.later hl, hl.grows.docs ho, want, hwalk.later hr hl, hahead.grows hm ho hl.grows⟩
  | altSelect r nodes =>
    obtain ⟨hr, want, hwalk⟩ := h
    exact ⟨hr.later hl, want, hwalk.later hr hl⟩
  | altServe r n stage => exact PickOk.later h hl
  | _ => trivial

theorem served_le_answer (s : State) (t : Nat) (ans : Answer) (i : Nat) :
    s.served i ≤ (s.answer t ans).served i := by
  simp only [State.answer]
  split
  · by_cases hi : i = ans.id
    · rw [hi, update_self]
      exact Nat.le_max_left _ _
    · rw [update_of_ne hi]
  · exact le_rfl

theorem WritersOk.later (hw : WritersOk cfg s) (h : Move cfg s a s') : Later s s' := by
  have hg := hw.grows h
  cases h with
  | serve t pc ans hpc hs => exact ⟨hg, served_le_answer s t ans, fun _ _ => rfl⟩
  | undo t r n hpc hl | refuse t a r n hpc => exact ⟨hg, served_le_answer _ t _, fun _ _ => rfl⟩
  | store t st todo out hpc hst =>
    refine ⟨hg, fun _ => le_rfl, ?_⟩
    intro _ heven
    cases st with
    | publish id len plan =>
      have hodd := (hw.programOk hpc).1.1
      omega
    | _ => rfl
  | _ => exact ⟨hg, fun _ => le_rfl, fun _ _ => rfl⟩

theorem isFirst_append {x : Seen} {k : Nat} (h : IsFirst (nodes ++ [x]) k n) :
    IsFirst nodes k n ∨ n = x ∧ ∀ m ∈ nodes, m.id ≠ x.id := by
  obtain ⟨hn, hfirst⟩ := h
  have hkeep : ∀ (j : Nat) (m : Seen), nodes[j]? = some m → (nodes ++ [x])[j]? = some m := by
    intro j m hm
    rw [List.getElem?_append_left (List.getElem?_eq_some_iff.mp hm).1]
    exact hm
  by_cases hk : k < nodes.length
  · rw [List.getElem?_append_left hk] at hn
    exact .inl ⟨hn, fun j m hj hm => hfirst j m hj (hkeep j m hm)⟩
  · have hlen : k = nodes.length := by
      have := (List.getElem?_eq_some_iff.mp hn).1
      rw [List.length_append, List.length_singleton] at this
      omega
    rw [hlen, List.getElem?_concat_length] at hn
    cases hn
    refine .inr ⟨rfl, ?_⟩
    intro m hm
    obtain ⟨j, hj⟩ := List.mem_iff_getElem?.mp hm
    have hjlt := (List.getElem?_eq_some_iff.mp hj).1
    exact hfirst j m (by omega) (hkeep j m hj)

theorem WalkOk.snoc {x : AltDoc} (h : WalkOk s r want nodes) (hahead : Ahead s.disk want nodes o)
    (hx : s.disk.docs o = some x) : WalkOk s r want (nodes ++ [seenAt o x]) := by
  refine ⟨h.start, h.same, ?_, ?_⟩
  · intro k n hk
    rcases isFirst_append hk with hk | ⟨rfl, hnone⟩
    · exact h.first k n hk
    · rcases hahead o _ _ (.refl o) (seenAt_holds hx) with hw | ⟨m, hm, hid⟩ | ⟨hne, -⟩
      · exact hw
      · exact absurd hid (hnone m hm)
      · exact absurd rfl hne
  · refine List.forall_mem_append.mpr ⟨h.has, List.forall_mem_singleton.mpr ?_⟩
    exact ⟨o, seenAt_holds hx⟩

theorem Ahead.next {x : AltDoc} (h : Ahead d want nodes o) (hx : d.docs o = some x)
    (hn : x.nextAlternateOffset ≠ 0) :
    Ahead d want (nodes ++ [seenAt o x]) x.nextAlternateOffset := by
  have hlink : linkOf d.docs o = some x.nextAlternateOffset := by
    rw [linkOf_eq hx, asLink, if_neg hn]
  intro m i b hr hh
  rcases h m i b (Reach.head hlink hr) hh with hw | ⟨n, hn, hid⟩ | ⟨-, b', hb⟩
  · exact .inl hw
  · exact .inr (.inl ⟨n, List.mem_append_left _ hn, hid⟩)
  · -- it was behind `o`, which the walk now has
    refine .inr (.inl ⟨seenAt o x, List.mem_append_right _ (List.mem_singleton_self _), ?_⟩)
    exact ((seenAt_holds hx).unique hb).1

theorem Ordered.has_le (ho : Ordered cfg s) (h : s.disk.Has i b) : b ≤ s.disk.latest i := by
  obtain ⟨o, hh⟩ := h
  exact (ho.docs o i b hh).1

theorem Ordered.served_le (ho : Ordered cfg s) (i : Nat) : s.served i ≤ s.disk.latest i := by
  rcases ho.served i with h | h
  · omega
  · exact ho.has_le h

theorem Ordered.start_le_copy (ho : Ordered cfg s) (hcov : Covered s) (hp : PickOk cfg s r n .get)
    {c : Copy} (hc : s.ram n.id = some c) : r.start.served n.id ≤ c.body := by
  obtain ⟨hle, hhas⟩ := hp.sample.1 n.id
  rcases hhas with h0 | ⟨o, hh⟩
  · omega
  · rcases (ho.docs o _ _ hh).2 with hfloor | hlatest
    · exact le_trans hfloor (hcov.copies _ c hc)
    · have hserved : s.served n.id = s.disk.latest n.id := by
        have := ho.served_le n.id
        omega
      have hbody : n.body = s.disk.latest n.id := by
        have := ho.has_le hp.has
        have := hp.start
        omega
      have hu : (cfg.ramCache && cfg.usesRam (s.disk.latest n.id)) = true := by
        rw [← hbody]
        exact hp.uses rfl
      have := (ho.known n.id ⟨hu, .inl hserved⟩).1 c hc
      omega

theorem PickOk.stage {stage stage' : Stage} (h : PickOk cfg s r n stage) (hget : stage' ≠ .get)
    (hstamp : ∀ c, stage' ≠ .stamp c) : PickOk cfg s r n stage' :=
  { h with uses := fun h => absurd h hget, stamp := fun c h => absurd h (hstamp c) }

theorem Ordered.read_glance (ho : Ordered cfg s) (hcov : Covered s) (hm : MemOk s.disk)
    (hok : ReadsInOrder s a) (hpc : s.pcs t = pc) (h : Glance cfg s t a pc pc') :
    ReadOk cfg s pc' := by
  have hread := ho.readers t
  rw [hpc] at hread
  cases h with
  | epoch f => exact hread
  | version f e => exact ⟨hread, le_rfl⟩
  | head r o hv he =>
    refine ⟨hread, hm.entry o he, s.disk.latest, ⟨?_, fun _ _ => rfl, ?_, by simp⟩, ?_⟩
    · intro i
      exact le_trans (hread.1 i).1 (ho.served_le i)
    · intro k n hk
      have := hk.1
      cases this
    · intro m i b hr hh
      rcases ho.window o m i b he hr hh with hw | hw
      · exact .inl hw
      · exact .inr (.inr hw)
  | next r nodes o x hx hn =>
    obtain ⟨hr, hdoc, want, hwalk, hahead⟩ := hread
    have hlink : linkOf s.disk.docs o = some x.nextAlternateOffset := by
      rw [linkOf_eq hx, asLink, if_neg hn]
    exact ⟨hr, hm.closed _ _ hlink, want, hwalk.snoc hahead hx, hahead.next hx hn⟩
  | last r nodes o x hx =>
    obtain ⟨hr, -, want, hwalk, hahead⟩ := hread
    exact ⟨hr, want, hwalk.snoc hahead hx⟩
  | cut a r nodes o =>
    obtain ⟨hr, -, want, hwalk, -⟩ := hread
    exact ⟨hr, want, hwalk⟩
  | pick r nodes i n hn =>
    obtain ⟨hr, want, hwalk⟩ := hread
    have hbody := hwalk.first i n (hok r nodes n hpc hn)
    refine ⟨hr, ?_, ?_, hwalk.has n (List.mem_of_getElem? hn), ?_, ?_⟩
    · rw [hbody]
      exact hwalk.start n.id
    · intro hsame
      rw [hbody, hwalk.same hsame]
    · intro hget
      split at hget
      · assumption
      · cases hget
    · intro c hc
      split at hc <;> cases hc
  | miss r n hl hram | stale r n c | loaded r n hu | offer r n he | accept r n hv hs | undo r n =>
    exact hread.stage (by simp) (by simp)
  | copy r n c hl hram =>
    refine { hread with uses := by simp, stamp := ?_ }
    intro c' hc'
    cases hc'
    exact ⟨ho.start_le_copy hcov hread hram, ho.copies _ c hram⟩
  | _ => trivial

def Brings (cfg : Config) (s s' : State) (t i b : Nat) : Prop :=
  (s.pcs t).knows i b ∨ (s.ramLock = none ∧ ∀ c, s'.ram i = some c → c.body = b) ∨
    (cfg.ramCache && cfg.usesRam b) = false

theorem Brings.known (h : Brings cfg s s' t i (s.disk.latest i))
    (hu : (cfg.ramCache && cfg.usesRam (s.disk.latest i)) = true) :
    Known cfg s i ∨ s.ramLock = none ∧ ∀ c, s'.ram i = some c → c.body = s.disk.latest i := by
  rcases h with hk | hl | hno
  · exact .inl ⟨hu, .inr ⟨t, hk⟩⟩
  · exact .inr hl
  · rw [hno] at hu
    cases hu

theorem Known.cases (h : Known cfg s' i) (hdisk : s'.disk = s.disk)
    (hpcs : s'.pcs = update s.pcs t pc') (hserved : s'.served i = s.served i ∨
      ∃ b, s'.served i = max (s.served i) b ∧ Brings cfg s s' t i b)
    (hknows : ∀ b, pc'.knows i b → Brings cfg s s' t i b) :
    Known cfg s i ∨ s.ramLock = none ∧ ∀ c, s'.ram i = some c → c.body = s.disk.latest i := by
  obtain ⟨hu, hk⟩ := h
  rw [hdisk] at hu hk
  rcases hk with hlast | ⟨u, hk⟩
  · rcases hserved with heq | ⟨b, hmax, hb⟩
    · exact .inl ⟨hu, .inl (heq ▸ hlast)⟩
    · rw [hmax] at hlast
      rcases Nat.le_total b (s.served i) with hle | hle
      · rw [Nat.max_eq_left hle] at hlast
        exact .inl ⟨hu, .inl hlast⟩
      · rw [Nat.max_eq_right hle] at hlast
        exact (hlast ▸ hb).known hu
  · rcases moved_cases (j := u) rfl hpcs with ⟨-, hpc'⟩ | ⟨-, hpc⟩
    · exact (hknows _ (hpc' ▸ hk)).known hu
    · exact .inl ⟨hu, .inr ⟨u, hpc ▸ hk⟩⟩

theorem Publishing.update (h : Publishing s i) (hlatest : s'.disk.latest = s.disk.latest)
    (hfloor : s'.floor = s.floor) (hpcs : s'.pcs = update s.pcs t pc')
    (hold : (s.pcs t).isStoring = false) : Publishing s' i := by
  obtain ⟨u, todo, out, hu, hrest⟩ := h
  refine ⟨u, todo, out, ?_, ?_⟩
  · rw [hpcs, update_of_ne ?_]
    · exact hu
    · rintro rfl
      rw [hu] at hold
      cases hold
  · rw [hlatest, hfloor]
    exact hrest

section

variable (ho : Ordered cfg s) (hcov : Covered s) (hdisk : s'.disk = s.disk)
  (hpcs : s'.pcs = update s.pcs t pc') (hknows : ∀ i b, pc'.knows i b → Brings cfg s s' t i b)
  (hram : ∀ i c, s'.ram i = some c → s.ram i = some c ∨
    ∃ r n, s.pcs t = .altServe r n .insert ∧ n.id = i ∧ c.body = n.body)
  (hinsert : ∀ r n, pc' = .altServe r n .insert →
    (s.pcs t).offers n ∧ n.body = s.disk.latest n.id)
include ho hcov hdisk hpcs hknows hram hinsert

theorem Ordered.known_step (hserved : ∀ i, s'.served i = s.served i ∨
      ∃ b, s'.served i = max (s.served i) b ∧ Brings cfg s s' t i b) :
    ∀ i, Known cfg s' i → NoneOlder s' i := by
  intro i hk
  unfold NoneOlder
  rw [hdisk]
  rcases hk.cases hdisk hpcs (hserved i) (hknows i) with hold | ⟨hl, hall⟩
  · obtain ⟨hcopies, hins⟩ := ho.known i hold
    constructor
    · intro c hc
      rcases hram i c hc with hc | ⟨r, n, hn, hid, hbody⟩
      · exact hcopies c hc
      · rw [hbody]
        exact hins t r n hn hid
    · intro u r n hu hid
      rcases moved_cases hu hpcs with ⟨-, hu⟩ | ⟨-, hu⟩
      · rw [(hinsert r n hu).2, hid]
      · exact hins u r n hu hid
  · -- nobody holds the lock, so nobody is about to insert
    refine ⟨fun c hc => (hall c hc).ge, ?_⟩
    intro u r n hu _
    exfalso
    have hoffer : (s.pcs u).offers n := by
      rcases moved_cases hu hpcs with ⟨rfl, hu⟩ | ⟨-, hu⟩
      · exact (hinsert r n hu).1
      · exact ⟨r, .inr hu⟩
    have := hcov.lock u n hoffer
    rw [hl] at this
    cases this

theorem Ordered.quiet (hm : MemOk s.disk) (hlater : Later s s') (hfloor : s'.floor = s.floor)
    (hold : (s.pcs t).isStoring = false) (hread : ReadOk cfg s pc')
    (hserved : ∀ i, s'.served i = s.served i ∨
      ∃ b, s.disk.Has i b ∧ s'.served i = max (s.served i) b ∧ Brings cfg s s' t i b) :
    Ordered cfg s' := by
  refine ⟨?_, ?_, ?_, ?_, ?_, ?_, ?_⟩
  · rw [hdisk, hfloor]
    exact ho.docs
  · intro i
    rw [hdisk, hfloor]
    exact (ho.returned i).imp_right fun h => h.update (by rw [hdisk]) hfloor hpcs hold
  · rw [hdisk]
    exact ho.window
  · intro i c hc
    rw [hdisk]
    rcases hram i c hc with hc | ⟨r, n, hn, hid, hbody⟩
    · exact ho.copies i c hc
    · have hpick := ho.readers t
      rw [hn] at hpick
      rw [← hid, hbody]
      exact hpick.has
  · intro i
    rw [hdisk]
    rcases hserved i with heq | ⟨b, hhas, hmax, -⟩
    · rw [heq]
      exact ho.served i
    · rw [hmax]
      rcases Nat.le_total b (s.served i) with hle | hle
      · rw [Nat.max_eq_left hle]
        exact ho.served i
      · rw [Nat.max_eq_right hle]
        exact .inr hhas
  · rw [hpcs]
    exact (forall_update_iff s.pcs fun _ pc => ReadOk cfg s' pc).mpr
      ⟨hread.later hm hlater, fun u _ => (ho.readers u).later hm hlater⟩
  · refine ho.known_step hcov hdisk hpcs hknows hram hinsert fun i => ?_
    exact (hserved i).imp_right fun ⟨b, _, hmax, hb⟩ => ⟨b, hmax, hb⟩

end

theorem knows_serve {stage : Stage} (h : stage.body? n = some b) :
    (Pc.altServe r n stage).knows n.id b :=
  ⟨r, n, stage, rfl, rfl, h⟩

theorem Glance.knows (h : Glance cfg s t a pc pc') (hpc : s.pcs t = pc) (hram : s'.ram = s.ram)
    (hk : pc'.knows i b) : Brings cfg s s' t i b := by
  obtain ⟨r', n', stage, heq, rfl, hb⟩ := hk
  unfold Brings
  rw [hpc, hram]
  cases h with
  | pick r nodes k n hn =>
    split at heq <;> cases heq
    · cases hb
    · next hu =>
      cases hb
      exact .inr (.inr (Bool.eq_false_iff.mpr hu))
  | miss r n hl hnone =>
    cases heq
    refine .inr (.inl ⟨hl, fun c hc => ?_⟩)
    rw [hnone] at hc
    cases hc
  | copy r n c hl hsome =>
    cases heq
    refine .inr (.inl ⟨hl, fun c' hc => ?_⟩)
    rw [hsome] at hc
    cases hc
    exact Option.some.inj hb
  | stale r n c =>
    cases heq
    cases hb
  | loaded r n hu | offer r n he | accept r n hv hs | undo r n =>
    cases heq
    exact .inl (knows_serve hb)
  | _ => cases heq

theorem PickOk.admitted {stage : Stage} (h : PickOk cfg s r n stage) (hv : r.version % 2 = 0)
    (hs : s.disk.version % 2 ^ 32 = r.version % 2 ^ 32) (hfew : s.disk.version < r.version + 2 ^ 32) :
    n.body = s.disk.latest n.id := by
  apply h.same
  refine ⟨hv, ?_⟩
  have := h.sample.2
  omega

theorem Ordered.glance (ho : Ordered cfg s) (hcov : Covered s) (hw : WritersOk cfg s)
    (hok : ReadsInOrder s a) (hpc : s.pcs t = pc) (h : Glance cfg s t a pc pc') :
    Ordered cfg (s.setPc t pc') := by
  refine ho.quiet hcov rfl rfl (fun i b => h.knows hpc rfl) (fun i c hc => .inl hc) ?_ hw.mem
    (hw.later (.glance t a pc pc' hpc h)) rfl ?_ (ho.read_glance hcov hw.mem hok hpc h)
    fun i => .inl rfl
  · rintro r n rfl
    rw [hpc]
    refine ⟨h.offers ⟨r, .inr rfl⟩, ?_⟩
    generalize hpc' : Pc.altServe r n .insert = pc' at h
    cases h with
    | accept r' n' hv hs =>
      cases hpc'
      have hpick := ho.readers t
      rw [hpc] at hpick
      exact hpick.admitted hv hs (hok _ _ hpc)
    | pick r' nodes k n' hn =>
      split at hpc' <;> cases hpc'
    | _ => cases hpc'
  · rw [hpc]
    exact isStoring_of_holdsMutex h.holdsMutex

theorem served_answer (s : State) (t : Nat) (ans : Answer) (i : Nat) :
    (s.answer t ans).served i = s.served i ∨ ans.alternate = true ∧ i = ans.id ∧
      (s.answer t ans).served i = max (s.served i) ans.body := by
  simp only [State.answer]
  split
  · next halt =>
    by_cases hi : i = ans.id
    · rw [hi, update_self]
      exact .inr ⟨halt, rfl, rfl⟩
    · rw [update_of_ne hi]
      exact .inl rfl
  · exact .inl rfl

theorem Ordered.serves (ho : Ordered cfg s) (hcov : Covered s) (hpc : s.pcs t = pc) {ans : Answer}
    (h : Serves cfg s pc ans) (hram : s'.ram = s.ram) (halt : ans.alternate = true) :
    s.disk.Has ans.id ans.body ∧ ans.start.served ans.id ≤ ans.body ∧
      Brings cfg s s' t ans.id ans.body := by
  have hread := ho.readers t
  unfold Brings
  rw [hpc] at hread ⊢
  rw [hram]
  cases h with
  | readHit f c hl hc | readStamp f c | readDisk f o x hx => cases halt
  | hit r n c hl hc =>
    refine ⟨ho.copies _ c hc, ho.start_le_copy hcov hread hc, .inr (.inl ⟨hl, fun c' hc' => ?_⟩)⟩
    rw [hc] at hc'
    rw [Option.some.inj hc']
  | stamp r n c =>
    obtain ⟨hstart, hhas⟩ := hread.stamp c rfl
    exact ⟨hhas, hstart, .inl (knows_serve rfl)⟩
  | loaded r n stage hstage =>
    refine ⟨hread.has, hread.start, .inl (knows_serve ?_)⟩
    rcases hstage with rfl | rfl | rfl | rfl <;> rfl

theorem Ordered.answer (ho : Ordered cfg s) (hcov : Covered s) (hm : MemOk s.disk) {ans : Answer}
    (hlater : Later s s') (hdisk : s'.disk = s.disk) (hfloor : s'.floor = s.floor)
    (hpcs : s'.pcs = update s.pcs t (.idle (some ans)))
    (hserved : s'.served = (s.answer t ans).served) (hold : (s.pcs t).isStoring = false)
    (hram : ∀ i c, s'.ram i = some c → s.ram i = some c) (hans : ans.alternate = true →
      s.disk.Has ans.id ans.body ∧ Brings cfg s s' t ans.id ans.body) : Ordered cfg s' := by
  refine ho.quiet hcov hdisk hpcs ?_ (fun i c hc => .inl (hram i c hc)) nofun hm hlater hfloor hold
    trivial ?_
  · rintro i b ⟨r, n, stage, h, -⟩
    cases h
  · intro i
    rw [hserved]
    rcases served_answer s t ans i with heq | ⟨halt, rfl, hmax⟩
    · exact .inl heq
    · obtain ⟨hhas, hb⟩ := hans halt
      exact .inr ⟨ans.body, hhas, hmax, hb⟩

theorem MemOk.has_exec (hpre : Pre d st) (h : (d.exec st).Has i b) :
    d.Has i b ∨ b = d.bodies ∧ ∃ len plan, st = .publish i len plan := by
  obtain ⟨o, hh⟩ := h
  cases st with
  | publish id len plan =>
    obtain ⟨x, hx, rfl, rfl⟩ := hh
    rcases place_cases hpre.2.nodup hx with hmem | ⟨-, hold⟩
    · rcases (hpre.2.source hmem).2 with ⟨-, hid, hbody⟩ | ⟨c, hc, hid, hbody⟩
      · rw [hid, hbody]
        exact .inr ⟨rfl, len, plan, rfl⟩
      · rw [hid, hbody]
        exact .inl ⟨_, (hpre.2.carried c hc).holds⟩
    · exact .inl ⟨o, x, hold, rfl, rfl⟩
  | storeLink p n => exact .inl ⟨o, holds_exec_storeLink.mp hh⟩
  | _ => exact .inl ⟨o, hh⟩

theorem latest_exec (i : Nat) : (d.exec st).latest i = d.latest i ∨
      (d.exec st).latest i = d.bodies ∧ ∃ len plan, st = .publish i len plan := by
  cases st with
  | publish id len plan =>
    change update d.latest id d.bodies i = _ ∨ _
    by_cases hi : i = id
    · rw [hi]
      exact .inr ⟨update_self _ _ _, len, plan, rfl⟩
    · exact .inl (update_of_ne hi _ _)
  | _ => exact .inl rfl

section

variable (ho : Ordered cfg s)
include ho

section

variable (hw : WritersOk cfg s)
include hw

section

variable (hpc : s.pcs t = .storing (st :: todo) out)
include hpc

theorem Ordered.returned_of_publish (hst : st.isPublish = true) (i : Nat) :
    s.disk.latest i ≤ s.floor i := by
  rcases ho.returned i with h | ⟨u, todo', out', hu, hnone, -⟩
  · exact h
  · obtain ⟨-, rfl, -⟩ := hw.eq_of_storing hpc hu
    have := hnone st List.mem_cons_self
    rw [hst] at this
    cases this

theorem Ordered.docs_exec (h : (s.disk.exec st).Has i b) :
    b ≤ (s.disk.exec st).latest i ∧ (b ≤ s.floor i ∨ b = (s.disk.exec st).latest i) := by
  rcases MemOk.has_exec (hw.programOk hpc).1 h with ⟨o, hold⟩ | ⟨rfl, len, plan, rfl⟩
  · obtain ⟨hle, hor⟩ := ho.docs o i b hold
    rcases @latest_exec s.disk st i with heq | ⟨heq, len, plan, rfl⟩
    · rw [heq]
      exact ⟨hle, hor⟩
    · have := hw.mem.latest i
      have := ho.returned_of_publish hw hpc rfl i
      exact ⟨by omega, .inl (by omega)⟩
  · have heq : (s.disk.exec (.publish i len plan)).latest i = s.disk.bodies := update_self _ _ _
    exact ⟨heq.ge, .inr heq.symm⟩

theorem Ordered.returned_exec (hdisk : s'.disk = s.disk.exec st) (hfloor : s'.floor = s.floor)
    (hpcs : s'.pcs = update s.pcs t (.storing todo out)) (i : Nat) :
    s'.disk.latest i ≤ s'.floor i ∨ Publishing s' i := by
  have hpc' : s'.pcs t = .storing todo out := by
    rw [hpcs, update_self]
  rw [hdisk, hfloor]
  rcases @latest_exec s.disk st i with heq | ⟨heq, len, plan, rfl⟩
  · rw [heq]
    refine (ho.returned i).imp_right fun ⟨u, todo', out', hu, hnone, hle⟩ => ?_
    obtain ⟨rfl, rfl, rfl⟩ := hw.eq_of_storing hpc hu
    refine ⟨u, todo, out', hpc', fun st' hst' => hnone st' (List.mem_cons_of_mem _ hst'), ?_⟩
    rw [hdisk, heq, hfloor]
    exact hle
  · obtain ⟨-, ⟨hraise, hnone, -⟩, -⟩ := hw.programOk hpc
    refine .inr ⟨t, todo, out, hpc', hnone, ?_⟩
    rw [hdisk, heq, hfloor]
    exact Outcome.least_le_bound hraise (beq_self_eq_true i)

end

theorem Ordered.window_exec (hu : cfg.unlinkSupersededAlternates = true)
    (hpc : s.pcs t = .storing (st :: todo) out) {h m : Nat} (he : (s.disk.exec st).entry = some h)
    (hr : Reach (linkOf (s.disk.exec st).docs) h m) (hh : (s.disk.exec st).Holds m i b) :
    b = (s.disk.exec st).latest i ∨ m ≠ h ∧ ∃ b', (s.disk.exec st).Holds h i b' := by
  obtain ⟨hpre, hst, -⟩ := hw.programOk hpc
  have hgrows := hw.mem.grows hpre
  -- a store that keeps the entry and publishes nothing only shortens the chain
  have hshort : (s.disk.exec st).entry = s.disk.entry → (s.disk.exec st).latest = s.disk.latest →
      b = (s.disk.exec st).latest i ∨ m ≠ h ∧ ∃ b', (s.disk.exec st).Holds h i b' := by
    intro hentry hlatest
    rw [hentry] at he
    have hold := hgrows.reach (hw.mem.entry h he) hr
    have hdoc := hw.mem.docs_of_reach (hw.mem.entry h he) hold
    rw [hlatest]
    exact (ho.window h m i b he hold (hgrows.holds_back hdoc hh)).imp_right
      fun ⟨hne, b', hb⟩ => ⟨hne, b', hgrows.holds hb⟩
  cases st with
  | publish id len plan =>
    have hsettled := hst.2.2 hu
    have hchain : i = id ∨ b = s.disk.latest i :=
      @MemOk.chain_exec s.disk _ hw.mem hpre (fun i b => i = id ∨ b = s.disk.latest i)
        (fun o i b hon hh => .inr (hsettled.newest o i b hon hh))
        (fun id' len' plan' heq => by cases heq; exact .inl rfl) m i b ⟨h, he, hr⟩ hh
    have hhead : (s.disk.exec (.publish id len plan)).Holds h id s.disk.bodies := by
      cases he
      have hmem : (s.disk.cursor + carriedSize plan.carried, _) ∈
          slotDocs s.disk.pass id len plan s.disk.cursor s.disk.bodies :=
        List.mem_append_right _ (List.mem_singleton_self _)
      exact ⟨_, place_of_mem hpre.2.nodup hmem, rfl, rfl⟩
    change b = update s.disk.latest id s.disk.bodies i ∨ _
    by_cases hi : i = id
    · subst hi
      by_cases hmh : m = h
      · subst hmh
        rw [update_self]
        exact .inl (hh.unique hhead).2
      · exact .inr ⟨hmh, _, hhead⟩
    · rw [update_of_ne hi]
      exact .inl (hchain.resolve_left hi)
  | setEntry e =>
    have hon := hw.mem.onChain_exec hpre nofun ⟨h, he, hr⟩
    exact .inl ((hst hu).newest m i b hon hh)
  | _ => exact hshort rfl rfl

end

theorem Ordered.knows_le (h : (s.pcs t).knows i b) : b ≤ s.disk.latest i := by
  obtain ⟨r, n, stage, hpc, rfl, hb⟩ := h
  have hread := ho.readers t
  rw [hpc] at hread
  cases stage with
  | get => cases hb
  | stamp c =>
    cases hb
    exact ho.has_le (hread.stamp c rfl).2
  | drop => cases hb
  | _ =>
    cases hb
    exact ho.has_le hread.has

theorem Ordered.known_exec (hm : MemOk s.disk) (hdisk : s'.disk = s.disk.exec st)
    (hserved : s'.served = s.served) (hram : ∀ i c, s'.ram i = some c → s.ram i = some c)
    (hpcs : s'.pcs = update s.pcs t (.storing todo out)) (h : Known cfg s' i) : NoneOlder s' i := by
  have hpc' : ∀ {u : Nat} {r : Sample} {n : Seen} {stage : Stage},
      s'.pcs u = .altServe r n stage → s.pcs u = .altServe r n stage := by
    intro u r n stage hu
    rcases moved_cases hu hpcs with ⟨-, hu⟩ | ⟨-, hu⟩
    · cases hu
    · exact hu
  have hknows : ∀ {b : Nat}, (∃ u, (s'.pcs u).knows i b) → ∃ u, (s.pcs u).knows i b := by
    rintro b ⟨u, r, n, stage, hu, hrest⟩
    exact ⟨u, r, n, stage, hpc' hu, hrest⟩
  obtain ⟨huses, hk⟩ := h
  unfold NoneOlder
  rw [hdisk] at huses hk ⊢
  rw [hserved] at hk
  rcases @latest_exec s.disk st i with heq | ⟨heq, -⟩
  · rw [heq] at huses hk ⊢
    obtain ⟨hcopies, hins⟩ := ho.known i ⟨huses, hk.imp_right hknows⟩
    exact ⟨fun c hc => hcopies c (hram i c hc), fun u r n hu hid => hins u r n (hpc' hu) hid⟩
  · exfalso
    rw [heq] at hk
    have hlt := hm.latest i
    rcases hk with hk | hk
    · have := ho.served_le i
      omega
    · obtain ⟨u, hu⟩ := hknows hk
      have := ho.knows_le hu
      omega

theorem Ordered.program (hw : WritersOk cfg s) (hu : cfg.unlinkSupersededAlternates = true)
    (hlater : Later s s') (hpc : s.pcs t = .storing (st :: todo) out)
    (hdisk : s'.disk = s.disk.exec st) (hfloor : s'.floor = s.floor)
    (hserved : s'.served = s.served) (hram : ∀ i c, s'.ram i = some c → s.ram i = some c)
    (hpcs : s'.pcs = update s.pcs t (.storing todo out)) : Ordered cfg s' := by
  refine ⟨?_, ho.returned_exec hw hpc hdisk hfloor hpcs, ?_, ?_, ?_, ?_,
    fun i => ho.known_exec hw.mem hdisk hserved hram hpcs⟩
  · intro o i b hh
    rw [hdisk] at hh ⊢
    rw [hfloor]
    exact ho.docs_exec hw hpc ⟨o, hh⟩
  · rw [hdisk]
    exact fun h m i b he hr hh => ho.window_exec hw hu hpc he hr hh
  · exact fun i c hc => (ho.copies i c (hram i c hc)).grows hlater.grows
  · intro i
    rw [hserved]
    exact (ho.served i).imp_right fun h => h.grows hlater.grows
  · rw [hpcs]
    exact (forall_update_iff s.pcs fun _ pc => ReadOk cfg s' pc).mpr
      ⟨trivial, fun u _ => (ho.readers u).later hw.mem hlater⟩

theorem Ordered.finish (hw : WritersOk cfg s) (hpc : s.pcs t = .storing [] out) :
    Ordered cfg (finish s t out) := by
  have hfloor : ∀ i, s.floor i ≤ out.bound s.floor i := out.le_bound s.floor
  have hpc' : ∀ {u : Nat} {r : Sample} {n : Seen} {stage : Stage},
      (Ram.finish s t out).pcs u = .altServe r n stage → s.pcs u = .altServe r n stage := by
    intro u r n stage hu
    rcases moved_cases hu rfl with ⟨-, hu⟩ | ⟨-, hu⟩
    · cases hu
    · exact hu
  refine ⟨?_, ?_, ho.window, ho.copies, ho.served, ?_, ?_⟩
  · intro o i b hh
    obtain ⟨hle, hor⟩ := ho.docs o i b hh
    exact ⟨hle, hor.imp_left fun h => le_trans h (hfloor i)⟩
  · intro i
    rcases ho.returned i with h | ⟨u, todo, out', hu, -, hle⟩
    · exact .inl (le_trans h (hfloor i))
    · obtain ⟨-, -, rfl⟩ := hw.eq_of_storing hpc hu
      exact .inl hle
  · exact (forall_update_iff s.pcs fun _ pc => ReadOk cfg (Ram.finish s t out) pc).mpr
      ⟨trivial, fun u _ => (ho.readers u).later hw.mem (hw.later (.finish t out hpc))⟩
  · rintro i ⟨hu, hk⟩
    obtain ⟨hcopies, hins⟩ := ho.known i ⟨hu, hk.imp_right fun ⟨u, r, n, stage, hu, hrest⟩ =>
      ⟨u, r, n, stage, hpc' hu, hrest⟩⟩
    exact ⟨hcopies, fun u r n hu hid => hins u r n (hpc' hu) hid⟩

section

variable (hcov : Covered s)
include hcov

section

variable (hw : WritersOk cfg s)
include hw

theorem Ordered.call {c : Call} {result : Option Answer} (hpc : s.pcs t = .idle result) :
    Ordered cfg (s.setPc t (beginCall cfg s c)) := by
  have hbegins : StartOk s s.begins := fun i => ⟨le_rfl, ho.served i⟩
  have hnew : ReadOk cfg s (beginCall cfg s c) ∧
      ∀ r n stage, beginCall cfg s c ≠ .altServe r n stage := by
    rcases beginCall_cases cfg s c with h | h | h | h <;> rw [h]
    · exact ⟨trivial, nofun⟩
    · exact ⟨trivial, nofun⟩
    · exact ⟨hbegins, nofun⟩
    · exact ⟨trivial, nofun⟩
  refine ho.quiet hcov rfl rfl ?_ (fun i c hc => .inl hc) (fun r n h => absurd h (hnew.2 r n _))
    hw.mem (hw.later (.call t c result hpc)) rfl (by rw [hpc]; rfl) hnew.1 fun i => .inl rfl
  rintro i b ⟨r, n, stage, h, -⟩
  exact absurd h (hnew.2 r n stage)

theorem Ordered.prepares (hpc : s.pcs t = pc) {m : Option Nat} (h : Prepares cfg s t pc m pc') :
    Ordered cfg ({ s with mutex := m }.setPc t pc') := by
  have hold : (s.pcs t).isStoring = false := by
    rw [hpc]
    cases h with
    | start pc p hst => cases hst <;> rfl
    | _ => rfl
  have hnew : ReadOk cfg s pc' ∧ ∀ r n stage, pc' ≠ .altServe r n stage := by
    cases h <;> exact ⟨trivial, nofun⟩
  refine ho.quiet hcov rfl rfl ?_ (fun i c hc => .inl hc) (fun r n h => absurd h (hnew.2 r n _))
    hw.mem (hw.later (.prepare t (.step t) m pc pc' hpc h)) rfl hold hnew.1 fun i => .inl rfl
  rintro i b ⟨r, n, stage, h, -⟩
  exact absurd h (hnew.2 r n stage)

theorem Ordered.drop (hpc : s.pcs t = .altServe r n .drop) (hl : s.ramLock = none) :
    Ordered cfg ((s.dropCopy n.id).setPc t (.altServe r n .disk)) := by
  have hread := ho.readers t
  rw [hpc] at hread
  refine ho.quiet hcov rfl rfl ?_ (fun i c hc => .inl (dropCopy_le hc)) nofun hw.mem
    (hw.later (.drop t r n hpc hl)) rfl (by rw [hpc]; rfl) (hread.stage nofun nofun)
    fun i => .inl rfl
  rintro i b ⟨r', n', stage, h, rfl, -⟩
  cases h
  refine .inr (.inl ⟨hl, fun c hc => ?_⟩)
  change update s.ram n.id none n.id = some c at hc
  rw [update_self] at hc
  cases hc

theorem Ordered.insert (hpc : s.pcs t = .altServe r n .insert) :
    Ordered cfg (insertStep s t r n true) := by
  have hread := ho.readers t
  rw [hpc] at hread
  refine @Ordered.quiet cfg s _ t (.altServe r n .recheck) ho hcov rfl rfl ?_ ?_ nofun hw.mem
    (hw.later (.insert t r n hpc)) rfl (by rw [hpc]; rfl) (hread.stage nofun nofun)
    fun i => .inl rfl
  · rintro i b ⟨r', n', stage, h, rfl, hb⟩
    cases h
    refine .inl ?_
    rw [hpc]
    exact knows_serve hb
  · intro i c hc
    rcases moved_cases hc rfl with ⟨rfl, hnew⟩ | ⟨-, hc⟩
    · cases hnew
      exact .inr ⟨r, n, hpc, rfl, rfl⟩
    · exact .inl hc

theorem Ordered.move (hu : cfg.unlinkSupersededAlternates = true) (hok : ReadsInOrder s a)
    (h : Move cfg s a s') : Ordered cfg s' := by
  have hlater := hw.later h
  cases h with
  | call t c result hpc => exact ho.call hcov hw hpc
  | glance t a pc pc' hpc hg => exact ho.glance hcov hw hok hpc hg
  | serve t pc ans hpc hs =>
    refine ho.answer hcov hw.mem hlater rfl rfl rfl rfl
      (by rw [hpc]; exact isStoring_of_holdsMutex hs.holdsMutex) (fun _ _ h => h) fun halt => ?_
    obtain ⟨hhas, -, hb⟩ := ho.serves hcov hpc hs rfl halt
    exact ⟨hhas, hb⟩
  | readDrop t f hpc hl =>
    refine ho.quiet hcov rfl rfl ?_ (fun i c hc => .inl (dropCopy_le hc)) nofun hw.mem hlater rfl
      (by rw [hpc]; rfl) trivial fun i => .inl rfl
    rintro i b ⟨r, n, stage, h, -⟩
    cases h
  | drop t r n hpc hl => exact ho.drop hcov hw hpc hl
  | undo t r n hpc hl =>
    have hread := ho.readers t
    rw [hpc] at hread
    refine ho.answer hcov hw.mem hlater rfl rfl rfl rfl (by rw [hpc]; rfl)
      (fun _ _ h => dropCopy_le h) fun _ => ⟨hread.has, .inl ?_⟩
    rw [hpc]
    exact knows_serve rfl
  | lock t r n hpc hl he =>
    have hread := ho.readers t
    rw [hpc] at hread
    refine ho.quiet hcov rfl rfl ?_ (fun i c hc => .inl hc) nofun hw.mem hlater rfl
      (by rw [hpc]; rfl) (hread.stage nofun nofun) fun i => .inl rfl
    rintro i b ⟨r', n', stage, h, rfl, hb⟩
    cases h
    refine .inl ?_
    rw [hpc]
    exact knows_serve hb
  | refuse t a r n hpc =>
    have hread := ho.readers t
    have hpick : s.disk.Has n.id n.body ∧ (s.pcs t).knows n.id n.body ∧
        (s.pcs t).isStoring = false := by
      rcases hpc with hpc | hpc <;> rw [hpc] at hread ⊢ <;>
        exact ⟨hread.has, knows_serve rfl, rfl⟩
    exact ho.answer hcov hw.mem hlater rfl rfl rfl rfl hpick.2.2 (fun _ _ h => h)
      fun _ => ⟨hpick.1, .inl hpick.2.1⟩
  | insert t r n hpc => exact ho.insert hcov hw hpc
  | prepare t a m pc pc' hpc hp => exact ho.prepares hcov hw hpc hp
  | wrap t al hpc | advance t o al hpc =>
    exact { ho with readers := fun u => (ho.readers u).later hw.mem hlater }
  | store t st todo out hpc hst | bump t todo out hpc =>
    exact ho.program hw hu hlater hpc rfl rfl rfl (fun _ _ h => h) rfl
  | evict t target todo out hpc hl =>
    exact ho.program hw hu hlater hpc rfl rfl rfl (fun _ _ h => (evictCopies_eq_some h).2) rfl
  | finish t out hpc => exact ho.finish hw hpc
  | ramEvict id =>
    refine { ho with
      copies := fun i c hc => ho.copies i c (dropCopy_le hc)
      readers := fun u => (ho.readers u).later hw.mem hlater
      known := ?_ }
    intro i hk
    obtain ⟨hcopies, hins⟩ := ho.known i hk
    exact ⟨fun c hc => hcopies c (dropCopy_le hc), hins⟩

end

end

end

theorem ordered_opened (h : OpensOn cfg d) (hu : cfg.unlinkSupersededAlternates = true) :
    Ordered cfg (State.opened d) where
  docs o i b hh := ⟨h.newest o i b hh, .inl (h.newest o i b hh)⟩
  returned _ := .inl le_rfl
  window e m i b he hr hh := .inl ((h.settled hu).newest m i b ⟨e, he, hr⟩ hh)
  copies _ _ hc := nomatch hc
  served _ := .inl rfl
  readers _ := trivial
  known _ _ := ⟨nofun, nofun⟩

end

end CycloneCache.Ref.Ram

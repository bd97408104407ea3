import CycloneCache.Proofs.RamCoherence

namespace CycloneCache.Ref.Ram

open Lib Function

def Pc.began? : Pc → Option Start
  | .readGet f => some f
  | .readStamp f _ => some f
  | .readDrop f => some f
  | .readProbe f => some f
  | .readDisk f _ => some f
  | pc => pc.start?

def Pc.copy? : Pc → Option Copy
  | .readStamp _ c => some c
  | .altServe _ _ (.stamp c) => some c
  | _ => none

def SeenSince (s : State) (pc : Pc) : Prop :=
  ∀ f, pc.began? = some f → f.rewritten ≤ s.rewritten ∧
    Sees s.disk (fun i b => f.rewritten ≤ b ∧ b ≤ s.disk.latest i) pc ∧
    ∀ c, pc.copy? = some c → f.rewritten ≤ c.body

def Respected (s : State) (p : Nat) : Prop :=
  p = s.rewritten ∨ ∃ t f, (s.pcs t).began? = some f ∧ f.rewritten = p

structure Rewrites (s : State) : Prop where
  newest : ∀ o i b, s.disk.Holds o i b → b ≤ s.disk.latest i
  readers : ∀ t, SeenSince s (s.pcs t)
  copies : ∀ i c p, s.ram i = some c → Respected s p → p ≤ c.body ∨ s.disk.latest i < p
  programs : ∀ t todo out p, s.pcs t = .storing todo out → out.rewritten = some p →
    out.raise = some ⟨some kOriginal, p⟩ ∧ ∀ i, i ≠ kOriginal → s.disk.latest i < p
  answers : ∀ t, ∀ ans ∈ s.answers t, ans.start.rewritten ≤ ans.body

def PublishesClean (s : State) : Act → Prop
  | .step t => ∀ id len plan todo out,
      s.pcs t = .storing (.publish id len plan :: todo) out → out.rewritten = none →
        ∀ c, s.ram id = some c → s.rewritten ≤ c.body
  | _ => True

section

variable {cfg : Config} {s s' : State} {a : Act} {t : Nat} {pc pc' : Pc}

theorem Rewrites.respected_le (h : Rewrites s) {p : Nat} (hp : Respected s p) :
    p ≤ s.rewritten := by
  rcases hp with rfl | ⟨t, f, hf, rfl⟩
  · exact le_rfl
  · exact (h.readers t f hf).1

theorem latest_le_exec {d : Disk} (hm : MemOk d) (st : Store) (i : Nat) :
    d.latest i ≤ (d.exec st).latest i := by
  rcases @latest_exec d st i with heq | ⟨heq, -⟩
  · exact heq.ge
  · rw [heq]
    exact Nat.le_of_lt (hm.latest i)

theorem SeenSince.frame (h : SeenSince s pc) (hm : MemOk s.disk) (hg : Grows s.disk s'.disk)
    (hle : s.rewritten ≤ s'.rewritten) (hlatest : ∀ i, s.disk.latest i ≤ s'.disk.latest i) :
    SeenSince s' pc := by
  intro f hf
  obtain ⟨hf', hsees, hcopy⟩ := h f hf
  refine ⟨le_trans hf' hle, (hsees.grows hm hg).imp ?_, hcopy⟩
  exact fun i b hb => ⟨hb.1, le_trans hb.2 (hlatest i)⟩

theorem seenSince_of_none (h : pc.began? = none) : SeenSince s pc := by
  intro f hf
  rw [h] at hf
  cases hf

theorem seenSince_begins (hb : pc.began? = some s.begins) (hc : pc.copy? = none)
    (hs : ∀ good, Sees s.disk good pc) : SeenSince s pc := by
  intro f hf
  rw [hb] at hf
  cases hf
  refine ⟨le_rfl, hs _, fun c hc' => ?_⟩
  rw [hc] at hc'
  cases hc'

theorem respected_begins (hb : pc.began? = some s.begins) :
    ∀ f, pc.began? = some f → Respected s f.rewritten := by
  intro f hf
  rw [hb] at hf
  cases hf
  exact .inl rfl

theorem respected_of_moved {p : Nat} (h : Respected s' p) (hrewritten : s'.rewritten = s.rewritten)
    (hpcs : s'.pcs = update s.pcs t pc')
    (hbegan : ∀ f, pc'.began? = some f → Respected s f.rewritten) : Respected s p := by
  rcases h with rfl | ⟨u, f, hf, rfl⟩
  · exact .inl hrewritten
  · rcases moved_cases rfl hpcs (j := u) with ⟨-, hpc⟩ | ⟨-, hpc⟩ <;> rw [← hpc] at hf
    · exact hbegan f hf
    · exact .inr ⟨u, f, hf, rfl⟩

theorem Rewrites.quiet (h : Rewrites s) (hdisk : s'.disk = s.disk)
    (hrewritten : s'.rewritten = s.rewritten) (hpcs : s'.pcs = update s.pcs t pc')
    (hread : SeenSince s pc') (hbegan : ∀ f, pc'.began? = some f → Respected s f.rewritten)
    (hcopies : ∀ i c, s'.ram i = some c → s.ram i = some c ∨ s.rewritten ≤ c.body)
    (hprogram : ∀ todo out p, pc' = .storing todo out → out.rewritten = some p →
      out.raise = some ⟨some kOriginal, p⟩ ∧ ∀ i, i ≠ kOriginal → s.disk.latest i < p)
    (hanswers : ∀ u, ∀ ans ∈ s'.answers u, ans ∈ s.answers u ∨ ans.start.rewritten ≤ ans.body) :
    Rewrites s' := by
  have hother : ∀ {u : Nat}, u ≠ t → s'.pcs u = s.pcs u := by
    intro u hut
    rw [hpcs, update_of_ne hut]
  have hself : s'.pcs t = pc' := by
    rw [hpcs, update_self]
  have hseen : ∀ {pc : Pc}, SeenSince s pc → SeenSince s' pc := by
    intro pc h
    unfold SeenSince
    rw [hdisk, hrewritten]
    exact h
  have hresp : ∀ {p : Nat}, Respected s' p → Respected s p :=
    fun hp => respected_of_moved hp hrewritten hpcs hbegan
  refine ⟨?_, ?_, ?_, ?_, ?_⟩
  · rw [hdisk]
    exact h.newest
  · intro u
    by_cases hut : u = t
    · rw [hut, hself]
      exact hseen hread
    · rw [hother hut]
      exact hseen (h.readers u)
  · intro i c p hc hp
    rw [hdisk]
    rcases hcopies i c hc with hold | hnew
    · exact h.copies i c p hold (hresp hp)
    · exact .inl (le_trans (h.respected_le (hresp hp)) hnew)
  · intro u todo out p hu hp
    rw [hdisk]
    by_cases hut : u = t
    · rw [hut, hself] at hu
      exact hprogram todo out p hu hp
    · rw [hother hut] at hu
      exact h.programs u todo out p hu hp
  · intro u ans hmem
    rcases hanswers u ans hmem with hold | hnew
    · exact h.answers u ans hold
    · exact hnew

theorem Rewrites.copy_since (h : Rewrites s) {r : Sample} {n : Seen} {stage : Stage} {c : Copy}
    (hpc : s.pcs t = .altServe r n stage) (hc : s.ram n.id = some c) :
    r.start.rewritten ≤ c.body := by
  have hf : (s.pcs t).began? = some r.start := by
    rw [hpc]
    rfl
  obtain ⟨-, hsees, -⟩ := h.readers t _ hf
  rw [hpc] at hsees
  have hn : r.start.rewritten ≤ n.body ∧ n.body ≤ s.disk.latest n.id := hsees
  rcases h.copies _ c _ hc (.inr ⟨t, _, hf, rfl⟩) with hle | hlt
  · exact hle
  · omega

theorem Rewrites.original_since (h : Rewrites s) (hg : Guarded .rewrites s) {f : Start} {c : Copy}
    (hf : (s.pcs t).began? = some f) (hc : s.ram kOriginal = some c) : f.rewritten ≤ c.body :=
  le_trans (h.readers t f hf).1 (hg.copies _ c hc rfl).1

theorem Glance.began? (h : Glance cfg s t a pc pc') {f : Start} (hf : pc'.began? = some f) :
    pc.began? = some f := by
  cases h with
  | fail a pc h => cases hf
  | _ => exact hf

theorem Rewrites.glance (h : Rewrites s) (hg : Guarded .rewrites s) (hm : MemOk s.disk)
    (hpc : s.pcs t = pc) (hgl : Glance cfg s t a pc pc') : SeenSince s pc' := by
  intro f hf
  have hold := hgl.began? hf
  have hfpc : (s.pcs t).began? = some f := by
    rw [hpc]
    exact hold
  obtain ⟨hle, hsees, -⟩ := h.readers t f hfpc
  rw [hpc] at hsees
  refine ⟨hle, hsees.glance hm ?_ hgl, ?_⟩
  · intro o i b hon hh
    have hfloor : s.rewritten ≤ s.rebased := hg.floor i
    have hchain : s.rebased ≤ b := hg.chain o i b hon hh
    exact ⟨by omega, h.newest o i b hh⟩
  · intro c hc
    cases hgl with
    | readCopy f' c' hl hram =>
      cases hc
      cases hf
      exact h.original_since hg hfpc hram
    | copy r n c' hl hram =>
      cases hc
      cases hf
      exact h.copy_since hpc hram
    | pick r nodes k n hn =>
      exfalso
      revert hc
      split <;> exact nofun
    | _ => cases hc

theorem Rewrites.serves (h : Rewrites s) (hg : Guarded .rewrites s) (hpc : s.pcs t = pc)
    {ans : Answer} (hs : Serves cfg s pc ans) : ans.start.rewritten ≤ ans.body := by
  have hread := h.readers t
  rw [hpc] at hread
  cases hs with
  | readHit f c hl hc => exact h.original_since hg (by rw [hpc]; rfl) hc
  | readStamp f c => exact (hread f rfl).2.2 c rfl
  | readDisk f o x hx =>
    obtain ⟨-, hsees, -⟩ := hread f rfl
    exact (hsees.2 _ _ ⟨x, hx, rfl, rfl⟩).1
  | hit r n c hl hc => exact h.copy_since hpc hc
  | stamp r n c => exact (hread r.start rfl).2.2 c rfl
  | loaded r n stage hstage =>
    obtain ⟨-, hsees, -⟩ := hread r.start rfl
    have hn : r.start.rewritten ≤ n.body ∧ n.body ≤ s.disk.latest n.id := hsees
    exact hn.1

theorem Rewrites.answer (h : Rewrites s) {ans : Answer} (hdisk : s'.disk = s.disk)
    (hrewritten : s'.rewritten = s.rewritten) (hpcs : s'.pcs = update s.pcs t (.idle (some ans)))
    (hanswers : s'.answers = update s.answers t (ans :: s.answers t))
    (hcopies : ∀ i c, s'.ram i = some c → s.ram i = some c) (hans : ans.start.rewritten ≤ ans.body) :
    Rewrites s' := by
  refine h.quiet hdisk hrewritten hpcs (seenSince_of_none rfl) nofun
    (fun i c hc => .inl (hcopies i c hc)) nofun ?_
  intro u a ha
  rw [hanswers] at ha
  by_cases hut : u = t
  · rw [hut, update_self] at ha
    rw [hut]
    rcases List.mem_cons.mp ha with rfl | ha
    · exact .inr hans
    · exact .inl ha
  · rw [update_of_ne hut] at ha
    exact .inl ha

theorem Rewrites.node_since (h : Rewrites s) {r : Sample} {n : Seen} {stage : Stage}
    (hpc : s.pcs t = .altServe r n stage) : r.start.rewritten ≤ n.body := by
  have hread := h.readers t
  rw [hpc] at hread
  obtain ⟨-, hsees, -⟩ := hread r.start rfl
  have hn : r.start.rewritten ≤ n.body ∧ n.body ≤ s.disk.latest n.id := hsees
  exact hn.1

theorem Rewrites.prepares (h : Rewrites s) (hm : MemOk s.disk) {m : Option Nat}
    (hp : Prepares cfg s t pc m pc') : Rewrites ({ s with mutex := m }.setPc t pc') := by
  have hnew : pc'.began? = none := by
    cases hp <;> rfl
  refine h.quiet rfl rfl rfl (seenSince_of_none hnew) ?_ (fun _ _ hc => .inl hc) ?_
    fun _ _ ha => .inl ha
  · intro f hf
    rw [hnew] at hf
    cases hf
  · rintro todo out p rfl hout
    cases hp with
    | start pc prog hst =>
      obtain ⟨hbodies, hraise⟩ := hst.rewritten hout
      refine ⟨hraise, fun i _ => ?_⟩
      rw [hbodies]
      exact hm.latest i

theorem Rewrites.store (h : Rewrites s) (hg : Guarded .rewrites s) (hw : WritersOk cfg s)
    (hclean : PublishesClean s (.step t)) {st : Store} {todo : List Store} {out : Outcome}
    (hpc : s.pcs t = .storing (st :: todo) out) (hdisk : s'.disk = s.disk.exec st)
    (hrewritten : s'.rewritten = s.rewritten) (hram : ∀ i c, s'.ram i = some c → s.ram i = some c)
    (hanswers : s'.answers = s.answers)
    (hpcs : s'.pcs = update s.pcs t (.storing todo out)) : Rewrites s' := by
  obtain ⟨hpre, hst, -⟩ := hw.programOk hpc
  have hother : ∀ {u : Nat}, u ≠ t → s'.pcs u = s.pcs u := by
    intro u hut
    rw [hpcs, update_of_ne hut]
  have hself : s'.pcs t = .storing todo out := by
    rw [hpcs, update_self]
  have hresp : ∀ {p : Nat}, Respected s' p → Respected s p :=
    fun hp => respected_of_moved hp hrewritten hpcs nofun
  refine ⟨?_, ?_, ?_, ?_, ?_⟩
  · intro o i b hh
    rw [hdisk] at hh ⊢
    rcases MemOk.has_exec hpre ⟨o, hh⟩ with ⟨o', hold⟩ | ⟨rfl, len, plan, rfl⟩
    · exact le_trans (h.newest o' i b hold) (latest_le_exec hw.mem st i)
    · have heq : (s.disk.exec (.publish i len plan)).latest i = s.disk.bodies := update_self _ _ _
      exact heq.ge
  · intro u
    by_cases hut : u = t
    · rw [hut, hself]
      exact seenSince_of_none rfl
    · rw [hother hut]
      refine (h.readers u).frame hw.mem ?_ hrewritten.ge ?_
      · rw [hdisk]
        exact hw.mem.grows hpre
      · rw [hdisk]
        exact latest_le_exec hw.mem st
  · intro i c p hc hp
    rw [hdisk]
    have hold := hram i c hc
    rcases @latest_exec s.disk st i with heq | ⟨-, len, plan, rfl⟩
    · rw [heq]
      exact h.copies i c p hold (hresp hp)
    · -- a publish: of the Original by a plain write, or over no older copy
      refine .inl (le_trans (h.respected_le (hresp hp)) ?_)
      cases hrew : out.rewritten with
      | none => exact hclean i len plan todo out hpc hrew c hold
      | some q =>
        have hraise := (h.programs t _ _ q hpc hrew).1
        rw [hst.1] at hraise
        cases hraise
        exact (hg.copies _ c hold rfl).1
  · intro u todo' out' p hu hp
    have huself : u = t := by
      by_contra hut
      rw [hother hut] at hu
      exact hut (hw.eq_of_storing hpc hu).1
    rw [huself, hself] at hu
    cases hu
    obtain ⟨hraise, hlt⟩ := h.programs t _ _ p hpc hp
    refine ⟨hraise, fun i hi => ?_⟩
    rw [hdisk]
    rcases @latest_exec s.disk st i with heq | ⟨-, len, plan, rfl⟩
    · rw [heq]
      exact hlt i hi
    · rw [hst.1] at hraise
      cases hraise
      exact absurd rfl hi
  · intro u
    rw [hanswers]
    exact h.answers u

theorem Rewrites.finish (h : Rewrites s) (hg : Guarded .rewrites s) (hw : WritersOk cfg s)
    {out : Outcome} (hpc : s.pcs t = .storing [] out) : Rewrites (finish s t out) := by
  have hg' := hg.finish hw hpc
  have hle : s.rewritten ≤ (Ram.finish s t out).rewritten := by
    change s.rewritten ≤ out.rewritten.getD s.rewritten
    have hfloor : s.rewritten ≤ s.rebased := hg.floor 0
    have hrises : s.rebased ≤ out.rewritten.getD s.rebased := hg.rises t _ _ hpc 0
    cases hrew : out.rewritten with
    | none => exact le_rfl
    | some p =>
      rw [hrew] at hrises
      exact le_trans hfloor hrises
  have hother : ∀ {u : Nat}, u ≠ t → (Ram.finish s t out).pcs u = s.pcs u :=
    fun hut => update_of_ne hut _ _
  have hself : (Ram.finish s t out).pcs t = .idle none := update_self _ _ _
  have hold : ∀ u, u ≠ t ∨ (Ram.finish s t out).pcs u = .idle none := by
    intro u
    by_cases hut : u = t
    · exact .inr (hut ▸ hself)
    · exact .inl hut
  refine ⟨h.newest, ?_, ?_, ?_, h.answers⟩
  · intro u
    rcases hold u with hut | hidle
    · rw [hother hut]
      exact (h.readers u).frame hw.mem (Grows.refl _) hle fun _ => le_rfl
    · rw [hidle]
      exact seenSince_of_none rfl
  · intro i c p hc hp
    rcases hp with rfl | ⟨u, f, hf, rfl⟩
    · change out.rewritten.getD s.rewritten ≤ c.body ∨
        s.disk.latest i < out.rewritten.getD s.rewritten
      cases hrew : out.rewritten with
      | none => exact h.copies i c _ hc (.inl rfl)
      | some p =>
        by_cases hi : i = kOriginal
        · have hsafe := (hg'.copies i c hc hi.symm).1
          change out.rewritten.getD s.rewritten ≤ c.body at hsafe
          rw [hrew] at hsafe
          exact .inl hsafe
        · exact .inr ((h.programs t _ _ p hpc hrew).2 i hi)
    · rcases hold u with hut | hidle
      · rw [hother hut] at hf
        exact h.copies i c _ hc (.inr ⟨u, f, hf, rfl⟩)
      · rw [hidle] at hf
        cases hf
  · intro u todo out' p hu hp
    rcases hold u with hut | hidle
    · rw [hother hut] at hu
      exact h.programs u todo out' p hu hp
    · rw [hidle] at hu
      cases hu

theorem Rewrites.move (h : Rewrites s) (hg : Guarded .rewrites s) (hw : WritersOk cfg s)
    (hclean : PublishesClean s a) (hmove : Move cfg s a s') : Rewrites s' := by
  have hgrows := hw.grows hmove
  cases hmove with
  | call t c result hpc =>
    have hnew : SeenSince s (beginCall cfg s c) ∧
        (∀ f, (beginCall cfg s c).began? = some f → Respected s f.rewritten) ∧
        ∀ todo out, beginCall cfg s c ≠ .storing todo out := by
      rcases beginCall_cases cfg s c with h | h | h | h <;> rw [h]
      · exact ⟨seenSince_begins rfl rfl fun _ => trivial, respected_begins rfl, nofun⟩
      · exact ⟨seenSince_begins rfl rfl fun _ => trivial, respected_begins rfl, nofun⟩
      · exact ⟨seenSince_begins rfl rfl fun _ => trivial, respected_begins rfl, nofun⟩
      · exact ⟨seenSince_of_none rfl, nofun, nofun⟩
    exact h.quiet rfl rfl rfl hnew.1 hnew.2.1 (fun _ _ hc => .inl hc)
      (fun todo out _ heq => absurd heq (hnew.2.2 todo out)) fun _ _ ha => .inl ha
  | glance t a pc pc' hpc hgl =>
    refine h.quiet rfl rfl rfl (h.glance hg hw.mem hpc hgl) (fun f hf => ?_)
      (fun _ _ hc => .inl hc) ?_ fun _ _ ha => .inl ha
    · exact .inr ⟨t, f, hpc ▸ hgl.began? hf, rfl⟩
    · rintro todo out p rfl
      have := hgl.isReader
      cases this
  | serve t pc ans hpc hs =>
    exact h.answer rfl rfl rfl rfl (fun _ _ hc => hc) (h.serves hg hpc hs)
  | readDrop t f hpc hl =>
    have hf : (s.pcs t).began? = some f := by
      rw [hpc]
      rfl
    refine h.quiet rfl rfl rfl ?_ (fun f' hf' => .inr ⟨t, f', hpc ▸ hf', rfl⟩)
      (fun _ _ hc => .inl (dropCopy_le hc)) nofun fun _ _ ha => .inl ha
    intro f' hf'
    cases hf'
    exact ⟨(h.readers t _ hf).1, trivial, nofun⟩
  | drop t r n hpc hl =>
    have hread := h.readers t
    rw [hpc] at hread
    refine h.quiet rfl rfl rfl ?_ (fun f' hf' => .inr ⟨t, f', hpc ▸ hf', rfl⟩)
      (fun _ _ hc => .inl (dropCopy_le hc)) nofun fun _ _ ha => .inl ha
    exact fun f hf => ⟨(hread f hf).1, (hread f hf).2.1, nofun⟩
  | undo t r n hpc hl =>
    exact h.answer rfl rfl rfl rfl (fun _ _ hc => dropCopy_le hc) (h.node_since hpc)
  | lock t r n hpc hl he =>
    have hread := h.readers t
    rw [hpc] at hread
    exact h.quiet rfl rfl rfl hread (fun f' hf' => .inr ⟨t, f', hpc ▸ hf', rfl⟩)
      (fun _ _ hc => .inl hc) nofun fun _ _ ha => .inl ha
  | refuse t a r n hpc =>
    refine h.answer rfl rfl rfl rfl (fun _ _ hc => hc) ?_
    rcases hpc with hpc | hpc <;> exact h.node_since hpc
  | insert t r n hpc =>
    have hread := h.readers t
    rw [hpc] at hread
    have hoffer := (hg.offers t n ⟨r, .inr hpc⟩).2.1
    refine @Rewrites.quiet s _ t (.altServe r n .recheck) h rfl rfl rfl hread
      (fun f' hf' => .inr ⟨t, f', hpc ▸ hf', rfl⟩) ?_ nofun
      fun _ _ ha => .inl ha
    intro i c hc
    rcases moved_cases hc rfl with ⟨-, hc⟩ | ⟨-, hc⟩
    · cases hc
      exact .inr hoffer
    · exact .inl hc
  | prepare t a m pc pc' hpc hp => exact h.prepares hw.mem hp
  | wrap t al hpc | advance t o al hpc =>
    exact { h with
      readers := fun u => (h.readers u).frame hw.mem hgrows le_rfl fun _ => le_rfl }
  | store t st todo out hpc hst | bump t todo out hpc =>
    exact h.store hg hw hclean hpc rfl rfl (fun _ _ hc => hc) rfl rfl
  | evict t target todo out hpc hl =>
    exact h.store hg hw hclean hpc rfl rfl (fun _ _ hc => (evictCopies_eq_some hc).2) rfl rfl
  | finish t out hpc => exact h.finish hg hw hpc
  | ramEvict id =>
    exact { h with copies := fun i c p hc hp => h.copies i c p (dropCopy_le hc) hp }

theorem rewrites_step (hram : cfg.ramCache = true)
    (hi : WritersOk cfg s ∧ Guarded .rewrites s ∧ Rewrites s) (hclean : PublishesClean s a)
    (h : step cfg s a = some s') : WritersOk cfg s' ∧ Guarded .rewrites s' ∧ Rewrites s' := by
  obtain ⟨hw, hg, hr⟩ := hi
  have hmove := step_move h
  exact ⟨hw.move hmove, hg.move hw hram nofun hmove, hr.move hg hw hclean hmove⟩

theorem rewrites_opened {d : Disk} (h : OpensOn cfg d) : Rewrites (State.opened d) where
  newest := h.newest
  readers _ := seenSince_of_none rfl
  copies _ _ _ hc := nomatch hc
  programs _ _ _ _ hpc := nomatch hpc
  answers _ _ ha := nomatch ha

/-- Every read that began after a plain write had returned serves a document
written since, in every run whose alternate writes publish over no older copy. -/
theorem reads_since_rewrite {d : Disk} {ls : List Act} (hram : cfg.ramCache = true)
    (hd : OpensOn cfg d) (hclean : StepsOk (step cfg) PublishesClean (State.opened d) ls)
    (hrun : runs (step cfg) (State.opened d) ls = some s) :
    ∀ t, ∀ ans ∈ s.answers t, ans.start.rewritten ≤ ans.body :=
  (runs_inv_of_ok (fun _ _ _ hi hok h => rewrites_step hram hi hok h) hclean hrun
    ⟨writersOk_opened hd, guarded_opened hd nofun, rewrites_opened hd⟩).2.2.answers

def publishesCleanB (s : State) : Act → Bool
  | .step t =>
    match s.pcs t with
    | .storing (.publish id _ _ :: _) out =>
      out.rewritten.isSome || (s.ram id).all fun c => decide (s.rewritten ≤ c.body)
    | _ => true
  | _ => true

theorem publishesCleanB_sound (s : State) (a : Act) (h : publishesCleanB s a = true) :
    PublishesClean s a := by
  cases a with
  | step t =>
    intro id len plan todo out hpc hrew c hc
    simp only [publishesCleanB, hpc, hrew, Option.isSome_none, Bool.false_or, hc,
      Option.all_some] at h
    exact of_decide_eq_true h
  | _ => trivial

def writeRun (t : Nat) : List Act := .call t (.write 136) :: List.replicate 8 (.step t)

def rewriteRun : List Act :=
  writeRun 0 ++ writeAlternateRun 0 1 ++ readAlternateRun 1 2 ++ writeRun 0 ++ [.ramEvict 1] ++
    writeAlternateRun 0 1 ++ readAlternateRun 1 2

theorem reads_since_rewrite_run :
    ∃ s, runs (step (plainSettings true)) (State.opened Disk.fresh) rewriteRun = some s ∧
      (s.answers 1).map (fun ans => (ans.id, ans.body, ans.start.rewritten)) =
        [(1, 4, 3), (1, 2, 1)] ∧
      ∀ t, ∀ ans ∈ s.answers t, ans.start.rewritten ≤ ans.body := by
  obtain ⟨s, hrun, hp⟩ : ∃ s, runs (step (plainSettings true)) (State.opened Disk.fresh)
      rewriteRun = some s ∧ (s.answers 1).map (fun ans => (ans.id, ans.body,
        ans.start.rewritten)) = [(1, 4, 3), (1, 2, 1)] := by decide +kernel
  exact ⟨s, hrun, hp, reads_since_rewrite rfl opensOn_fresh
    (stepsOk_of_sound publishesCleanB_sound (by decide +kernel)) hrun⟩

def comeBackRun : List Act :=
  writeRun 0 ++ writeAlternateRun 0 1 ++ readAlternateRun 1 2 ++ writeRun 0 ++
    (writeAlternateRun 0 1).take 7 ++
    .call 1 .readAlternate :: List.replicate 5 (.step 1) ++ [.select 1 (some 0), .step 1]

/-- The read begins after the plain write numbered 3 has returned and serves the
alternate that was written as number 2. -/
theorem rewrite_comes_back :
    ∃ s, runs (step (plainSettings true)) (State.opened Disk.fresh) comeBackRun = some s ∧
      ∃ ans ∈ s.answers 1, ans.id = 1 ∧ ans.body = 2 ∧ ans.start.rewritten = 3 ∧
        ¬ ans.start.rewritten ≤ ans.body := by
  decide +kernel

end

end CycloneCache.Ref.Ram

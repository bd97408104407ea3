import CycloneCache.Proofs.RamMoves
import CycloneCache.Proofs.RamPrograms

namespace CycloneCache.Ref.Ram

open Lib Function

def Pc.holdsMutex : Pc → Bool
  | .planning _ _ => true
  | .allocating _ => true
  | .storing _ _ => true
  | _ => false

def Pc.isStoring : Pc → Bool
  | .storing _ _ => true
  | _ => false

def WriterOk (cfg : Config) (d : Disk) : Pc → Prop
  | .planning _ len => kHeaderSize ≤ len
  | .allocating (.write len) => kHeaderSize ≤ len
  | .allocating (.alternate id len plan _ pass) =>
    kHeaderSize ≤ len ∧ pass ≤ d.pass ∧ (plan.retained = true → DetachedPlan d id plan) ∧
      (pass = d.pass → PlanOk cfg d id plan)
  | .flushing len _ => kHeaderSize ≤ len
  | .storing todo out => ProgramOk cfg out d todo
  | _ => True

structure WritersOk (cfg : Config) (s : State) : Prop where
  mem : MemOk s.disk
  holder : ∀ t, (s.pcs t).holdsMutex = true → s.mutex = some t
  atRest : (∀ t todo out, s.pcs t ≠ .storing todo out) →
    s.disk.version % 2 = 0 ∧ (cfg.unlinkSupersededAlternates = true → Settled s.disk)
  writers : ∀ t, WriterOk cfg s.disk (s.pcs t)

structure Grows (d d' : Disk) : Prop where
  holds : ∀ {o i b}, d.Holds o i b → d'.Holds o i b
  reach : ∀ {o m}, d.docs o ≠ none → Reach (linkOf d'.docs) o m → Reach (linkOf d.docs) o m
  epoch : d.removeEpoch ≤ d'.removeEpoch
  version : d.version ≤ d'.version

structure OpensOn (cfg : Config) (d : Disk) : Prop where
  mem : MemOk d
  even : d.version % 2 = 0
  settled : cfg.unlinkSupersededAlternates = true → Settled d
  newest : ∀ o i b, d.Holds o i b → b ≤ d.latest i

theorem opensOn_fresh {cfg : Config} : OpensOn cfg Disk.fresh where
  mem := memOk_fresh
  even := rfl
  settled _ := settled_of_no_entry rfl
  newest _ _ _ h := by
    obtain ⟨x, hx, -⟩ := h
    cases hx

section

variable {cfg : Config} {s s' : State} {a : Act} {t : Nat} {pc pc' : Pc}

theorem Grows.refl (d : Disk) : Grows d d :=
  ⟨fun h => h, fun _ h => h, le_rfl, le_rfl⟩

variable {d d' : Disk} {o : Nat} {al : Alloc}

theorem Grows.docs (h : Grows d d') (ho : d.docs o ≠ none) : d'.docs o ≠ none := by
  obtain ⟨i, b, hh⟩ := holds_of_docs ho
  exact (h.holds hh).docs

theorem Grows.holds_back (h : Grows d d') {i b : Nat} (ho : d.docs o ≠ none) (hh : d'.Holds o i b) :
    d.Holds o i b := by
  obtain ⟨i', b', hold⟩ := holds_of_docs ho
  obtain ⟨rfl, rfl⟩ := hh.unique (h.holds hold)
  exact hold

theorem MemOk.grows (hm : MemOk d) {st : Store} (hpre : Pre d st) : Grows d (d.exec st) := by
  refine ⟨hm.holds_exec hpre, hm.reach_exec hpre, ?_, ?_⟩
  · cases st with
    | bumpEpoch => exact Nat.le_succ _
    | _ => exact le_rfl
  · cases st with
    | openBracket | closeBracket => exact Nat.le_succ _
    | _ => exact le_rfl

theorem holds_at (hpc : s.pcs t = pc) (h : pc.holdsMutex = true) : (s.pcs t).holdsMutex = true := by
  rw [hpc]
  exact h

section

variable (hw : WritersOk cfg s)
include hw

theorem WritersOk.programOk {todo : List Store} {out : Outcome} (hpc : s.pcs t = .storing todo out) :
    ProgramOk cfg out s.disk todo := by
  have := hw.writers t
  rwa [hpc] at this

theorem WritersOk.eq_of_holds {u : Nat} (ht : (s.pcs t).holdsMutex = true)
    (hu : (s.pcs u).holdsMutex = true) : u = t := by
  have h₁ := hw.holder t ht
  rw [hw.holder u hu] at h₁
  exact Option.some.inj h₁

theorem WritersOk.eq_of_storing {u : Nat} {todo todo' : List Store} {out out' : Outcome}
    (ht : s.pcs t = .storing todo out) (hu : s.pcs u = .storing todo' out') :
    u = t ∧ todo' = todo ∧ out' = out := by
  obtain rfl := hw.eq_of_holds (holds_at ht rfl) (holds_at hu rfl)
  rw [hu] at ht
  cases ht
  exact ⟨rfl, rfl, rfl⟩

theorem WritersOk.free_of_none (hm : s.mutex = none) (u : Nat) : (s.pcs u).holdsMutex = false := by
  rw [Bool.eq_false_iff]
  intro hu
  have := hw.holder u hu
  rw [hm] at this
  cases this

theorem WritersOk.grows (h : Move cfg s a s') : Grows s.disk s'.disk := by
  cases h with
  | store t st todo out hpc hst | bump t todo out hpc => exact hw.mem.grows (hw.programOk hpc).1
  | wrap t al hpc | advance t o al hpc =>
    exact ⟨fun h => h, fun _ h => h, le_rfl, le_rfl⟩
  | _ => exact Grows.refl _

end

def Pc.isReader : Pc → Bool
  | .planning _ _ => false
  | .allocating _ => false
  | .flushing _ _ => false
  | .storing _ _ => false
  | _ => true

theorem writerOk_of_isReader (h : pc.isReader = true) : WriterOk cfg d pc := by
  cases pc with
  | planning id len | allocating al | flushing len pass | storing todo out => cases h
  | _ => trivial

theorem holdsMutex_of_isReader (h : pc.isReader = true) : pc.holdsMutex = false := by
  cases pc with
  | planning id len | allocating al | storing todo out => cases h
  | _ => rfl

theorem holdsMutex_of_holdsNothing (h : pc.holdsNothing = true) : pc.holdsMutex = false := by
  cases pc with
  | planning id len | allocating al | storing todo out => cases h
  | _ => rfl

theorem Glance.isReader (h : Glance cfg s t a pc pc') : pc'.isReader = true := by
  cases h <;> rfl

theorem Glance.holdsMutex (h : Glance cfg s t a pc pc') : pc.holdsMutex = false := by
  cases h with
  | fail a pc h => exact holdsMutex_of_holdsNothing h
  | _ => rfl

theorem Serves.holdsMutex {ans : Answer} (h : Serves cfg s pc ans) : pc.holdsMutex = false := by
  cases h <;> rfl

theorem beginCall_isReader {c : Call} : (beginCall cfg s c).isReader = true := by
  rcases beginCall_cases cfg s c with h | h | h | h <;> rw [h] <;> rfl

theorem WriterOk.of_free (hfree : pc.holdsMutex = false) (h : WriterOk cfg d pc) :
    WriterOk cfg d' pc := by
  cases pc with
  | planning id len | allocating al | storing todo out => cases hfree
  | flushing len pass => exact h
  | _ => trivial

section

variable (hw : WritersOk cfg s)
include hw

theorem WritersOk.of_free (hdisk : s'.disk = s.disk) (hmutex : s'.mutex = s.mutex)
    (hpcs : s'.pcs = update s.pcs t pc') (hold : (s.pcs t).holdsMutex = false)
    (hnew : pc'.isReader = true) : WritersOk cfg s' := by
  refine ⟨hdisk ▸ hw.mem, ?_, ?_, ?_⟩
  · intro u hu
    rw [hmutex]
    rw [hpcs] at hu
    by_cases hut : u = t
    · rw [hut, update_self, holdsMutex_of_isReader hnew] at hu
      cases hu
    · rw [update_of_ne hut] at hu
      exact hw.holder u hu
  · intro hnone
    rw [hdisk]
    apply hw.atRest
    intro u todo out hu
    by_cases hut : u = t
    · rw [hut] at hu
      rw [hu] at hold
      cases hold
    · apply hnone u todo out
      rw [hpcs, update_of_ne hut, hu]
  · rw [hdisk, hpcs]
    exact (forall_update_iff s.pcs fun _ => WriterOk cfg s.disk).mpr
      ⟨writerOk_of_isReader hnew, fun u _ => hw.writers u⟩

theorem WritersOk.of_holder (hmem : MemOk s'.disk) (hmutex : s'.mutex = some t)
    (hpcs : s'.pcs = update s.pcs t pc') (hold : s.mutex = none ∨ (s.pcs t).holdsMutex = true)
    (hok : WriterOk cfg s'.disk pc')
    (hrest : (∀ todo out, pc' ≠ .storing todo out) → (∀ todo out, s.pcs t ≠ .storing todo out) ∧
      s'.disk = s.disk) : WritersOk cfg s' := by
  have hfree : ∀ u, u ≠ t → (s.pcs u).holdsMutex = false := by
    intro u hut
    rcases hold with hm | ht
    · exact hw.free_of_none hm u
    · rw [Bool.eq_false_iff]
      exact fun hu => hut (hw.eq_of_holds ht hu)
  refine ⟨hmem, ?_, ?_, ?_⟩
  · intro u hu
    by_cases hut : u = t
    · rw [hmutex, hut]
    · rw [hpcs, update_of_ne hut, hfree u hut] at hu
      cases hu
  · intro hnone
    have hpc' : ∀ todo out, pc' ≠ .storing todo out := by
      intro todo out hpc
      apply hnone t todo out
      rw [hpcs, update_self, hpc]
    obtain ⟨hpc, hdisk⟩ := hrest hpc'
    rw [hdisk]
    apply hw.atRest
    intro u todo out hu
    by_cases hut : u = t
    · exact hpc todo out (hut ▸ hu)
    · have := hfree u hut
      rw [hu] at this
      cases this
  · rw [hpcs]
    exact (forall_update_iff s.pcs fun _ => WriterOk cfg s'.disk).mpr
      ⟨hok, fun u hut => (hw.writers u).of_free (hfree u hut)⟩

theorem WritersOk.of_release (hdisk : s'.disk = s.disk) (hpcs : s'.pcs = update s.pcs t pc')
    (hold : (s.pcs t).holdsMutex = true) (hfree : pc'.holdsMutex = false)
    (hok : WriterOk cfg s.disk pc') (hrest : s.disk.version % 2 = 0 ∧
      (cfg.unlinkSupersededAlternates = true → Settled s.disk)) : WritersOk cfg s' := by
  refine ⟨hdisk ▸ hw.mem, ?_, fun _ => hdisk ▸ hrest, ?_⟩
  · intro u hu
    rw [hpcs] at hu
    by_cases hut : u = t
    · rw [hut, update_self, hfree] at hu
      cases hu
    · rw [update_of_ne hut] at hu
      exact absurd (hw.eq_of_holds hold hu) hut
  · rw [hpcs, hdisk]
    exact (forall_update_iff s.pcs fun _ => WriterOk cfg s.disk).mpr
      ⟨hok, fun u _ => hw.writers u⟩

theorem WritersOk.noProgram
    (h : s.mutex = none ∨ (s.pcs t).holdsMutex = true ∧ ∀ todo out, s.pcs t ≠ .storing todo out) :
    s.disk.version % 2 = 0 ∧ (cfg.unlinkSupersededAlternates = true → Settled s.disk) := by
  apply hw.atRest
  intro u todo out hu
  have huh := holds_at hu rfl
  rcases h with hm | ⟨ht, hns⟩
  · rw [hw.free_of_none hm u] at huh
    cases huh
  · have := hw.eq_of_holds ht huh
    rw [this] at hu
    exact hns todo out hu

end

theorem Starts.free_or_holds (h : Starts cfg s t pc p) (hpc : s.pcs t = pc) :
    s.mutex = none ∨ (s.pcs t).holdsMutex = true ∧ ∀ todo out, s.pcs t ≠ .storing todo out := by
  cases h with
  | remove p hm hp | removeAlternate id p hm hp | flushed len pass hm => exact .inl hm
  | _ =>
    refine .inr ⟨by rw [hpc]; rfl, fun todo out hs => ?_⟩
    rw [hpc] at hs
    cases hs

theorem WritersOk.starts (hw : WritersOk cfg s) (hpc : s.pcs t = pc) {p : Program}
    (h : Starts cfg s t pc p) : ProgramOk cfg p.out s.disk p.stores := by
  obtain ⟨hv, hs⟩ := hw.noProgram (h.free_or_holds hpc)
  have hok := hw.writers t
  rw [hpc] at hok
  cases h with
  | remove p hm hp => exact programOk_remove hv hs hp
  | removeAlternate id p hm hp => exact programOk_removeAlternate hw.mem hv hs hp
  | flushed len pass hm | write len => exact programOk_write hw.mem hv hs hok
  | alternate id len plan dropped pass hp =>
    have hplan : PlanOk cfg s.disk id plan := by
      rcases hp with hp | hp
      · exact .inl (hok.2.2.1 hp)
      · exact hok.2.2.2 hp.symm
    exact programOk_writeAlternate hw.mem hv hs hok.1 hplan
  | other shared evicts => exact programOk_other hv hs

theorem WritersOk.prepares (hw : WritersOk cfg s) (hpc : s.pcs t = pc) {m : Option Nat}
    (h : Prepares cfg s t pc m pc') : WritersOk cfg ({ s with mutex := m }.setPc t pc') := by
  have hok := hw.writers t
  rw [hpc] at hok
  have hidle : pc.isStoring = false → (∀ todo out, s.pcs t ≠ .storing todo out) := by
    intro hns todo out hs
    rw [← hpc, hs] at hns
    cases hns
  have hrest : pc.holdsMutex = true → pc.isStoring = false →
      s.disk.version % 2 = 0 ∧ (cfg.unlinkSupersededAlternates = true → Settled s.disk) := by
    intro hh hns
    exact hw.noProgram (.inr ⟨hpc ▸ hh, hidle hns⟩)
  cases h with
  | write len hm hlen | writeAlternate id len hm hlen =>
    exact hw.of_holder hw.mem rfl rfl (.inl hm) hlen fun _ => ⟨hidle rfl, rfl⟩
  | other shared evicts hm =>
    exact hw.of_holder hw.mem rfl rfl (.inl hm) trivial fun _ => ⟨hidle rfl, rfl⟩
  | planned id len keep plan dropped hplan =>
    have hh := holds_at hpc rfl
    obtain ⟨hpl, hret⟩ := planOk_planAlternate hw.mem hplan
    exact hw.of_holder hw.mem (hw.holder t hh) rfl (.inr hh)
      ⟨hok, le_rfl, hret, fun _ => hpl⟩ fun _ => ⟨hidle rfl, rfl⟩
  | replan id len plan dropped pass =>
    have hh := holds_at hpc rfl
    exact hw.of_holder hw.mem (hw.holder t hh) rfl (.inr hh) hok.1 fun _ => ⟨hidle rfl, rfl⟩
  | flush len =>
    exact hw.of_release rfl rfl (by rw [hpc]; rfl) rfl hok (hrest rfl rfl)
  | leavePlan id len | leaveSpace al =>
    exact hw.of_release rfl rfl (by rw [hpc]; rfl) rfl trivial (hrest rfl rfl)
  | start pc p hst =>
    have hhold : s.mutex = none ∨ (s.pcs t).holdsMutex = true :=
      (hst.free_or_holds hpc).imp_right And.left
    exact hw.of_holder hw.mem rfl rfl hhold (hw.starts hpc hst) fun hn =>
      absurd rfl (hn p.stores p.out)

theorem writerOk_wrap (h : WriterOk cfg d (.allocating al)) :
    WriterOk cfg (d.wrap cfg) (.allocating al) := by
  cases al with
  | write len => exact h
  | alternate id len plan dropped pass =>
    obtain ⟨hlen, hpass, hret, -⟩ := h
    refine ⟨hlen, Nat.le_succ_of_le hpass, fun hr => (hret hr).of_eq rfl rfl, ?_⟩
    intro heq
    change pass = d.pass + 1 at heq
    omega
  | other shared evicts => trivial

theorem writerOk_advance (h : WriterOk cfg d (.allocating al)) :
    WriterOk cfg (d.advance o) (.allocating al) := by
  cases al with
  | write len => exact h
  | alternate id len plan dropped pass =>
    obtain ⟨hlen, hpass, hret, hplan⟩ := h
    exact ⟨hlen, hpass, fun hr => (hret hr).of_eq rfl rfl, fun heq => (hplan heq).of_eq rfl rfl rfl⟩
  | other shared evicts => trivial

theorem WritersOk.of_pass (hw : WritersOk cfg s) (hpc : s.pcs t = .allocating al) (hmem : MemOk d')
    (hok : WriterOk cfg d' (.allocating al)) (hversion : d'.version = s.disk.version)
    (hsettled : Settled s.disk → Settled d') : WritersOk cfg { s with disk := d' } := by
  have hh := holds_at hpc rfl
  refine ⟨hmem, hw.holder, ?_, ?_⟩
  · intro hnone
    obtain ⟨hv, hs⟩ := hw.atRest hnone
    refine ⟨?_, fun hu => hsettled (hs hu)⟩
    change d'.version % 2 = 0
    rw [hversion]
    exact hv
  · intro u
    by_cases hut : u = t
    · change WriterOk cfg d' (s.pcs u)
      rw [hut, hpc]
      exact hok
    · apply (hw.writers u).of_free
      rw [Bool.eq_false_iff]
      exact fun hu => hut (hw.eq_of_holds hh hu)

theorem WritersOk.move (hw : WritersOk cfg s) (h : Move cfg s a s') : WritersOk cfg s' := by
  cases h with
  | call t c result hpc =>
    exact hw.of_free rfl rfl rfl (by rw [hpc]; rfl) beginCall_isReader
  | glance t a pc pc' hpc hg =>
    exact hw.of_free rfl rfl rfl (by rw [hpc]; exact hg.holdsMutex) hg.isReader
  | serve t pc ans hpc hs => exact hw.of_free rfl rfl rfl (by rw [hpc]; exact hs.holdsMutex) rfl
  | readDrop t f hpc hl | drop t r n hpc hl | undo t r n hpc hl | lock t r n hpc hl he =>
    exact hw.of_free rfl rfl rfl (by rw [hpc]; rfl) rfl
  | refuse t a r n hpc =>
    refine hw.of_free rfl rfl rfl ?_ rfl
    rcases hpc with hpc | hpc <;> rw [hpc] <;> rfl
  | insert t r n hpc => exact hw.of_free rfl rfl rfl (by rw [hpc]; rfl) rfl
  | prepare t a m pc pc' hpc hp => exact hw.prepares hpc hp
  | wrap t al hpc =>
    have hok := hw.writers t
    rw [hpc] at hok
    exact hw.of_pass hpc (hw.mem.wrap cfg) (writerOk_wrap hok) rfl fun hs => { hs with }
  | advance t o al hpc =>
    have hok := hw.writers t
    rw [hpc] at hok
    exact hw.of_pass hpc (hw.mem.advance o) (writerOk_advance hok) rfl fun hs => { hs with }
  | store t st todo out hpc hst | bump t todo out hpc =>
    obtain ⟨hpre, -, hrest⟩ := hw.programOk hpc
    have hh := holds_at hpc rfl
    exact hw.of_holder (hw.mem.exec hpre) (hw.holder t hh) rfl (.inr hh) hrest fun hn =>
      absurd rfl (hn todo out)
  | evict t target todo out hpc hl =>
    obtain ⟨-, -, hrest⟩ := hw.programOk hpc
    have hh := holds_at hpc rfl
    exact hw.of_holder hw.mem (hw.holder t hh) rfl (.inr hh) hrest fun hn =>
      absurd rfl (hn todo out)
  | finish t out hpc =>
    exact hw.of_release rfl rfl (by rw [hpc]; rfl) rfl trivial (hw.programOk hpc)
  | ramEvict id => exact ⟨hw.mem, hw.holder, hw.atRest, hw.writers⟩

theorem writersOk_opened (h : OpensOn cfg d) : WritersOk cfg (State.opened d) where
  mem := h.mem
  holder _ hu := nomatch hu
  atRest _ := ⟨h.even, h.settled⟩
  writers _ := trivial

end

end CycloneCache.Ref.Ram

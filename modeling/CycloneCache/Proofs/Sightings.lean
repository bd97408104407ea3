import CycloneCache.Ref.Sightings

namespace CycloneCache.Ref.Sightings

open Lib Function

variable {R W : Type}

structure Seen (s : State R W) (o : Observation) : Prop where
  odd : odd o.version
  steps : o.steps ≤ s.steps o.bucket
  version : s.version o.bucket = o.version + BitVec.ofNat 32 (s.steps o.bucket - o.steps)

structure Dated (s : State R W) (x : StuckBucketSighting) : Prop extends Seen s x.toObservation where
  holder : s.steps x.bucket = x.steps → s.acquired x.bucket ≤ x.firstSeen
  past : x.firstSeen ≤ s.clock

structure Later (s s' : State R W) : Prop where
  clock : s.clock ≤ s'.clock
  bucket : ∀ b,
    (s'.version b = s.version b ∧ s'.steps b = s.steps b ∧ s'.acquired b = s.acquired b) ∨
      (s'.version b = s.version b + 1 ∧ s'.steps b = s.steps b + 1)
  recorded : ∀ x ∈ s.recorded, x ∈ s'.recorded

variable {o : Observation} {s s' : State R W} {budget : Nat} {p : Reader}

theorem Seen.later (h : Seen s o) (hlater : Later s s') : Seen s' o := by
  refine ⟨h.odd, ?_, ?_⟩
  · have hsteps := h.steps
    rcases hlater.bucket o.bucket with ⟨-, hs, -⟩ | ⟨-, hs⟩ <;> omega
  · rcases hlater.bucket o.bucket with ⟨hv, hs, -⟩ | ⟨hv, hs⟩
    · rw [hv, hs, h.version]
    · have hsub : s.steps o.bucket + 1 - o.steps = s.steps o.bucket - o.steps + 1 :=
        Nat.sub_add_comm h.steps
      rw [hv, hs, h.version, hsub, BitVec.ofNat_add, BitVec.add_assoc]
      rfl

theorem Dated.later {x : StuckBucketSighting} (h : Dated s x) (hlater : Later s s') :
    Dated s' x := by
  refine ⟨h.toSeen.later hlater, fun hsteps => ?_, Nat.le_trans h.past hlater.clock⟩
  have hle := h.steps
  rcases hlater.bucket x.bucket with ⟨-, hs, ha⟩ | ⟨-, hs⟩
  · rw [ha]
    exact h.holder (hs ▸ hsteps)
  · omega

theorem Seen.unbroken (h : Seen s o) (hfew : s.steps o.bucket - o.steps < 2 ^ 31)
    (hsame : s.version o.bucket = o.version) : s.steps o.bucket = o.steps := by
  have hround := congrArg BitVec.toNat (h.version.symm.trans hsame)
  rw [BitVec.toNat_add, BitVec.toNat_ofNat] at hround
  have hlt := o.version.isLt
  have hsteps := h.steps
  omega

structure Justified (budget : Nat) (s : State R W) (o : Observation) (x : StuckBucketSighting) :
    Prop where
  dated : Dated s x
  recorded : x ∈ s.recorded
  bucket : x.bucket = o.bucket
  version : x.version = o.version
  old : x.firstSeen + budget ≤ s.clock

theorem Justified.later {x : StuckBucketSighting} (h : Justified budget s o x) (hlater : Later s s') :
    Justified budget s' o x :=
  ⟨h.dated.later hlater, hlater.recorded x h.recorded, h.bucket, h.version,
    Nat.le_trans h.old hlater.clock⟩

def Reader.Ok (budget : Nat) (s : State R W) : Reader → Prop
  | .idle _ => True
  | .called o => Seen s o
  | .entered o => Seen s o
  | .looked o now => Dated s ⟨o, now⟩
  | .scanned o now known place =>
    Dated s ⟨o, now⟩ ∧
      (known = true → ∃ x, s.sightings[place]? = some x ∧ x.version ≠ 0 ∧ x.bucket = o.bucket)
  | .noted _ none => True
  | .noted o (some x) => Justified budget s o x
  | .recovering o x => Justified budget s o x

def Reader.inside : Reader → Bool
  | .entered _ | .looked _ _ | .scanned _ _ _ _ | .noted _ _ => true
  | .idle _ | .called _ | .recovering _ _ => false

theorem Reader.Ok.later (h : p.Ok budget s) (hlater : Later s s')
    (hsame : p.inside = true → s'.sightings = s.sightings) : p.Ok budget s' := by
  match p, h with
  | .idle _, _ => trivial
  | .called o, h | .entered o, h => exact Seen.later h hlater
  | .looked o now, h => exact Dated.later h hlater
  | .scanned o now known place, h =>
    refine ⟨h.1.later hlater, ?_⟩
    rw [hsame rfl]
    exact h.2
  | .noted _ none, _ => trivial
  | .noted o (some x), h | .recovering o x, h => exact Justified.later h hlater

theorem scan_known {bucket : Nat} {table : List StuckBucketSighting} {start place : Nat}
    {victim : Nat × StuckBucketSighting} (h : scan bucket table start victim = (true, place)) :
    ∃ i x, place = start + i ∧ table[i]? = some x ∧ x.version ≠ 0 ∧ x.bucket = bucket := by
  induction table generalizing start victim with
  | nil => cases h
  | cons s rest ih =>
    rw [scan] at h
    split at h
    next hmine =>
      cases h
      exact ⟨0, s, rfl, rfl, hmine.1, hmine.2⟩
    next =>
      have hrest : ∃ i x, place = start + 1 + i ∧ rest[i]? = some x ∧ x.version ≠ 0 ∧
          x.bucket = bucket := by
        split at h <;> exact ih h
      obtain ⟨i, x, hplace, hx⟩ := hrest
      exact ⟨i + 1, x, by omega, hx⟩

structure Inv (budget : Nat) (s : State R W) : Prop where
  acquired : ∀ b, s.acquired b ≤ s.clock
  sightings : ∀ x ∈ s.sightings, x.version ≠ 0 → Dated s x ∧ x ∈ s.recorded
  reader : ∀ r, (s.reader r).Ok budget s
  busy : ∀ r, (s.reader r).inside = true → s.sightingsBusy = true
  alone : ∀ r r', (s.reader r).inside = true → (s.reader r').inside = true → r = r'

theorem Inv.initial (h : s.Initial) : Inv budget s where
  acquired := h.acquired
  sightings := by
    intro x hx hused
    rw [h.sightings] at hx
    exact absurd (congrArg (fun y => y.version) (List.eq_of_mem_replicate hx)) hused
  reader := by
    intro r
    rw [h.reader]
    trivial
  busy := by
    intro r hr
    rw [h.reader] at hr
    cases hr
  alone := by
    intro r r' hr
    rw [h.reader] at hr
    cases hr

section

variable (h : Inv budget s)
include h

theorem Inv.outer (hlater : Later s s') (hreader : s'.reader = s.reader)
    (hsightings : s'.sightings = s.sightings) (hbusy : s'.sightingsBusy = s.sightingsBusy)
    (hacquired : ∀ b, s'.acquired b ≤ s'.clock) : Inv budget s' where
  acquired := hacquired
  sightings := by
    intro x hx hused
    rw [hsightings] at hx
    obtain ⟨hdated, hrec⟩ := h.sightings x hx hused
    exact ⟨hdated.later hlater, hlater.recorded x hrec⟩
  reader := by
    intro r
    rw [hreader]
    exact (h.reader r).later hlater fun _ => hsightings
  busy := by
    intro r hr
    rw [hbusy]
    exact h.busy r (hreader ▸ hr)
  alone := by
    intro r r' hr hr'
    exact h.alone r r' (hreader ▸ hr) (hreader ▸ hr')

theorem Inv.move [DecidableEq R] {r : R} (hlater : Later s s')
    (hreader : s'.reader = update s.reader r p) (hacquired : s'.acquired = s.acquired)
    (hok : p.Ok budget s')
    (hsightings : ∀ x ∈ s'.sightings, x.version ≠ 0 → Dated s' x ∧ x ∈ s'.recorded)
    (hbusy : p.inside = true → s'.sightingsBusy = true)
    (hout : (s.reader r).inside = false → s'.sightings = s.sightings ∧
      (p.inside = true → s.sightingsBusy = false) ∧
      (s.sightingsBusy = true → s'.sightingsBusy = true)) : Inv budget s' := by
  have hother : ∀ r', r' ≠ r → s'.reader r' = s.reader r' := fun r' hne => by
    rw [hreader, update_of_ne hne]
  have hself : s'.reader r = p := by rw [hreader, update_self]
  -- while another reader is inside, this one is outside
  have hexclusive : ∀ r', r' ≠ r → (s.reader r').inside = true → (s.reader r).inside = false := by
    intro r' hne hr'
    rw [Bool.eq_false_iff]
    exact fun hr => hne (h.alone r' r hr' hr)
  have hkeptOut : ∀ r', r' ≠ r → (s.reader r').inside = true → p.inside = false := by
    intro r' hne hr'
    rw [Bool.eq_false_iff]
    intro hp
    have hfree := (hout (hexclusive r' hne hr')).2.1 hp
    rw [h.busy r' hr'] at hfree
    cases hfree
  refine ⟨fun b => ?_, hsightings, fun r' => ?_, fun r' hr' => ?_, fun r₁ r₂ h₁ h₂ => ?_⟩
  · rw [hacquired]
    exact Nat.le_trans (h.acquired b) hlater.clock
  · by_cases hne : r' = r
    · rw [hne, hself]
      exact hok
    · rw [hother r' hne]
      exact (h.reader r').later hlater fun hr' => (hout (hexclusive r' hne hr')).1
  · by_cases hne : r' = r
    · rw [hne, hself] at hr'
      exact hbusy hr'
    · rw [hother r' hne] at hr'
      exact (hout (hexclusive r' hne hr')).2.2 (h.busy r' hr')
  · by_cases hne₁ : r₁ = r <;> by_cases hne₂ : r₂ = r
    · rw [hne₁, hne₂]
    · rw [hne₁, hself] at h₁
      rw [hother r₂ hne₂] at h₂
      rw [hkeptOut r₂ hne₂ h₂] at h₁
      cases h₁
    · rw [hne₂, hself] at h₂
      rw [hother r₁ hne₁] at h₁
      rw [hkeptOut r₁ hne₁ h₁] at h₂
      cases h₂
    · rw [hother r₁ hne₁] at h₁
      rw [hother r₂ hne₂] at h₂
      exact h.alone r₁ r₂ h₁ h₂

theorem Inv.moveInside [DecidableEq R] {r : R} (hinside : (s.reader r).inside = true)
    (hlater : Later s s') (hreader : s'.reader = update s.reader r p)
    (hacquired : s'.acquired = s.acquired) (hok : p.Ok budget s')
    (hsightings : ∀ x ∈ s'.sightings, x.version ≠ 0 → Dated s' x ∧ x ∈ s'.recorded)
    (hbusy : p.inside = true → s'.sightingsBusy = s.sightingsBusy) : Inv budget s' := by
  refine h.move hlater hreader hacquired hok hsightings (fun hp => ?_) fun hout => ?_
  · rw [hbusy hp]
    exact h.busy r hinside
  · rw [hinside] at hout
    cases hout

theorem Inv.table (hlater : Later s s')
    (hnew : ∀ x ∈ s'.sightings, x.version ≠ 0 → x ∈ s.sightings ∨ (Dated s' x ∧ x ∈ s'.recorded)) :
    ∀ x ∈ s'.sightings, x.version ≠ 0 → Dated s' x ∧ x ∈ s'.recorded := by
  intro x hx hused
  rcases hnew x hx hused with hold | hwritten
  · obtain ⟨hdated, hrec⟩ := h.sightings x hold hused
    exact ⟨hdated.later hlater, hlater.recorded x hrec⟩
  · exact hwritten

end

theorem Later.quiet (hclock : s'.clock = s.clock) (hversion : s'.version = s.version)
    (hsteps : s'.steps = s.steps) (hacquired : s'.acquired = s.acquired)
    (hrecorded : ∀ x ∈ s.recorded, x ∈ s'.recorded) : Later s s' := by
  refine ⟨Nat.le_of_eq hclock.symm, fun b => .inl ⟨?_, ?_, ?_⟩, hrecorded⟩
  · rw [hversion]
  · rw [hsteps]
  · rw [hacquired]

theorem later_exchange (s : State R W) (bucket : Nat) (expected : BitVec 32) :
    Later s (s.exchange bucket expected (expected + 1)) := by
  rw [State.exchange]
  split
  next hsame =>
    refine ⟨Nat.le_refl _, fun b => ?_, fun _ hx => hx⟩
    by_cases hb : b = bucket
    · right
      subst hb hsame
      exact ⟨update_self .., update_self ..⟩
    · left
      exact ⟨update_of_ne hb .., update_of_ne hb .., rfl⟩
  next => exact Later.quiet rfl rfl rfl rfl fun _ hx => hx

theorem exchange_rest (s : State R W) (bucket : Nat) (expected desired : BitVec 32) :
    (s.exchange bucket expected desired).reader = s.reader ∧
      (s.exchange bucket expected desired).sightings = s.sightings ∧
      (s.exchange bucket expected desired).sightingsBusy = s.sightingsBusy ∧
      (s.exchange bucket expected desired).acquired = s.acquired ∧
      (s.exchange bucket expected desired).clock = s.clock := by
  rw [State.exchange]
  split <;> exact ⟨rfl, rfl, rfl, rfl, rfl⟩

theorem Inv.exchange (h : Inv budget s) (bucket : Nat) (expected : BitVec 32) :
    Inv budget (s.exchange bucket expected (expected + 1)) := by
  obtain ⟨hreader, hsightings, hbusy, hacquired, hclock⟩ :=
    exchange_rest s bucket expected (expected + 1)
  refine h.outer (later_exchange s bucket expected) hreader hsightings hbusy fun b => ?_
  rw [hacquired, hclock]
  exact h.acquired b

theorem Inv.acquire [DecidableEq W] (h : Inv budget s) (w : W) (bucket : Nat) :
    Inv budget { s.exchange bucket (s.version bucket) (s.version bucket + 1) with
      writer := update s.writer w (some (bucket, s.version bucket))
      acquired := update s.acquired bucket s.clock } := by
  have hpos : s.exchange bucket (s.version bucket) (s.version bucket + 1) = { s with
        version := update s.version bucket (s.version bucket + 1)
        steps := update s.steps bucket (s.steps bucket + 1) } := if_pos rfl
  rw [hpos]
  refine h.outer ⟨Nat.le_refl _, fun b => ?_, fun _ hx => hx⟩ rfl rfl rfl fun b => ?_
  · by_cases hb : b = bucket
    · right
      subst hb
      exact ⟨update_self .., update_self ..⟩
    · left
      exact ⟨update_of_ne hb .., update_of_ne hb .., update_of_ne hb ..⟩
  · by_cases hb : b = bucket
    · subst hb
      exact Nat.le_of_eq (update_self ..)
    · exact Nat.le_trans (Nat.le_of_eq (update_of_ne hb ..)) (h.acquired b)

section Readers

variable [DecidableEq R] {budget : Nat} {o : Observation} {r : R} {s s' : State R W}

theorem Inv.record {now place : Nat} {known : Bool} (h : Inv budget s)
    (hr : s.reader r = .scanned o now known place) :
    Inv budget ((s.record place ⟨o, now⟩).goto r (.noted o none)) := by
  have hinside : (s.reader r).inside = true := by rw [hr]; rfl
  have hdated : Dated s ⟨o, now⟩ := by
    have hok := h.reader r
    rw [hr] at hok
    exact hok.1
  have hlater : Later s ((s.record place ⟨o, now⟩).goto r (.noted o none)) :=
    Later.quiet rfl rfl rfl rfl fun _ hx => List.mem_cons_of_mem _ hx
  refine h.moveInside hinside hlater rfl rfl trivial (h.table hlater ?_) fun _ => rfl
  intro x hx _
  rcases List.mem_or_eq_of_mem_set hx with hold | rfl
  · exact .inl hold
  · exact .inr ⟨hdated.later hlater, List.mem_cons_self⟩

theorem Inv.note {now place : Nat} {known : Bool} (h : Inv budget s)
    (hr : s.reader r = .scanned o now known place) :
    Inv budget (note budget s r o now known place) := by
  have hinside : (s.reader r).inside = true := by rw [hr]; rfl
  have hok := h.reader r
  rw [hr] at hok
  rw [Sightings.note]
  dsimp only
  split
  · exact h.record hr
  next hknown =>
    split
    · exact h.record hr
    next hversion =>
      obtain ⟨x, hx, hused, hbucket⟩ := hok.2 (by simpa using hknown)
      have hget : s.sightings.getD place .unused = x := by
        rw [List.getD_eq_getElem?_getD, hx]
        rfl
      rw [hget] at hversion ⊢
      obtain ⟨hdated, hrec⟩ := h.sightings x (List.mem_of_getElem? hx) hused
      split
      next hold =>
        have hlater : Later s { s.goto r (.noted o (some x)) with
            sightings := s.sightings.set place .unused } :=
          Later.quiet rfl rfl rfl rfl fun _ hx => hx
        refine h.moveInside hinside hlater rfl rfl ?_ (h.table hlater ?_) fun _ => rfl
        · have hpast : now ≤ s.clock := hok.1.past
          exact ⟨hdated.later hlater, hrec, hbucket, not_not.mp hversion, Nat.le_trans hold hpast⟩
        · intro y hy hused'
          rcases List.mem_or_eq_of_mem_set hy with hkept | rfl
          · exact .inl hkept
          · exact absurd rfl hused'
      next =>
        have hlater : Later s (s.goto r (.noted o none)) :=
          Later.quiet rfl rfl rfl rfl fun _ hx => hx
        exact h.moveInside hinside hlater rfl rfl trivial
          (h.table hlater fun _ hx _ => .inl hx) fun _ => rfl

theorem later_goto (s : State R W) (r : R) (p : Reader) (busy : Bool) :
    Later s { s.goto r p with sightingsBusy := busy } :=
  Later.quiet rfl rfl rfl rfl fun _ hx => hx

section

variable (h : Inv budget s)
include h

theorem Inv.goInside {p : Reader} (hinside : (s.reader r).inside = true) (hok : p.Ok budget s)
    {busy : Bool} (hbusy : p.inside = true → busy = s.sightingsBusy) :
    Inv budget { s.goto r p with sightingsBusy := busy } := by
  have hlater := later_goto s r p busy
  exact h.moveInside hinside hlater rfl rfl (hok.later hlater fun _ => rfl)
    (h.table hlater fun _ hx _ => .inl hx) hbusy

theorem Inv.goOutside {p : Reader} (hok : p.Ok budget s) (hout : p.inside = false) :
    Inv budget (s.goto r p) := by
  have hlater := later_goto s r p s.sightingsBusy
  refine h.move hlater rfl rfl (hok.later hlater fun _ => rfl)
    (h.table hlater fun _ hx _ => .inl hx) (fun hin => ?_) fun _ => ⟨rfl, fun hin => ?_, fun hb => hb⟩
  · rw [hout] at hin
    cases hin
  · rw [hout] at hin
    cases hin

theorem Inv.enter (hseen : Seen s o) (hclear : s.sightingsBusy = false) :
    Inv budget { s.goto r (.entered o) with sightingsBusy := true } := by
  have hlater := later_goto s r (.entered o) true
  exact h.move hlater rfl rfl (hseen.later hlater) (h.table hlater fun _ hx _ => .inl hx)
    (fun _ => rfl) fun _ => ⟨rfl, fun _ => hclear, fun _ => rfl⟩

theorem Inv.proceed (hstep : proceed budget s r = some s') : Inv budget s' := by
  have hok := h.reader r
  rw [Sightings.proceed] at hstep
  split at hstep
  next => cases hstep
  next o hr =>
    rw [hr] at hok
    cases hstep
    split
    next => exact h.goOutside trivial rfl
    next hclear => exact h.enter hok (Bool.eq_false_iff.mpr hclear)
  next o hr =>
    rw [hr] at hok
    cases hstep
    have hdated : Dated s ⟨o, s.clock⟩ := ⟨hok, fun _ => h.acquired o.bucket, Nat.le_refl _⟩
    have hinside : (s.reader r).inside = true := by rw [hr]; rfl
    exact h.goInside (p := .looked o s.clock) hinside hdated fun _ => rfl
  next o now hr =>
    rw [hr] at hok
    rcases hscan : scan o.bucket s.sightings 0 (0, s.sightings.getD 0 .unused) with ⟨known, place⟩
    rw [hscan] at hstep
    cases hstep
    have hscanned : Reader.Ok budget s (.scanned o now known place) := by
      refine ⟨hok, fun hknown => ?_⟩
      subst hknown
      obtain ⟨i, x, hplace, hx⟩ := scan_known hscan
      rw [Nat.zero_add] at hplace
      exact ⟨x, hplace ▸ hx⟩
    have hinside : (s.reader r).inside = true := by rw [hr]; rfl
    exact h.goInside hinside hscanned fun _ => rfl
  next o now known place hr =>
    cases hstep
    exact h.note hr
  next o hr =>
    cases hstep
    have hinside : (s.reader r).inside = true := by rw [hr]; rfl
    exact h.goInside (p := .idle (some false)) hinside trivial nofun
  next o x hr =>
    rw [hr] at hok
    cases hstep
    have hinside : (s.reader r).inside = true := by rw [hr]; rfl
    exact h.goInside (p := .recovering o x) hinside hok nofun
  next o x hr =>
    cases hstep
    exact (h.exchange o.bucket o.version).goOutside trivial rfl

theorem Inv.step [DecidableEq W] {l : Label R W} (hstep : step budget s l = some s') :
    Inv budget s' := by
  cases l with rw [Sightings.step] at hstep
  | tick passed =>
    cases hstep
    have hlater : Later s { s with clock := s.clock + passed } :=
      ⟨Nat.le_add_right _ _, fun _ => .inl ⟨rfl, rfl, rfl⟩, fun _ hx => hx⟩
    exact h.outer hlater rfl rfl rfl fun b => Nat.le_trans (h.acquired b) (Nat.le_add_right _ _)
  | acquire w bucket =>
    split at hstep <;> cases hstep
    exact h.acquire w bucket
  | release w =>
    split at hstep
    · cases hstep
    next bucket token hw =>
      have hnext : token + 2 = token + 1 + 1 := by rw [BitVec.add_assoc]; rfl
      rw [hnext] at hstep
      cases hstep
      have hinv := h.exchange bucket (token + 1)
      have hlater : Later (s.exchange bucket (token + 1) (token + 1 + 1))
          { s.exchange bucket (token + 1) (token + 1 + 1) with
            writer := update s.writer w none } :=
        Later.quiet rfl rfl rfl rfl fun _ hx => hx
      exact hinv.outer hlater rfl rfl rfl hinv.acquired
  | usurp bucket version =>
    split at hstep <;> cases hstep
    exact h.exchange bucket version
  | observe r bucket =>
    split at hstep
    next answer hr =>
      split at hstep <;> cases hstep
      next hodd =>
      refine h.goOutside ⟨hodd, Nat.le_refl _, ?_⟩ rfl
      show s.version bucket = s.version bucket + BitVec.ofNat 32 (s.steps bucket - s.steps bucket)
      rw [Nat.sub_self]
      exact (BitVec.add_zero _).symm
    next => cases hstep
  | proceed r => exact h.proceed hstep

end

theorem proceed_forces {bucket : Nat} (hstep : proceed budget s r = some s')
    (hforced : s'.version bucket ≠ s.version bucket) :
    ∃ o x, s.reader r = .recovering o x ∧ bucket = o.bucket ∧ s.version bucket = o.version ∧
      s'.version bucket = o.version + 1 := by
  rw [Sightings.proceed] at hstep
  split at hstep
  next => cases hstep
  next o hr =>
    cases hstep
    split at hforced <;> exact absurd rfl hforced
  next => cases hstep; exact absurd rfl hforced
  next => cases hstep; exact absurd rfl hforced
  next o now known place hr =>
    cases hstep
    have hsame : (note budget s r o now known place).version = s.version := by
      rw [Sightings.note]
      dsimp only
      split
      · rfl
      · split
        · rfl
        · split <;> rfl
    exact absurd (congrFun hsame bucket) hforced
  next => cases hstep; exact absurd rfl hforced
  next => cases hstep; exact absurd rfl hforced
  next o x hr =>
    cases hstep
    change (s.exchange o.bucket o.version (o.version + 1)).version bucket ≠ _ at hforced
    show ∃ o' x', _ ∧ _ ∧ _ ∧ (s.exchange o.bucket o.version (o.version + 1)).version bucket = _
    rw [State.exchange] at hforced ⊢
    split at hforced
    next hfound =>
      rw [if_pos hfound]
      have hb : bucket = o.bucket := by
        by_contra hne
        exact hforced (update_of_ne hne ..)
      subst hb
      exact ⟨o, x, hr, rfl, hfound, update_self ..⟩
    next => exact absurd rfl hforced

/-- When a reader's step changes the version of a bucket, it changes an odd one
to the next, which some call had recorded the whole budget before; and if the
counter cannot have come round, nobody has acquired the bucket for as long. -/
theorem readers_recover_only_stuck [DecidableEq W] {budget : Nat} {s₀ s s' : State R W}
    {labels : List (Label R W)} {r : R} {bucket : Nat} (hinit : s₀.Initial)
    (hrun : runs (step budget) s₀ labels = some s)
    (hstep : step budget s (.proceed r) = some s')
    (hforced : s'.version bucket ≠ s.version bucket) :
    odd (s.version bucket) ∧ s'.version bucket = s.version bucket + 1 ∧
      (∃ x ∈ s.recorded, x.bucket = bucket ∧ x.version = s.version bucket ∧
        x.firstSeen + budget ≤ s.clock) ∧
      (s.FewSteps → s.acquired bucket + budget ≤ s.clock) := by
  have hinv : Inv budget s := runs_inv (fun _ _ _ h hl => h.step hl) hrun (Inv.initial hinit)
  obtain ⟨o, x, hr, rfl, hversion, hnext⟩ := proceed_forces hstep hforced
  have hjustified := hinv.reader r
  rw [hr] at hjustified
  obtain ⟨hdated, hrec, hbucket, hx, hold⟩ := hjustified
  refine ⟨?_, by rw [hnext, hversion], ⟨x, hrec, hbucket, by rw [hx, hversion], hold⟩, ?_⟩
  · rw [hversion, ← hx]
    exact hdated.odd
  · intro hfew
    have hsteps : s.steps x.bucket = x.steps := by
      apply hdated.unbroken (hfew x (.inr ⟨r, o, .inr hr⟩))
      rw [hbucket, hversion, hx]
    have hacquired := hdated.holder hsteps
    rw [hbucket] at hacquired
    exact Nat.le_trans (Nat.add_le_add_right hacquired budget) hold

end Readers

def start : State Bool Unit where
  version := fun _ => 0
  clock := 0
  writer := fun _ => none
  sightingsBusy := false
  sightings := List.replicate kStuckBucketSightings .unused
  reader := fun _ => .idle none
  steps := fun _ => 0
  acquired := fun _ => 0
  recorded := []

theorem start_initial : start.Initial where
  writer := nofun
  reader := fun _ => rfl
  sightingsBusy := rfl
  sightings := rfl
  acquired := fun _ => Nat.le_refl _
  recorded := rfl

def stuck : List (Label Bool Unit) :=
  [.acquire () 5, .observe false 5] ++ List.replicate 5 (.proceed false) ++
    [.tick 250, .observe true 5] ++ List.replicate 5 (.proceed true)

/-- The second reader forces the bucket, 250 ms after it was acquired. -/
theorem readers_recover_only_stuck_dead :
    ∃ s s', runs (step 250) start stuck = some s ∧ step 250 s (.proceed true) = some s' ∧
      s'.version 5 = s.version 5 + 1 ∧ s.acquired 5 + 250 ≤ s.clock := by
  obtain ⟨s, hrun, s', hstep, hforced, hunused, hfirst, hsecond, hsteps⟩ : ∃ s,
      runs (step 250) start stuck = some s ∧ ∃ s', step 250 s (.proceed true) = some s' ∧
        s'.version 5 ≠ s.version 5 ∧ (∀ x ∈ s.sightings, x = .unused) ∧
        s.reader false = .idle (some false) ∧
        s.reader true = .recovering ⟨5, 1, 1⟩ ⟨⟨5, 1, 1⟩, 0⟩ ∧ s.steps 5 = 1 := by decide +kernel
  have hfew : s.FewSteps := by
    rintro x (⟨hx, hused⟩ | ⟨r, o, hr⟩)
    · exact absurd (congrArg (fun y => y.version) (hunused x hx)) hused
    · cases r with
      | false =>
        rw [hfirst] at hr
        rcases hr with hr | hr <;> cases hr
      | true =>
        rw [hsecond] at hr
        rcases hr with hr | hr <;> cases hr
        show s.steps 5 - 1 < 2 ^ 31
        omega
  obtain ⟨-, hnext, -, hlong⟩ := readers_recover_only_stuck start_initial hrun hstep hforced
  exact ⟨s, s', hrun, hstep, hnext, hlong hfew⟩

end CycloneCache.Ref.Sightings

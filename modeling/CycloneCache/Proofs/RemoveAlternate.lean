import CycloneCache.Proofs.ReadBack
import CycloneCache.Proofs.Walks

namespace CycloneCache.Ref.Volume

open Lib Function

def linkAt (m : Memory) (o : Nat) : Nat := (Document.deserialize m o).nextAlternateOffset

def infoAt (m : Memory) (cls : AdmitClass) (o : Nat) : AltInfo :=
  let d := Document.deserialize m o
  ⟨o, cls, d.fillSerial, d.alternateId, d.totalLen⟩

structure Visible (env : Env) (m : Memory) (snap : StripeSnapshot) (key : CacheKey)
    (cls : AdmitClass) (o : Nat) (followed : Option Nat) : Prop where
  mapped : (env.mapDocument m o kMapOverhead).isSome = true
  key : (Document.deserialize m o).firstKey = key.toNat
  shape : (Document.deserialize m o).hasVolumeShape = true
  stamp : env.stripe.stampAdmits snap cls (Document.deserialize m o).writeSerial = true
  bound : ∀ link, followed = some link → (Document.deserialize m o).boundByLink link = true

inductive ChainFrom (env : Env) (m : Memory) (snap : StripeSnapshot) (key : CacheKey)
    (cls : AdmitClass) : Nat → Option Nat → List AltInfo → Prop
  | last {o : Nat} {followed : Option Nat} (hvisible : Visible env m snap key cls o followed)
      (hend : Document.linkOffset (linkAt m o) = 0) :
      ChainFrom env m snap key cls o followed [infoAt m cls o]
  | hop {o : Nat} {followed : Option Nat} {l : List AltInfo}
      (hvisible : Visible env m snap key cls o followed)
      (hadm : env.stripe.admitHop (Document.linkOffset (linkAt m o)) o cls snap = cls)
      (hrest : ChainFrom env m snap key cls (Document.linkOffset (linkAt m o))
        (some (linkAt m o)) l) :
      ChainFrom env m snap key cls o followed (infoAt m cls o :: l)

section Chain

variable {env : Env} {m m' : Memory} {snap : StripeSnapshot} {key : CacheKey}
  {cls : AdmitClass} {o : Nat} {followed : Option Nat} {l l₁ l₂ : List AltInfo}
  {id : Nat} {n : AltInfo}

theorem Visible.any_unbound (h : Visible env m snap key cls o followed) :
    followed.any (fun link => !(Document.deserialize m o).boundByLink link) = false := by
  cases followed with
  | none => rfl
  | some link => simp [h.bound link rfl]

variable {fuel : Nat}

theorem walkAlternates_visible (h : Visible env m snap key cls o followed) :
    env.walkAlternates m snap key (fuel + 1) o cls followed = infoAt m cls o ::
        if Document.linkOffset (linkAt m o) = 0 ∨
          env.stripe.admitHop (Document.linkOffset (linkAt m o)) o cls snap = .kReject then []
        else env.walkAlternates m snap key fuel (Document.linkOffset (linkAt m o))
          (env.stripe.admitHop (Document.linkOffset (linkAt m o)) o cls snap)
          (some (linkAt m o)) := by
  rw [Env.walkAlternates]
  simp only [Option.isNone_eq_false_iff.mpr h.mapped, h.key, h.shape, h.stamp, h.any_unbound,
    Bool.not_true, ne_eq, not_true_eq_false, Bool.false_eq_true, or_self, if_false]
  rfl

theorem visible_of_walk (h : env.walkAlternates m snap key (fuel + 1) o cls followed ≠ []) :
    Visible env m snap key cls o followed := by
  rw [Env.walkAlternates] at h
  simp only at h
  split at h
  · exact absurd rfl h
  · next hok =>
    simp only [not_or, Bool.not_eq_true, Option.isNone_eq_false_iff, ne_eq, Decidable.not_not,
      Bool.not_eq_false'] at hok
    obtain ⟨hmapped, hkey, hshape, hstamp, hbound⟩ := hok
    refine ⟨hmapped, hkey, hshape, hstamp, fun link hlink => ?_⟩
    rw [hlink] at hbound
    simpa using hbound

theorem ne_zero_of_hop {target source : Nat} (hcls : cls ≠ .kReject)
    (hadm : env.stripe.admitHop target source cls snap = cls) : target ≠ 0 := by
  cases cls with
  | kReject => exact absurd rfl hcls
  | kCurrent => exact (Stripe.admitHop_kCurrent.mp hadm).1
  | kRetained => exact (Stripe.admitHop_kRetained.mp hadm).1

theorem ChainFrom.walk (hcls : cls ≠ .kReject) (h : ChainFrom env m snap key cls o followed l)
    (hfuel : l.length ≤ fuel) : env.walkAlternates m snap key fuel o cls followed = l := by
  induction h generalizing fuel with
  | last hvisible hend =>
    cases fuel with
    | zero => cases hfuel
    | succ fuel => rw [walkAlternates_visible hvisible, if_pos (.inl hend)]
  | @hop o followed l hvisible hadm _ ih =>
    cases fuel with
    | zero => cases hfuel
    | succ fuel =>
      have hgo : ¬ (Document.linkOffset (linkAt m o) = 0 ∨
          env.stripe.admitHop (Document.linkOffset (linkAt m o)) o cls snap = .kReject) := by
        rw [not_or]
        exact ⟨ne_zero_of_hop hcls hadm, hadm.trans_ne hcls⟩
      rw [walkAlternates_visible hvisible, if_neg hgo, hadm, ih (Nat.le_of_succ_le_succ hfuel)]

theorem chainFrom_of_walk (h : env.walkAlternates m snap key fuel o cls followed = l) (hne : l ≠ [])
    (hend : ∀ n, l.getLast? = some n → Document.linkOffset (linkAt m n.offset) = 0) :
    ChainFrom env m snap key cls o followed l := by
  induction fuel generalizing o followed l with
  | zero =>
    rw [Env.walkAlternates] at h
    exact absurd h.symm hne
  | succ fuel ih =>
    have hvisible := visible_of_walk (h ▸ hne)
    rw [walkAlternates_visible hvisible] at h
    generalize hrest : (if Document.linkOffset (linkAt m o) = 0 ∨
        env.stripe.admitHop (Document.linkOffset (linkAt m o)) o cls snap = .kReject then []
      else env.walkAlternates m snap key fuel (Document.linkOffset (linkAt m o))
        (env.stripe.admitHop (Document.linkOffset (linkAt m o)) o cls snap)
        (some (linkAt m o))) = rest at h
    subst h
    cases rest with
    | nil => exact .last hvisible (hend (infoAt m cls o) List.getLast?_singleton)
    | cons n ns =>
      split at hrest
      · cases hrest
      · next hgo =>
        have hadm := (admitHop_inRegion (not_or.mp hgo).2).1
        rw [hadm] at hrest
        refine .hop hvisible hadm (ih hrest (List.cons_ne_nil _ _) fun x hx => hend x ?_)
        rw [List.getLast?_cons_cons]
        exact hx

theorem ChainFrom.start (h : ChainFrom env m snap key cls o followed l) :
    Visible env m snap key cls o followed ∧ ∃ rest, l = infoAt m cls o :: rest := by
  cases h with
  | last hvisible _ => exact ⟨hvisible, [], rfl⟩
  | hop hvisible _ _ => exact ⟨hvisible, _, rfl⟩

theorem ChainFrom.unlinked (h : ChainFrom env m snap key cls o followed l) :
    ChainFrom env m snap key cls o none l := by
  cases h with
  | last hvisible hend => exact .last { hvisible with bound := nofun } hend
  | hop hvisible hadm hrest => exact .hop { hvisible with bound := nofun } hadm hrest

theorem ChainFrom.hop_inv {x : AltInfo} (h : ChainFrom env m snap key cls o followed (x :: l))
    (hne : l ≠ []) : x = infoAt m cls o ∧ Visible env m snap key cls o followed ∧
      env.stripe.admitHop (Document.linkOffset (linkAt m o)) o cls snap = cls ∧
      ChainFrom env m snap key cls (Document.linkOffset (linkAt m o)) (some (linkAt m o)) l := by
  cases h with
  | last _ _ => exact absurd rfl hne
  | hop hvisible hadm hrest => exact ⟨rfl, hvisible, hadm, hrest⟩

theorem ChainFrom.suffix (h : ChainFrom env m snap key cls o followed (l₁ ++ n :: l₂)) :
    ∃ via, ChainFrom env m snap key cls n.offset via (n :: l₂) := by
  induction l₁ generalizing o followed with
  | nil =>
    obtain ⟨-, rest, hl⟩ := h.start
    obtain ⟨rfl, -⟩ := List.cons.inj hl
    exact ⟨followed, h⟩
  | cons x l₁ ih =>
    obtain ⟨-, -, -, hrest⟩ := h.hop_inv (by simp)
    exact ih hrest

theorem ChainFrom.eq_infoAt (h : ChainFrom env m snap key cls o followed l) (hn : n ∈ l) :
    n = infoAt m cls n.offset := by
  obtain ⟨l₁, l₂, rfl⟩ := List.append_of_mem hn
  obtain ⟨via, hfrom⟩ := h.suffix
  obtain ⟨-, rest, hl⟩ := hfrom.start
  exact (List.cons.inj hl).1

theorem ChainFrom.visible (h : ChainFrom env m snap key cls o followed l) (hn : n ∈ l) :
    ∃ via, Visible env m snap key cls n.offset via := by
  obtain ⟨l₁, l₂, rfl⟩ := List.append_of_mem hn
  obtain ⟨via, hfrom⟩ := h.suffix
  exact ⟨via, hfrom.start.1⟩

theorem ChainFrom.inRegion (hcls : cls ≠ .kReject) (h : ChainFrom env m snap key cls o followed l)
    (hstart : InRegion env.stripe snap cls o) : ∀ n ∈ l, InRegion env.stripe snap cls n.offset := by
  induction h with
  | last _ _ => exact List.forall_mem_singleton.mpr hstart
  | hop _ hadm _ ih =>
    exact List.forall_mem_cons.mpr ⟨hstart, ih (admitHop_inRegion (hadm.trans_ne hcls)).2.2⟩

theorem ChainFrom.lt (hcls : cls ≠ .kReject) (h : ChainFrom env m snap key cls o followed l) :
    ∀ n ∈ l.tail, n.offset < o := by
  induction h with
  | last _ _ => exact fun _ hn => absurd hn List.not_mem_nil
  | @hop o followed l _ hadm hrest ih =>
    have hlt := (admitHop_inRegion (hadm.trans_ne hcls)).2.1
    obtain ⟨-, rest, rfl⟩ := hrest.start
    exact List.forall_mem_cons.mpr ⟨hlt, fun n hn => (ih n hn).trans hlt⟩

theorem ChainFrom.decreasing (hcls : cls ≠ .kReject) (h : ChainFrom env m snap key cls o followed l) :
    l.Pairwise fun a b => b.offset < a.offset := by
  induction h with
  | last _ _ => exact List.pairwise_singleton _ _
  | hop hvisible hadm hrest ih =>
    exact List.pairwise_cons.mpr ⟨(ChainFrom.hop hvisible hadm hrest).lt hcls, ih⟩

theorem mapDocument_congr {size : Nat}
    (h : (Document.deserialize m' o).SameOutsideInPlace (Document.deserialize m o)) :
    env.mapDocument m' o size = env.mapDocument m o size := by
  have hvalid : ∀ size, env.readerValid m' o size = env.readerValid m o size := by
    intro size
    rw [Env.readerValid, Env.readerValid, h.checks.1]
  rw [Env.mapDocument, Env.mapDocument]
  simp only [hvalid, h.fields.1]

theorem Visible.congr (hv : Visible env m snap key cls o followed)
    (h : (Document.deserialize m' o).SameOutsideInPlace (Document.deserialize m o)) :
    Visible env m' snap key cls o followed := by
  obtain ⟨-, -, hkey, hserial, hstamp, -⟩ := h.fields
  refine ⟨?_, hkey.trans hv.key, h.checks.2.1.trans hv.shape, ?_, fun link hlink => ?_⟩
  · rw [mapDocument_congr h]
    exact hv.mapped
  · rw [hstamp]
    exact hv.stamp
  · rw [Document.boundByLink, hserial]
    exact hv.bound link hlink

theorem infoAt_congr (h : (Document.deserialize m' o).SameOutsideInPlace (Document.deserialize m o)) :
    infoAt m' cls o = infoAt m cls o := by
  obtain ⟨-, -, -, hserial, -, hid, htotal, -⟩ := h.fields
  rw [infoAt, infoAt, hserial, hid, htotal]

theorem Visible.frame (hv : Visible env m snap key cls o followed)
    (h : Document.deserialize m' o = Document.deserialize m o) :
    linkAt m' o = linkAt m o ∧ infoAt m' cls o = infoAt m cls o ∧
      Visible env m' snap key cls o followed :=
  ⟨congrArg Document.nextAlternateOffset h, infoAt_congr (h ▸ .refl _), hv.congr (h ▸ .refl _)⟩

theorem ChainFrom.frame (h : ChainFrom env m snap key cls o followed l)
    (hsame : ∀ n ∈ l, Document.deserialize m' n.offset = Document.deserialize m n.offset) :
    ChainFrom env m' snap key cls o followed l := by
  induction h with
  | last hvisible hend =>
    obtain ⟨hlink, hinfo, hvisible'⟩ := hvisible.frame (hsame _ List.mem_cons_self)
    rw [← hlink] at hend
    rw [← hinfo]
    exact .last hvisible' hend
  | hop hvisible hadm _ ih =>
    obtain ⟨hlink, hinfo, hvisible'⟩ := hvisible.frame (hsame _ List.mem_cons_self)
    have hrest := ih fun n hn => hsame n (List.mem_cons_of_mem _ hn)
    rw [← hlink] at hadm hrest
    rw [← hinfo]
    exact .hop hvisible' hadm hrest

theorem admitHop_of_le {target source source' : Nat} (hcls : cls ≠ .kReject)
    (h : env.stripe.admitHop target source cls snap = cls) (hle : source ≤ source') :
    env.stripe.admitHop target source' cls snap = cls := by
  cases cls with
  | kReject => exact absurd rfl hcls
  | kCurrent =>
    obtain ⟨hne, harea, hlt, hrest⟩ := Stripe.admitHop_kCurrent.mp h
    exact Stripe.admitHop_kCurrent.mpr ⟨hne, harea, lt_of_lt_of_le hlt hle, hrest⟩
  | kRetained =>
    obtain ⟨hne, harea, hlt, hrest⟩ := Stripe.admitHop_kRetained.mp h
    exact Stripe.admitHop_kRetained.mpr ⟨hne, harea, lt_of_lt_of_le hlt hle, hrest⟩

theorem ChainFrom.splice {p : AltInfo} (hcls : cls ≠ .kReject)
    (h : ChainFrom env m snap key cls o followed (l₁ ++ p :: n :: l₂))
    (hsame : ∀ x ∈ l₁ ++ l₂, Document.deserialize m' x.offset = Document.deserialize m x.offset)
    (hp : (Document.deserialize m' p.offset).SameOutsideInPlace (Document.deserialize m p.offset))
    (hlink : linkAt m' p.offset = linkAt m n.offset) :
    ChainFrom env m' snap key cls o followed (l₁ ++ p :: l₂) := by
  induction l₁ generalizing o followed with
  | nil =>
    rw [List.nil_append] at h hsame ⊢
    generalize hl : n :: l₂ = rest at h
    cases h with
    | last _ _ => cases hl
    | hop hvisible hadm hrest =>
      have hinfo : infoAt m' cls o = infoAt m cls o := infoAt_congr hp
      have hlink' : linkAt m' o = linkAt m n.offset := hlink
      have hlt := (admitHop_inRegion (hadm.trans_ne hcls)).2.1
      generalize Document.linkOffset (linkAt m o) = next at hadm hrest hlt
      rw [← hinfo]
      cases hrest with
      | last _ hend =>
        obtain ⟨rfl, rfl⟩ := List.cons.inj hl
        exact .last (hvisible.congr hp) (by rw [hlink']; exact hend)
      | hop _ hadm' hrest' =>
        obtain ⟨rfl, rfl⟩ := List.cons.inj hl
        have hlink'' : linkAt m' o = linkAt m next := hlink'
        refine .hop (hvisible.congr hp) ?_ ?_
        · rw [hlink'']
          exact admitHop_of_le hcls hadm' (Nat.le_of_lt hlt)
        · rw [hlink'']
          exact hrest'.frame hsame
  | cons x l₁ ih =>
    obtain ⟨rfl, hvisible, hadm, hrest⟩ := h.hop_inv (by simp)
    obtain ⟨hlinko, hinfo, hvisible'⟩ := hvisible.frame (hsame _ List.mem_cons_self)
    have hspliced := ih hrest fun y hy => hsame y (List.mem_cons_of_mem _ hy)
    rw [← hlinko] at hadm hspliced
    rw [← hinfo]
    exact .hop hvisible' hadm hspliced

def storeLink (m : Memory) (o link : Nat) : Memory :=
  writeAt m (o + Document.kNextAlternateOffsetPos) (leBytes 8 link)

theorem storeLink_same (m : Memory) (o link : Nat) :
    (Document.deserialize (storeLink m o link) o).SameOutsideInPlace
      (Document.deserialize m o) := by
  apply Document.sameOutsideInPlace_of_congr
  intro x _ _ hx
  simp only [Document.kHitCountOffset, Document.kLastAccessOffset] at hx
  refine writeAt_outside ?_
  simp only [length_leBytes, Document.kNextAlternateOffsetPos]
  omega

theorem storeLink_other {o' : Nat} (m : Memory) (link : Nat)
    (h : o' + kHeaderSize ≤ o ∨ o + kHeaderSize ≤ o') :
    Document.deserialize (storeLink m o link) o' = Document.deserialize m o' := by
  apply Document.deserialize_congr
  intro x hle hlt
  simp only [kHeaderSize] at h hlt
  refine writeAt_outside ?_
  simp only [length_leBytes, Document.kNextAlternateOffsetPos]
  omega

theorem linkAt_storeLink {link : Nat} (m : Memory) (o : Nat) (h : link < 2 ^ 64) :
    linkAt (storeLink m o link) o = link := by
  rw [linkAt, nextAlternateOffset_eq, storeLink, leAt_of_holds (holds_writeAt _ _ _)]
  exact Nat.mod_eq_of_lt h

theorem linkAt_lt (m : Memory) (o : Nat) : linkAt m o < 2 ^ 64 := by
  rw [linkAt, nextAlternateOffset_eq]
  exact leAt_lt _ _ 8

theorem mapDocument_header {size : Nat} (h : (env.mapDocument m o size).isSome = true)
    (hsize : kHeaderSize ≤ size) :
    env.mapRegion o kHeaderSize = true ∧ env.readerValid m o kHeaderSize = true := by
  obtain ⟨n, hn⟩ := Option.isSome_iff_exists.mp h
  obtain ⟨hmap, hvalid⟩ := mapDocument_some hn
  exact ⟨mapRegion_mono hsize hmap, readerValid_header hvalid⟩

theorem lookWriter_visible (h : Visible env m snap key cls o followed) :
    env.lookWriter m snap o cls followed = some (linkAt m o) := by
  obtain ⟨hmap, hvalid⟩ := mapDocument_header h.mapped (Nat.le_add_right _ _)
  simp only [Env.lookWriter, hmap, hvalid, h.stamp, h.any_unbound, Bool.not_true, Bool.or_self,
    Bool.false_eq_true, if_false]
  rfl

theorem ChainFrom.removeTarget_missing (hcls : cls ≠ .kReject)
    (h : ChainFrom env m snap key cls o followed l) (hmissing : ∀ n ∈ l, n.id ≠ id) (fuel : Nat)
    (pred : Option (Nat × Nat)) :
    env.removeTarget m snap id fuel pred o cls followed = .error .alternateNotFound := by
  induction h generalizing fuel pred with
  | @last o followed hvisible hend =>
    have hid : (Document.deserialize m o).alternateId ≠ id := hmissing _ List.mem_cons_self
    cases fuel with
    | zero => rfl
    | succ fuel =>
      simp only [Env.removeTarget, lookWriter_visible hvisible, if_neg hid, if_pos hend]
  | @hop o followed l hvisible hadm _ ih =>
    have hid : (Document.deserialize m o).alternateId ≠ id := hmissing _ List.mem_cons_self
    have hpos := ne_zero_of_hop hcls hadm
    cases fuel with
    | zero => rfl
    | succ fuel =>
      simp only [Env.removeTarget, lookWriter_visible hvisible, if_neg hid, if_neg hpos, hadm,
        if_neg hcls]
      exact ih (fun n hn => hmissing n (List.mem_cons_of_mem _ hn)) _ _

theorem ChainFrom.removeTarget_found (hcls : cls ≠ .kReject)
    (h : ChainFrom env m snap key cls o followed (l₁ ++ n :: l₂)) (hbefore : ∀ x ∈ l₁, x.id ≠ id)
    (hid : n.id = id) (hfuel : l₁.length < fuel) (pred : Option (Nat × Nat)) :
    env.removeTarget m snap id fuel pred o cls followed =
      .ok ⟨(l₁.getLast?.map fun p => (p.offset, p.id)).or pred, n.offset, linkAt m n.offset⟩ := by
  induction l₁ generalizing o followed fuel pred with
  | nil =>
    obtain ⟨hvisible, rest, hl⟩ := h.start
    obtain ⟨rfl, -⟩ := List.cons.inj hl
    have hid' : (Document.deserialize m o).alternateId = id := hid
    cases fuel with
    | zero => cases hfuel
    | succ fuel =>
      simp only [Env.removeTarget, lookWriter_visible hvisible, if_pos hid']
      rfl
  | cons x l₁ ih =>
    obtain ⟨rfl, hvisible, hadm, hrest⟩ := h.hop_inv (by simp)
    have hx : (Document.deserialize m o).alternateId ≠ id := hbefore _ List.mem_cons_self
    have hpos := ne_zero_of_hop hcls hadm
    cases fuel with
    | zero => cases hfuel
    | succ fuel =>
      have hgo := ih hrest (fun y hy => hbefore y (List.mem_cons_of_mem _ hy))
        (Nat.lt_of_succ_lt_succ hfuel) (some (o, (Document.deserialize m o).alternateId))
      simp only [Env.removeTarget, lookWriter_visible hvisible, if_neg hx, if_neg hpos,
        hadm, if_neg hcls]
      rw [hgo]
      cases l₁ with
      | nil => rfl
      | cons y l₁ =>
        rw [List.getLast?_cons_cons, List.getLast?_eq_some_getLast (List.cons_ne_nil y l₁)]
        rfl

end Chain

def heads (env : Env) (s : State) (key : CacheKey) : List (DirEntry × AdmitClass) :=
  (env.probe s key).filter fun c => env.isHeadHeader s.bytes (env.snapshot s) key c.1 c.2

structure KeyChain (env : Env) (s : State) (key : CacheKey) (e : DirEntry) (cls : AdmitClass)
    (l : List AltInfo) : Prop where
  sole : heads env s key = [(e, cls)]
  /-- An entry has 40 bits for it. -/
  offset_lt : e.offset < 2 ^ 40
  listed : env.listAlternatesSync s key = .ok l
  ended : ∀ n, l.getLast? = some n → Document.linkOffset (linkAt s.bytes n.offset) = 0
  apart : ∀ n ∈ l, ∀ n' ∈ l, n'.offset < n.offset →
    n'.offset + (Document.deserialize s.bytes n'.offset).len ≤ n.offset
  clear : ∀ c ∈ env.probe s key, ∀ n ∈ l, c.1.offset = n.offset ∨
    c.1.offset + kHeaderSize ≤ n.offset ∨ n.offset + kHeaderSize ≤ c.1.offset

section KeyChain

variable {env : Env} {s s' : State} {key : CacheKey} {e : DirEntry} {cls : AdmitClass}
  {l : List AltInfo} {id link : Nat} {p n n' : AltInfo} {l₁ l₂ : List AltInfo}

theorem isHeadHeader_of_isHead {m : Memory} {snap : StripeSnapshot}
    (h : env.isHead m snap key e cls = true) : env.isHeadHeader m snap key e cls = true := by
  simp only [Env.isHead, Bool.and_eq_true] at h
  obtain ⟨⟨⟨hmapped, hkey⟩, hstamp⟩, hbinds⟩ := h
  obtain ⟨hmap, hvalid⟩ := mapDocument_header hmapped e.header_le_approxSize
  simp only [Env.isHeadHeader, hmap, hvalid, hkey, hstamp, hbinds, Bool.and_self]

theorem listAlternatesSync_ok (h : env.listAlternatesSync s key = .ok l) :
    ∃ e cls, (env.probe s key).find? (fun c => env.isHead s.bytes (env.snapshot s) key c.1 c.2) =
        some (e, cls) ∧
      env.walkAlternates s.bytes (env.snapshot s) key kMaxChainTraversalDepth e.offset cls none =
        l ∧ l ≠ [] := by
  unfold Env.listAlternatesSync at h
  simp only at h
  split at h
  · cases h
  · next e cls hfind =>
    split at h <;> cases h
    next n ns hwalk =>
    exact ⟨e, cls, hfind, hwalk, List.cons_ne_nil _ _⟩

theorem listed_of_head (hfind : (env.probe s key).find?
      (fun c => env.isHead s.bytes (env.snapshot s) key c.1 c.2) = some (e, cls))
    (hcls : cls ≠ .kReject)
    (hchain : ChainFrom env s.bytes (env.snapshot s) key cls e.offset none l)
    (hlen : l.length ≤ kMaxChainTraversalDepth) : env.listAlternatesSync s key = .ok l := by
  obtain ⟨-, rest, rfl⟩ := hchain.start
  simp only [Env.listAlternatesSync, hfind, hchain.walk hcls hlen]

theorem KeyChain.spec (h : KeyChain env s key e cls l) :
    (env.probe s key).find? (fun c => env.isHead s.bytes (env.snapshot s) key c.1 c.2) =
        some (e, cls) ∧
      (env.probe s key).find? (fun c => env.isHeadHeader s.bytes (env.snapshot s) key c.1 c.2) =
        some (e, cls) ∧
      (e, cls) ∈ env.probe s key ∧ l.length ≤ kMaxChainTraversalDepth ∧
      ChainFrom env s.bytes (env.snapshot s) key cls e.offset none l := by
  obtain ⟨e', cls', hfind, hwalk, hne⟩ := listAlternatesSync_ok h.listed
  have hmem := List.mem_of_find?_eq_some hfind
  have hishead : env.isHead s.bytes (env.snapshot s) key e' cls' = true := by
    have := List.find?_some hfind
    exact this
  have hhead : (e', cls') ∈ heads env s key :=
    List.mem_filter.mpr ⟨hmem, isHeadHeader_of_isHead hishead⟩
  rw [h.sole, List.mem_singleton] at hhead
  obtain ⟨rfl, rfl⟩ := Prod.mk.inj hhead
  have hfirst : (env.probe s key).find? (fun c => env.isHeadHeader s.bytes (env.snapshot s) key
      c.1 c.2) = some (e', cls') := by
    rw [← List.head?_filter]
    exact congrArg List.head? h.sole
  refine ⟨hfind, hfirst, hmem, ?_, chainFrom_of_walk hwalk hne h.ended⟩
  have hlen := (@walkAlternates_visits env s.bytes (env.snapshot s) key kMaxChainTraversalDepth
    e'.offset [] cls' none).length_le
  rw [List.length_map, hwalk] at hlen
  exact hlen.trans hopWalk_length

theorem KeyChain.head_inRegion (h : KeyChain env s key e cls l) :
    InRegion env.stripe (env.snapshot s) cls e.offset ∧ cls ≠ .kReject := by
  obtain ⟨-, -, -, hadm, hcls⟩ := mem_probeEach.mp h.spec.2.2.1
  rw [← hadm] at hcls ⊢
  exact ⟨admitPosition_inRegion hcls, hcls⟩

def OthersKept (s s' : State) (key : CacheKey) : Prop :=
  ∀ (i j : Nat) (e : DirEntry), (s.buckets i)[j]? = some e → e.isEmpty = false →
    ¬ (i = bucketIdx key ∧ e.tag = key.tag ∧
      (Document.deserialize s.bytes e.offset).firstKey = key.toNat) →
    (s'.buckets i)[j]? = some e

def NoEntry (env : Env) (s s' : State) (key : CacheKey) : Prop :=
  heads env s' key = [] ∧ ∀ c ∈ heads env s key, ∀ e ∈ s'.bucket key, ¬ e.isAt key.tag c.1.offset

theorem dropCopies_eq (env : Env) (s : State) (key : CacheKey) (id : Option Nat) :
    ∃ ram, env.dropCopies s key id = { s with ram := ram } := by
  unfold Env.dropCopies
  split
  · exact ⟨_, rfl⟩
  · exact ⟨s.ram, rfl⟩

theorem removeEntryAt_ok (h : heads env s key = [(e, cls)]) (ram : List RamEntry) :
    let s' := { Env.removeEntryAt s key e.offset with ram := ram }
    NoEntry env s s' key ∧ OthersKept s s' key := by
  intro s'
  have hbucket : s'.bucket key = removeAllAt (s.bucket key) key.tag [e.offset] :=
    bucket_setBucket s key _
  have hgone : ∀ e' ∈ s'.bucket key, ¬ e'.isAt key.tag e.offset := by
    rintro e' he' ⟨hne, htag, hoff⟩
    rw [hbucket] at he'
    exact (mem_removeAllAt he' hne).2 htag (List.mem_singleton.mpr hoff)
  have hhead : (e, cls) ∈ env.probe s key ∧
      env.isHeadHeader s.bytes (env.snapshot s) key e cls = true := by
    have hmem : (e, cls) ∈ heads env s key := by
      rw [h]
      exact List.mem_cons_self
    exact List.mem_filter.mp hmem
  refine ⟨⟨?_, ?_⟩, ?_⟩
  · rw [heads, List.filter_eq_nil_iff]
    rintro ⟨e', cls'⟩ hc hleads
    obtain ⟨hmem, hne, htag, hadm⟩ := mem_probeEach.mp hc
    rw [hbucket] at hmem
    obtain ⟨hold, hoff⟩ := mem_removeAllAt hmem hne
    have hin : (e', cls') ∈ heads env s key :=
      List.mem_filter.mpr ⟨mem_probeEach.mpr ⟨hold, hne, htag, hadm⟩, hleads⟩
    rw [h, List.mem_singleton] at hin
    obtain ⟨rfl, rfl⟩ := Prod.mk.inj hin
    exact hoff htag (List.mem_singleton.mpr rfl)
  · rw [h]
    exact fun c hc => by rw [List.mem_singleton.mp hc]; exact hgone
  · intro i j e' he' hne hother
    change (update s.buckets (bucketIdx key) _ i)[j]? = some e'
    by_cases hi : i = bucketIdx key
    · rw [hi, update_self, removeAllAt, List.getElem?_map]
      rw [hi] at he'
      have hkeep : ¬ ((!e'.isEmpty) = true ∧ e'.tag = key.tag ∧ e'.offset ∈ [e.offset]) := by
        rintro ⟨-, htag, hoff⟩
        refine hother ⟨hi, htag, ?_⟩
        rw [List.mem_singleton.mp hoff]
        simp only [Env.isHeadHeader, Bool.and_eq_true, beq_iff_eq] at hhead
        exact hhead.2.1.1.2
      rw [State.bucket, he', Option.map_some, if_neg hkeep]
    · rw [update_of_ne hi]
      exact he'

theorem isHead_congr {m m' : Memory} {snap : StripeSnapshot}
    (h : (Document.deserialize m' e.offset).SameOutsideInPlace (Document.deserialize m e.offset)) :
    env.isHead m' snap key e cls = env.isHead m snap key e cls := by
  obtain ⟨-, -, hkey, hserial, hstamp, -⟩ := h.fields
  simp only [Env.isHead, mapDocument_congr h, hkey, hserial, hstamp, entryBinds]

theorem removeAfter_done
    (hvisible : ∃ via, Visible env s.bytes (env.snapshot s) key .kCurrent p.offset via)
    (hregion : InRegion env.stripe (env.snapshot s) .kCurrent p.offset)
    (hid : p.id = (Document.deserialize s.bytes p.offset).alternateId) :
    ∃ versions lockGen ram, env.removeAfter s key id (p.offset, p.id) link =
      ({ s with bytes := storeLink s.bytes p.offset link, versions, lockGen, ram }, .done) := by
  obtain ⟨via, hvisible⟩ := hvisible
  obtain ⟨hmap, hvalid⟩ := mapDocument_header hvisible.mapped (Nat.le_add_right _ _)
  have hadm : env.nodeAdmissibleNow s p.offset (Document.deserialize s.bytes p.offset) = true := by
    have hbehind : p.offset < (env.snapshot s).cursorRel := hregion.behind rfl
    have hstamp := hvisible.stamp
    simp only [Stripe.stampAdmits, Stripe.expectedPass, reduceCtorEq, if_false, Bool.or_eq_true,
      Bool.not_eq_true', beq_iff_eq] at hstamp
    simp only [Env.nodeAdmissibleNow, hregion.inArea, Bool.not_true, Bool.false_eq_true, if_false]
    rcases hstamp with hret | hstamp
    · simp [hret, hbehind]
    · simp [hstamp, hbehind]
  unfold Env.removeAfter
  simp only [hmap, hvalid, hvisible.key, hid, hadm, beq_self_eq_true, Bool.and_self, Bool.not_true,
    Bool.false_eq_true, if_false, if_true]
  cases env.mmapDirectory with
  | false =>
    obtain ⟨ram, hram⟩ := dropCopies_eq env
      { s with bytes := storeLink s.bytes p.offset link } key (some id)
    exact ⟨s.versions, s.lockGen, ram, Prod.ext hram rfl⟩
  | true =>
    -- the bracket leaves the bucket as it is
    obtain ⟨ram, hram⟩ := dropCopies_eq env (State.setBucket
      { s with lockGen := s.lockGen + 1, bytes := storeLink s.bytes p.offset link } key
      (s.bucket key)) key (some id)
    refine ⟨update s.versions (bucketIdx key) (s.versions (bucketIdx key) + 2),
      s.lockGen + 1, ram, Prod.ext (hram.trans ?_) rfl⟩
    rw [State.setBucket, State.bucket, update_eq_self]

theorem othersKept_of_buckets (h : s'.buckets = s.buckets) : OthersKept s s' key := by
  intro i j e' he' _ _
  rw [h]
  exact he'

theorem KeyChain.headers (h : KeyChain env s key e cls l) (hn : n ∈ l) (hn' : n' ∈ l)
    (hlt : n'.offset < n.offset) : n'.offset + kHeaderSize ≤ n.offset := by
  obtain ⟨via, hvisible⟩ := h.spec.2.2.2.2.visible hn'
  have hshape := hvisible.shape
  simp only [Document.hasVolumeShape, Bool.and_eq_true, decide_eq_true_eq] at hshape
  exact (Nat.add_le_add_left hshape.1.1.2 _).trans (h.apart n hn n' hn' hlt)

theorem KeyChain.removeAfter (h : KeyChain env s key e .kCurrent (l₁ ++ p :: n :: l₂)) :
    ∃ s', env.removeAfter s key id (p.offset, p.id) (linkAt s.bytes n.offset) = (s', .done) ∧
      env.listAlternatesSync s' key = .ok (l₁ ++ p :: l₂) ∧ OthersKept s s' key := by
  obtain ⟨hfind, -, -, hlen, hchain⟩ := h.spec
  have hp : p ∈ l₁ ++ p :: n :: l₂ := by simp
  obtain ⟨hstart, hcls⟩ := h.head_inRegion
  have hid : p.id = (Document.deserialize s.bytes p.offset).alternateId :=
    congrArg AltInfo.id (hchain.eq_infoAt hp)
  obtain ⟨versions, lockGen, ram, hdone⟩ := @removeAfter_done env s key id
    (linkAt s.bytes n.offset) p (hchain.visible hp) (hchain.inRegion hcls hstart p hp) hid
  refine ⟨_, hdone, ?_, othersKept_of_buckets rfl⟩
  have hsame := storeLink_same s.bytes p.offset (linkAt s.bytes n.offset)
  -- the other nodes lie clear of the header that is stored into
  have hother : ∀ x ∈ l₁ ++ l₂, Document.deserialize (storeLink s.bytes p.offset
      (linkAt s.bytes n.offset)) x.offset = Document.deserialize s.bytes x.offset := by
    have hdown := hchain.decreasing hcls
    rw [List.pairwise_append, List.pairwise_cons] at hdown
    intro x hx
    refine storeLink_other _ _ ?_
    rcases List.mem_append.mp hx with hx | hx
    · exact .inr (h.headers (List.mem_append_left _ hx) hp (hdown.2.2 x hx p List.mem_cons_self))
    · exact .inl (h.headers hp (by simp [hx]) (hdown.2.1.1 x (List.mem_cons_of_mem n hx)))
  -- so do the documents that the entries of the bucket lead to
  have hheads : (env.probe s key).find? (fun c => env.isHead (storeLink s.bytes p.offset
      (linkAt s.bytes n.offset)) (env.snapshot s) key c.1 c.2) = some (e, .kCurrent) := by
    rw [← hfind, ← List.head?_filter, ← List.head?_filter]
    refine congrArg List.head? (List.filter_congr fun c hc => isHead_congr ?_)
    rcases h.clear c hc p hp with heq | hclear
    · rw [heq]
      exact hsame
    · rw [storeLink_other _ _ hclear]
      exact .refl _
  refine listed_of_head hheads hcls (hchain.splice hcls hother hsame
    (linkAt_storeLink _ _ (linkAt_lt _ _))) ?_
  simp only [List.length_append, List.length_cons] at hlen ⊢
  omega

theorem approxSizeOf_le (bytes : Nat) : approxSizeOf bytes ≤ bytes + 4096 := by
  simp only [approxSizeOf, DirEntry.setApproxSize, DirEntry.approxSize, DirEntry.blocksFor,
    DirEntry.kBlockSize]
  rcases DirEntry.bigFor_cases bytes with ⟨h, -⟩ | ⟨h, -⟩ | ⟨h, -⟩ | ⟨h, -⟩ <;> rw [h] <;> omega

theorem mapDocument_approx {m : Memory} {o o' : Nat}
    (hmapped : (env.mapDocument m o kMapOverhead).isSome = true) (ho : o ≤ env.stripe.size)
    (hmapped' : (env.mapDocument m o' kMapOverhead).isSome = true)
    (hle : o' + (Document.deserialize m o').len ≤ o) (he : e.offset = o')
    (hsize : e.approxSize = approxSizeOf (Document.deserialize m o').len) :
    (env.mapDocument m e.offset e.approxSize).isSome = true := by
  have happrox := approxSizeOf_le (Document.deserialize m o').len
  rw [← hsize] at happrox
  have hheader := e.header_le_approxSize
  rw [he]
  generalize e.approxSize = size at happrox hheader ⊢
  obtain ⟨n, hn⟩ := Option.isSome_iff_exists.mp hmapped
  have hmap : env.stripe.offset + o + kMapOverhead ≤ env.fileSize :=
    of_decide_eq_true (mapDocument_some hn).1
  have hover : 4096 ≤ kMapOverhead := by decide
  have hvalid := (mapDocument_header hmapped' (Nat.le_add_right _ _)).2
  have hvalid' : ∀ k, kHeaderSize ≤ k → env.readerValid m o' k = true := by
    intro k hk
    simp only [Env.readerValid, Bool.and_eq_true, decide_eq_true_eq] at hvalid ⊢
    exact ⟨⟨hvalid.1.1, hk⟩, hvalid.2⟩
  have hfits : ∀ k, o' + k ≤ o + 4096 → env.mapRegion o' k = true := by
    intro k hk
    exact decide_eq_true (by omega)
  unfold Env.mapDocument
  simp only [hfits size (by omega), hvalid' size hheader, Bool.not_true, Bool.or_self,
    Bool.false_eq_true, if_false]
  split
  · next hlong =>
    rw [if_neg (by omega), hfits _ (by omega), hvalid' _ (by omega)]
    rfl
  · rfl

theorem insert_verified {bucket : Bucket} {p : Publication} {o : Nat}
    {classify : DirEntry → AdmitClass} {seen : List Nat} (hv : ∃ e ∈ bucket, e.isAt p.tag o)
    (hseen : ∀ e ∈ bucket, e.isEmpty = false → e.tag = p.tag → classify e ≠ .kReject →
      e.offset ∈ seen) : ∃ b, insert bucket p (some o) classify [] seen = .published b := by
  obtain ⟨e, he, hne, htag, hoff⟩ := hv
  have hview : viewIsCurrent bucket p.tag (some o) classify seen p.offset = true := by
    simp only [viewIsCurrent, Option.isNone_some, Bool.false_or, Bool.and_eq_true,
      List.any_eq_true, List.all_eq_true]
    refine ⟨⟨e, he, by simp [hne, htag, hoff]⟩, fun x hx => ?_⟩
    by_cases hskip : x.isEmpty = false ∧ x.tag = p.tag ∧ classify x ≠ .kReject
    · simp [hseen x hx hskip.1 hskip.2.1 hskip.2.2]
    · simp only [not_and_or, Bool.not_eq_false, Decidable.not_not] at hskip
      rcases hskip with h | h | h <;> simp [h]
  have hchoice : ∃ c, chooseInsertSlot bucket p.tag (some o) classify p.offset = some c := by
    unfold chooseInsertSlot
    simp only
    split
    · exact ⟨_, rfl⟩
    · next hnone =>
      have := List.findIdx?_eq_none_iff.mp hnone e he
      simp [hne, htag, hoff] at this
  obtain ⟨c, hc⟩ := hchoice
  rw [insert, hview, hc]
  exact ⟨_, rfl⟩

theorem republished_isHead {next : Nat} {e' : DirEntry}
    (hstored : (env.republication s key next (Document.linkSerial link)).Stored e')
    (hvisible : Visible env s.bytes (env.snapshot s) key .kCurrent next (some link))
    (hregion : InRegion env.stripe (env.snapshot s) .kCurrent next) (hlt : next < 2 ^ 40)
    (hmapped : (env.mapDocument s.bytes e'.offset e'.approxSize).isSome = true) :
    e'.offset = next ∧
      (e', AdmitClass.kCurrent) ∈ probeEach env.stripe [e'] key.tag (env.snapshot s) ∧
      env.isHead s.bytes (env.snapshot s) key e' .kCurrent = true := by
  have hoff : e'.offset = next := hstored.offset.trans (Nat.mod_eq_of_lt hlt)
  have hpos : 0 < next := by
    have := hregion.inArea
    simp only [Stripe.inDataArea, Bool.and_eq_true, decide_eq_true_eq] at this
    have := env.start_pos
    omega
  refine ⟨hoff, mem_probeEach.mpr ⟨List.mem_singleton_self _, ?_, hstored.tag, ?_, by decide⟩, ?_⟩
  · rw [DirEntry.isEmpty, hoff, beq_eq_false_iff_ne]
    omega
  · have hphase : e'.phase = (env.snapshot s).phase := hstored.phase
    rw [Stripe.admitPosition, hoff, hregion.inArea, if_neg (by decide), if_pos hphase,
      if_pos (hregion.behind rfl)]
  · have hbinds : entryBinds e' (Document.deserialize s.bytes e'.offset) = true := by
      rw [entryBinds, hoff, hstored.fillSerial]
      exact hvisible.bound link rfl
    rw [hoff] at hmapped hbinds
    simp only [Env.isHead, hoff, hmapped, hbinds, hvisible.key, hvisible.stamp, beq_self_eq_true,
      Bool.and_self]

theorem othersKept_republished {b : Bucket} {next : Nat} {seen : List Nat} {ram : List RamEntry}
    (hinsert : insert (s.bucket key) (env.republication s key next (Document.linkSerial link))
      (some e.offset) (env.classify s) [] seen = .published b)
    (hkey : (Document.deserialize s.bytes e.offset).firstKey = key.toNat)
    (hkey' : (Document.deserialize s.bytes next).firstKey = key.toNat) :
    OthersKept s { s.setBucket key b with ram := ram } key := by
  intro i j x hx hne hother
  change (update s.buckets (bucketIdx key) b i)[j]? = some x
  by_cases hi : i = bucketIdx key
  · rw [hi] at hx ⊢
    rw [update_self]
    obtain ⟨hview, c, hchoice, rfl⟩ := insert_published hinsert
    obtain ⟨-, ⟨e₀, he₀, hat⟩, -⟩ := chooseInsertSlot_verified hchoice rfl (verified_of_view hview)
    rw [getElem?_clearOthers, State.bucket, hx, Option.map_some]
    have hslot : j ≠ c.slot := by
      rintro rfl
      rw [State.bucket, hx] at he₀
      cases he₀
      exact hother ⟨hi, hat.2.1, by rw [hat.2.2]; exact hkey⟩
    rw [if_neg hslot, if_neg]
    rintro ⟨-, htag, hoff | hoff⟩
    · exact hother ⟨hi, htag, by rw [hoff]; exact hkey'⟩
    · cases hoff
  · rw [update_of_ne hi]
    exact hx

theorem find_republished {b : Bucket} {p : Publication} {slot : Nat} {e' : DirEntry}
    {ram : List RamEntry} (hsole : heads env s key = [(e, cls)]) (htag : p.tag = key.tag)
    (hinserted : Inserted (s.bucket key) b p (some e.offset) [] slot) (he' : b[slot]? = some e')
    (hadm : (e', AdmitClass.kCurrent) ∈ probeEach env.stripe [e'] key.tag (env.snapshot s))
    (hhead : env.isHead s.bytes (env.snapshot s) key e' .kCurrent = true) :
    let s' := { s.setBucket key b with ram := ram }
    (env.probe s' key).find? (fun c => env.isHead s'.bytes (env.snapshot s') key c.1 c.2) =
      some (e', .kCurrent) := by
  intro s'
  have hbucket : s'.bucket key = b := bucket_setBucket s key b
  obtain ⟨pre, post, hsplit, hpre⟩ := @probe_split env s' key slot e' .kCurrent
    (by rw [hbucket]; exact he') hadm
  have hnone : pre.find? (fun c => env.isHead s'.bytes (env.snapshot s') key c.1 c.2) = none := by
    rw [List.find?_eq_none]
    rintro ⟨x, xcls⟩ hx hleads
    obtain ⟨hprobe, j, hj, hxj⟩ := hpre _ hx
    obtain ⟨-, hxne, hxtag, hxadm⟩ := mem_probeEach.mp hprobe
    rw [hbucket] at hxj
    obtain ⟨hold, -⟩ := hinserted.others j (Nat.ne_of_lt hj) x hxj hxne
    have hin : (x, xcls) ∈ heads env s key :=
      List.mem_filter.mpr ⟨mem_probeEach.mpr ⟨List.mem_of_getElem? hold, hxne, hxtag, hxadm⟩,
        isHeadHeader_of_isHead hleads⟩
    rw [hsole, List.mem_singleton] at hin
    obtain ⟨rfl, rfl⟩ := Prod.mk.inj hin
    exact hinserted.first _ rfl j hj x hold ⟨hxne, hxtag.trans htag.symm, rfl⟩
  rw [hsplit, List.find?_append, hnone, Option.none_or]
  exact List.find?_cons_of_pos hhead

theorem KeyChain.removeHead (h : KeyChain env s key e .kCurrent (n :: n' :: l₂)) :
    ∃ s', env.removeHead s key id e.offset .kCurrent (linkAt s.bytes e.offset)
        ((env.probe s key).map fun c => c.1.offset) = (s', .done) ∧
      env.listAlternatesSync s' key = .ok (n' :: l₂) ∧ OthersKept s s' key := by
  obtain ⟨hfind, -, hmem, hlen, hchain⟩ := h.spec
  obtain ⟨hstart, hcls⟩ := h.head_inRegion
  have hapart := h.apart n List.mem_cons_self n' (by simp)
  obtain ⟨rfl, hvisible, hadm, hrest⟩ := hchain.hop_inv (List.cons_ne_nil _ _)
  obtain ⟨-, hdown, hregion⟩ := admitHop_inRegion (hadm.trans_ne hcls)
  generalize hlink : linkAt s.bytes e.offset = link at hadm hrest hdown hregion
  generalize hnext : Document.linkOffset link = next at hadm hrest hdown hregion
  obtain ⟨hvisible', rest', hl'⟩ := hrest.start
  obtain ⟨rfl, -⟩ := List.cons.inj hl'
  obtain ⟨hmap, hvalid⟩ := mapDocument_header hvisible'.mapped (Nat.le_add_right _ _)
  have hpos := ne_zero_of_hop hcls hadm
  -- the entry of the head is there, and the probe saw the others
  obtain ⟨hin, hne, htag, -⟩ := mem_probeEach.mp hmem
  obtain ⟨b, hinsert⟩ := @insert_verified (s.bucket key)
    (env.republication s key next (Document.linkSerial link)) e.offset (env.classify s)
    ((env.probe s key).map fun c => c.1.offset) ⟨e, hin, hne, htag, rfl⟩
    (fun x hx hxne hxtag hxadm => List.mem_map.mpr
      ⟨(x, env.classify s x), mem_probeEach.mpr ⟨hx, hxne, hxtag, rfl, hxadm⟩, rfl⟩)
  obtain ⟨ram, hram⟩ := dropCopies_eq env (s.setBucket key b) key (some id)
  have hdone : env.removeHead s key id e.offset .kCurrent link
      ((env.probe s key).map fun c => c.1.offset) =
      ({ s.setBucket key b with ram := ram }, .done) := by
    simp only [Env.removeHead, hnext, if_neg hpos, hadm, hmap, hvalid,
      hvisible'.bound link rfl, hinsert, hram, reduceCtorEq, Bool.not_true, Bool.false_eq_true,
      if_false]
  refine ⟨_, hdone, ?_, othersKept_republished hinsert hvisible.key hvisible'.key⟩
  obtain ⟨c, -, hinserted⟩ := insert_ok hinsert
  obtain ⟨e', he', hstored⟩ := hinserted.new
  have hlt : next < 2 ^ 40 := hdown.trans h.offset_lt
  have hsize : e.offset ≤ env.stripe.size := by
    have := hstart.inArea
    simp only [Stripe.inDataArea, Bool.and_eq_true, decide_eq_true_eq] at this
    omega
  have hmapped := mapDocument_approx hvisible.mapped hsize hvisible'.mapped (hapart hdown)
    (hstored.offset.trans (Nat.mod_eq_of_lt hlt)) hstored.approxSize
  obtain ⟨hoff, hprobe, hhead⟩ := republished_isHead hstored hvisible' hregion hlt hmapped
  refine listed_of_head (find_republished h.sole rfl hinserted he' hprobe hhead) hcls ?_ ?_
  · rw [hoff]
    exact hrest.unlinked
  · rw [List.length_cons] at hlen
    omega

def WellFormed (env : Env) (s : State) (key : CacheKey) (l : List AltInfo) : Prop :=
  (heads env s key = [] ∧ l = []) ∨ ∃ e cls, KeyChain env s key e cls l

def listedChain (env : Env) (s : State) (key : CacheKey) : List AltInfo :=
  match env.listAlternatesSync s key with
  | .ok l => l
  | .error _ => []

theorem listedChain_ok (h : env.listAlternatesSync s key = .ok l) : listedChain env s key = l := by
  rw [listedChain, h]

theorem listAlternatesSync_noHead (h : heads env s key = []) :
    env.listAlternatesSync s key = .error .notFound := by
  have hnone : (env.probe s key).find? (fun c => env.isHead s.bytes (env.snapshot s) key c.1 c.2) =
      none := by
    rw [List.find?_eq_none]
    intro c hc hhead
    exact (List.filter_eq_nil_iff.mp h) c hc (isHeadHeader_of_isHead hhead)
  rw [Env.listAlternatesSync]
  simp only [hnone]

theorem KeyChain.removeOnly (h : KeyChain env s key e .kCurrent [n]) :
    ∃ s', env.removeHead s key id e.offset .kCurrent (linkAt s.bytes e.offset)
        ((env.probe s key).map fun c => c.1.offset) = (s', .done) ∧
      NoEntry env s s' key ∧ OthersKept s s' key := by
  obtain ⟨-, rest, hl⟩ := h.spec.2.2.2.2.start
  obtain ⟨hn, -⟩ := List.cons.inj hl
  have hend : Document.linkOffset (linkAt s.bytes e.offset) = 0 := by
    have hoff : n.offset = e.offset := congrArg AltInfo.offset hn
    rw [← hoff]
    exact h.ended n rfl
  obtain ⟨ram, hram⟩ := dropCopies_eq env (Env.removeEntryAt s key e.offset) key (some id)
  refine ⟨_, ?_, removeEntryAt_ok h.sole ram⟩
  rw [Env.removeHead, if_pos hend, hram]

structure Removed (env : Env) (s s' : State) (key : CacheKey) (id : Nat) (cls : AdmitClass)
    (l : List AltInfo) : Prop where
  others : OthersKept s s' key
  chain : cls = .kCurrent → listedChain env s' key = l.eraseP (·.id == id)
  only : cls = .kCurrent → l.length = 1 → NoEntry env s s' key
  retained : cls = .kRetained → NoEntry env s s' key

theorem KeyChain.removeCurrent (h : KeyChain env s key e .kCurrent (l₁ ++ n :: l₂)) :
    ∃ s', (match l₁.getLast?.map fun p => (p.offset, p.id) with
        | none => env.removeHead s key id e.offset .kCurrent (linkAt s.bytes n.offset)
            ((env.probe s key).map fun c => c.1.offset)
        | some pred => env.removeAfter s key id pred (linkAt s.bytes n.offset)) = (s', .done) ∧
      OthersKept s s' key ∧ listedChain env s' key = l₁ ++ l₂ ∧
      ((l₁ ++ n :: l₂).length = 1 → NoEntry env s s' key) := by
  rcases List.eq_nil_or_concat l₁ with rfl | ⟨l₀, p, rfl⟩
  · have hoff : n.offset = e.offset := by
      obtain ⟨-, rest, hl⟩ := h.spec.2.2.2.2.start
      exact congrArg AltInfo.offset (List.cons.inj hl).1
    rw [hoff]
    cases l₂ with
    | nil =>
      obtain ⟨s', hdone, hgone, hothers⟩ := @KeyChain.removeOnly env s key e id n h
      exact ⟨s', hdone, hothers, by rw [listedChain, listAlternatesSync_noHead hgone.1]; rfl,
        fun _ => hgone⟩
    | cons n' l₂ =>
      obtain ⟨s', hdone, hlisted, hothers⟩ := @KeyChain.removeHead env s key e id n n' l₂ h
      exact ⟨s', hdone, hothers, listedChain_ok hlisted, nofun⟩
  · rw [List.concat_eq_append, List.append_assoc] at h
    obtain ⟨s', hdone, hlisted, hothers⟩ := @KeyChain.removeAfter env s key e id p n l₀ l₂ h
    rw [List.concat_eq_append, List.getLast?_concat]
    refine ⟨s', hdone, hothers, ?_, fun hlen => ?_⟩
    · rw [List.append_assoc]
      exact listedChain_ok hlisted
    · simp only [List.length_append, List.length_cons] at hlen
      omega

theorem KeyChain.removeAlternateOnce (h : KeyChain env s key e cls l) :
    (env.removeAlternateOnce s key id = (s, .failed .alternateNotFound) ∧ ∀ n ∈ l, n.id ≠ id) ∨
      ∃ s', env.removeAlternateOnce s key id = (s', .done) ∧ (∃ n ∈ l, n.id = id) ∧
        Removed env s s' key id cls l := by
  obtain ⟨-, hfind, -, hlen, hchain⟩ := h.spec
  obtain ⟨-, hcls⟩ := h.head_inRegion
  by_cases hany : ∃ n ∈ l, n.id = id
  · refine .inr ?_
    obtain ⟨x, hx, hxid⟩ := hany
    obtain ⟨n, l₁, l₂, hbefore, hn, rfl, herase⟩ :=
      List.exists_of_eraseP (p := (·.id == id)) hx (beq_iff_eq.mpr hxid)
    have hfuel : l₁.length < kMaxChainTraversalDepth := by
      simp only [List.length_append, List.length_cons] at hlen
      omega
    have htarget := hchain.removeTarget_found hcls
      (fun y hy heq => hbefore y hy (beq_iff_eq.mpr heq)) (beq_iff_eq.mp hn) hfuel none
    rw [Option.or_none] at htarget
    cases cls with
    | kReject => exact absurd rfl hcls
    | kRetained =>
      obtain ⟨ram, hram⟩ := dropCopies_eq env (Env.removeEntryAt s key e.offset) key none
      obtain ⟨hgone, hothers⟩ := removeEntryAt_ok h.sole ram
      refine ⟨_, ?_, ⟨x, hx, hxid⟩, hothers, nofun, nofun, fun _ => hgone⟩
      simp only [Env.removeAlternateOnce, hfind, htarget, if_true, hram]
    | kCurrent =>
      obtain ⟨s', hdone, hothers, hlisted, honly⟩ :=
        @KeyChain.removeCurrent env s key e id n l₁ l₂ h
      refine ⟨s', ?_, ⟨x, hx, hxid⟩, hothers, fun _ => hlisted.trans herase.symm,
        fun _ => honly, nofun⟩
      simp only [Env.removeAlternateOnce, hfind, htarget, reduceCtorEq, if_false]
      exact hdone
  · refine .inl ?_
    have hmissing : ∀ n ∈ l, n.id ≠ id := fun n hn hid => hany ⟨n, hn, hid⟩
    refine ⟨?_, hmissing⟩
    simp only [Env.removeAlternateOnce, hfind, hchain.removeTarget_missing hcls hmissing]

end KeyChain

/-- Removing one alternate removes exactly the first node of its id, from a
chain of the current pass; a retained chain goes as a whole. -/
theorem remove_alternate_exact (env : Env) (s s' : State) (key : CacheKey) (id : Nat)
    (l : List AltInfo) (r : Except RemoveError Unit) (h : WellFormed env s key l)
    (hcall : env.removeAlternateSync key id 8 s = (s', r)) :
    listedChain env s key = l ∧ (r = .ok () ↔ ∃ n ∈ l, n.id = id) ∧
      (r = .ok () → (∀ c ∈ heads env s key, c.2 = .kCurrent) →
        listedChain env s' key = l.eraseP (·.id == id) ∧ (l.length = 1 → NoEntry env s s' key)) ∧
      (r = .ok () → (∃ c ∈ heads env s key, c.2 = .kRetained) → NoEntry env s s' key) ∧
      (r = .error .alternateNotFound ∨ r = .error .notFound → s' = s ∧ ∀ n ∈ l, n.id ≠ id) ∧
      OthersKept s s' key := by
  have hfailed : ∀ err, env.removeAlternateOnce s key id = (s, .failed err) →
      s' = s ∧ r = .error err := by
    intro err honce
    rw [Env.removeAlternateSync, honce] at hcall
    cases hcall
    exact ⟨rfl, rfl⟩
  rcases h with ⟨hnone, rfl⟩ | ⟨e, cls, h⟩
  · have honce : env.removeAlternateOnce s key id = (s, .failed .notFound) := by
      have hfind : (env.probe s key).find? (fun c => env.isHeadHeader s.bytes (env.snapshot s) key
          c.1 c.2) = none := by
        rw [← List.head?_filter]
        exact congrArg List.head? hnone
      simp only [Env.removeAlternateOnce, hfind]
    obtain ⟨rfl, rfl⟩ := hfailed _ honce
    refine ⟨by rw [listedChain, listAlternatesSync_noHead hnone], ?_, nofun, nofun,
      fun _ => ⟨rfl, nofun⟩, othersKept_of_buckets rfl⟩
    simp
  · refine ⟨listedChain_ok h.listed, ?_⟩
    have hhead : ∀ c, c ∈ heads env s key ↔ c = (e, cls) := by
      intro c
      rw [h.sole, List.mem_singleton]
    rcases h.removeAlternateOnce with ⟨honce, hmissing⟩ | ⟨s₁, honce, hfound, hremoved⟩
    · obtain ⟨rfl, rfl⟩ := hfailed _ honce
      refine ⟨⟨nofun, ?_⟩, nofun, nofun, fun _ => ⟨rfl, hmissing⟩, othersKept_of_buckets rfl⟩
      rintro ⟨n, hn, hid⟩
      exact absurd hid (hmissing n hn)
    · rw [Env.removeAlternateSync, honce] at hcall
      cases hcall
      refine ⟨⟨fun _ => hfound, fun _ => rfl⟩, fun _ hcur => ?_, fun _ hret => ?_,
        fun herr => ?_, hremoved.others⟩
      · have hcls : cls = .kCurrent := hcur (e, cls) ((hhead _).mpr rfl)
        exact ⟨hremoved.chain hcls, hremoved.only hcls⟩
      · obtain ⟨c, hc, hcls⟩ := hret
        rw [(hhead c).mp hc] at hcls
        exact hremoved.retained hcls
      · rcases herr with herr | herr <;> cases herr

def longFile : Env := { smallVolume with fileSize := 100000, in_file := by decide }

def pairState : State :=
  { State.fresh longFile linkedPair with
    cursor := 1032
    buckets := fun _ => [⟨520, 0, 0, 0, false, true, 0, none⟩, .empty, .empty, .empty] }

theorem pairState_wellFormed : WellFormed longFile pairState 5
    [⟨520, .kCurrent, 0, 1, 0⟩, ⟨264, .kCurrent, 0, 0, 0⟩] := by
  refine .inr ⟨⟨520, 0, 0, 0, false, true, 0, none⟩, .kCurrent, ?_, ?_, ?_, ?_, ?_, ?_⟩
  · decide +kernel
  · decide
  · decide +kernel
  · decide +kernel
  · decide +kernel
  · decide +kernel

/-- Its head is removed. -/
theorem remove_alternate_exact_pair : (longFile.removeAlternateSync 5 1 8 pairState).2 = .ok () ∧
      listedChain longFile (longFile.removeAlternateSync 5 1 8 pairState).1 5 =
        [⟨264, .kCurrent, 0, 0, 0⟩] := by
  obtain ⟨-, hok, hcurrent, -⟩ := remove_alternate_exact longFile pairState
    (longFile.removeAlternateSync 5 1 8 pairState).1 5 1 _
    (longFile.removeAlternateSync 5 1 8 pairState).2 pairState_wellFormed rfl
  have hdone := hok.mpr ⟨⟨520, .kCurrent, 0, 1, 0⟩, List.mem_cons_self, rfl⟩
  have hheads : ∀ c ∈ heads longFile pairState 5, c.2 = .kCurrent := by decide +kernel
  exact ⟨hdone, (hcurrent hdone hheads).1⟩

end CycloneCache.Ref.Volume

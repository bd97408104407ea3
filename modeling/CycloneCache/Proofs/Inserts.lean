import CycloneCache.Proofs.DirectoryCounts

namespace CycloneCache.Ref

namespace PackedEntry

section

variable (e : PackedEntry)

theorem field_of_store {w x m h : BitVec 16} (hx : x &&& m = 0#16) (hm : h &&& m = m) :
    ((w &&& h) ||| x) &&& m = w &&& m := by
  rw [BitVec.and_or_distrib_right, BitVec.and_assoc, hx, hm, BitVec.or_zero]

@[simp]
theorem tag_setPhase (phase : Bool) : (e.setPhase phase).tag = e.tag := by
  simp only [tag, setPhase]
  rw [field_of_store (by cases phase <;> decide) (by decide)]

@[simp]
theorem tag_setHead (head : Bool) : (e.setHead head).tag = e.tag := by
  simp only [tag, setHead]
  rw [field_of_store (by cases head <;> decide) (by decide)]

theorem tag_setTag {tag : Nat} (htag : tag < 2 ^ 12) : (e.setTag tag).tag = tag := by
  have hw : ((e.w2 &&& 0xF000#16) ||| (BitVec.ofNat 16 tag &&& 0x0FFF#16)) &&& 0x0FFF#16 =
      BitVec.ofNat 16 tag &&& 0x0FFF#16 := by
    rw [BitVec.and_or_distrib_right, BitVec.and_assoc, BitVec.and_assoc, BitVec.and_self,
      show 0xF000#16 &&& 0x0FFF#16 = 0#16 by decide, BitVec.and_zero, BitVec.zero_or]
  simp only [PackedEntry.tag, setTag, hw, BitVec.toNat_and, BitVec.toNat_ofNat]
  rw [show (4095 % 2 ^ 16 : Nat) = 2 ^ 12 - 1 by decide, Nat.and_two_pow_sub_one_eq_mod]
  omega

@[simp]
theorem phase_setPhase (phase : Bool) : (e.setPhase phase).phase = phase := by
  have hw : ∀ x : BitVec 16, (((e.w2 &&& ~~~0x1000#16) ||| x) >>> 12) &&& 0x01#16 =
      (x >>> 12) &&& 0x01#16 := by
    intro x
    ext i hi
    simp only [BitVec.getElem_and, BitVec.getElem_ushiftRight]
    interval_cases i <;> simp
  simp only [PackedEntry.phase, setPhase, hw]
  cases phase <;> decide

@[simp]
theorem phase_setHead (head : Bool) : (e.setHead head).phase = e.phase := by
  have hw : ∀ x : BitVec 16, x = 0x2000#16 ∨ x = 0#16 →
      (((e.w2 &&& ~~~0x2000#16) ||| x) >>> 12) &&& 0x01#16 = (e.w2 >>> 12) &&& 0x01#16 := by
    intro x hx
    ext i hi
    simp only [BitVec.getElem_and, BitVec.getElem_ushiftRight]
    rcases hx with rfl | rfl <;> interval_cases i <;> simp
  simp only [PackedEntry.phase, setHead]
  rw [hw _ (by cases head <;> simp)]

theorem big_setApproxSize (bytes : Nat) : (e.setApproxSize bytes).big = DirEntry.bigFor bytes := by
  have hw : ∀ b s : BitVec 16, (((((e.w1 &&& ~~~0x0300#16) ||| ((b &&& 0x03#16) <<< 8)) &&&
      0x03FF#16) ||| ((s &&& 0x3F#16) <<< 10)) >>> 8) &&& 0x03#16 = b &&& 0x03#16 := by
    intro b s
    ext i hi
    simp only [BitVec.getElem_and, BitVec.getElem_ushiftRight]
    interval_cases i <;> simp
  simp only [big, setApproxSize, setSize, setBig, hw]
  simp only [DirEntry.bigFor]
  split
  · rfl
  · split
    · rfl
    · split <;> rfl

theorem size_setApproxSize (bytes : Nat) :
    (e.setApproxSize bytes).size = DirEntry.blocksFor bytes - 1 := by
  have hw : ∀ b s : BitVec 16, (((((e.w1 &&& ~~~0x0300#16) ||| ((b &&& 0x03#16) <<< 8)) &&&
      0x03FF#16) ||| ((s &&& 0x3F#16) <<< 10)) >>> 10) &&& 0x3F#16 = s &&& 0x3F#16 := by
    intro b s
    ext i hi
    simp only [BitVec.getElem_and, BitVec.getElem_ushiftRight]
    interval_cases i <;> simp
  have hle : DirEntry.blocksFor bytes ≤ 64 := Nat.min_le_right _ _
  simp only [size, setApproxSize, setSize, setBig, hw, BitVec.toNat_and, BitVec.toNat_ofNat]
  rw [show (63 % 2 ^ 16 : Nat) = 2 ^ 6 - 1 by decide, Nat.and_two_pow_sub_one_eq_mod]
  omega

end

end PackedEntry

namespace Directories

structure Carries (tag : Nat) (c : Insert) (e : PackedEntry) : Prop where
  tag : e.tag = tag
  offset : e.offset = c.offset
  big : e.big = DirEntry.bigFor c.size
  size : e.size = DirEntry.blocksFor c.size - 1
  fillSerial : e.fillSerial = c.fillSerial
  phase : e.phase = c.phase

theorem carries_store {tag : Nat} {c : Insert} {choice : Choice} {e : PackedEntry} (hok : c.Ok)
    (htag : tag < 2 ^ 12) (hverified : choice.verified = true → e.tag = tag) :
    Carries tag c (Directory.store tag c choice e) := by
  have hkeep : (c.offset.setWidth 40).setWidth 64 = c.offset := by
    have hlt := hok.2
    apply BitVec.eq_of_toNat_eq
    simp only [BitVec.toNat_setWidth]
    omega
  unfold Directory.store
  split
  · next hv =>
    refine ⟨?_, by simp [hkeep], PackedEntry.big_setApproxSize _ _,
      PackedEntry.size_setApproxSize _ _, rfl, by simp⟩
    rw [PackedEntry.tag_setPhase]
    exact hverified hv -- the stores before it leave the word of the tag alone
  · refine ⟨?_, by simp [hkeep], PackedEntry.big_setApproxSize _ _,
      PackedEntry.size_setApproxSize _ _, rfl, by simp⟩
    rw [PackedEntry.tag_setHead, PackedEntry.tag_setPhase, PackedEntry.tag_setTag _ htag]

inductive Role where
  | empty
  | sameSpot
  | inadmissible
  | collider
  | retained
  | current
  deriving DecidableEq

section

variable (tag : Nat) (c : Insert)

def role (e : PackedEntry) : Role :=
  if e.isEmpty then .empty
  else if c.offset ≠ 0 ∧ e.tag = tag ∧ e.offset = c.offset then .sameSpot
  else if c.classify e.offset e.phase = .kReject then .inadmissible
  else if e.tag = tag then .collider
  else if c.classify e.offset e.phase = .kRetained then .retained
  else .current

def Lowest (r : Role) (bucket : Bucket) : Option (Nat × BitVec 64) → Prop
  | none => ∀ e ∈ bucket, role tag c e ≠ r
  | some (i, o) => ∃ e, bucket[i]? = some e ∧ role tag c e = r ∧ e.offset = o ∧
      ∀ e' ∈ bucket, role tag c e' = r → o ≤ e'.offset

structure Noted (bucket : Bucket) (found : Candidates) : Prop where
  sameSpot : found.sameSpot = bucket.findIdx? fun e => role tag c e = .sameSpot
  firstEmpty : found.firstEmpty = bucket.findIdx? fun e => role tag c e = .empty
  firstInadmissible :
    found.firstInadmissible = bucket.findIdx? fun e => role tag c e = .inadmissible
  firstCollider : found.firstCollider = bucket.findIdx? fun e => role tag c e = .collider
  oldestRetained : Lowest tag c .retained bucket found.oldestRetained
  oldestCurrent : Lowest tag c .current bucket found.oldestCurrent

end

section

variable {tag : Nat} {c : Insert}

theorem findIdx?_snoc {p : PackedEntry → Bool} (bucket : Bucket) (e : PackedEntry) :
    (bucket ++ [e]).findIdx? p =
      (bucket.findIdx? p <|> if p e then some bucket.length else none) := by
  rw [List.findIdx?_append, List.findIdx?_singleton]
  split <;> simp

variable {bucket : Bucket} {e : PackedEntry} {r : Role} {slot : Option Nat} {i : Nat}
  {oldest : Option (Nat × BitVec 64)}

theorem getElem?_snoc {a : PackedEntry} (h : bucket[i]? = some a) :
    (bucket ++ [e])[i]? = some a := by
  rw [List.getElem?_append_left (List.getElem?_eq_some_iff.mp h).1]
  exact h

theorem Lowest.skip (h : Lowest tag c r bucket oldest) (hne : role tag c e ≠ r) :
    Lowest tag c r (bucket ++ [e]) oldest := by
  cases oldest with
  | none => exact List.forall_mem_append.mpr ⟨h, List.forall_mem_singleton.mpr hne⟩
  | some io =>
    obtain ⟨a, ha, hrole, hoff, hlow⟩ := h
    refine ⟨a, getElem?_snoc ha, hrole, hoff, List.forall_mem_append.mpr ⟨hlow, ?_⟩⟩
    exact List.forall_mem_singleton.mpr fun hr => absurd hr hne

theorem Lowest.lower (h : Lowest tag c r bucket oldest) (hrole : role tag c e = r) :
    Lowest tag c r (bucket ++ [e]) (lower oldest bucket.length e) := by
  have hlast : (bucket ++ [e])[bucket.length]? = some e := by simp
  cases oldest with
  | none =>
    refine ⟨e, hlast, hrole, rfl, List.forall_mem_append.mpr ⟨?_, ?_⟩⟩
    · exact fun e' he' hr => absurd hr (h e' he')
    · exact List.forall_mem_singleton.mpr fun _ => BitVec.le_refl _
  | some io =>
    obtain ⟨a, ha, harole, hoff, hlow⟩ := h
    unfold Directories.lower
    simp only []
    split
    · next hlt =>
      refine ⟨e, hlast, hrole, rfl, List.forall_mem_append.mpr ⟨?_, ?_⟩⟩
      · exact fun e' he' hr => BitVec.le_trans (BitVec.le_of_lt hlt) (hlow e' he' hr)
      · exact List.forall_mem_singleton.mpr fun _ => BitVec.le_refl _
    · next hge =>
      refine ⟨a, getElem?_snoc ha, harole, hoff, List.forall_mem_append.mpr ⟨hlow, ?_⟩⟩
      exact List.forall_mem_singleton.mpr fun _ => BitVec.not_lt.mp hge

theorem first_snoc (h : slot = bucket.findIdx? fun e => role tag c e = r) :
    (if role tag c e = r then (slot <|> some bucket.length) else slot) =
      (bucket ++ [e]).findIdx? fun e => role tag c e = r := by
  rw [findIdx?_snoc, ← h]
  by_cases hr : role tag c e = r
  · simp only [hr, if_true, decide_true]
  · simp only [hr, if_false, decide_false, Bool.false_eq_true, Option.or_none,
      Option.orElse_eq_orElse, Option.orElse_eq_or]

theorem note_eq (found : Candidates) (i : Nat) (e : PackedEntry) : found.note tag c i e =
      match role tag c e with
      | .empty => { found with firstEmpty := found.firstEmpty <|> some i }
      | .sameSpot => { found with sameSpot := found.sameSpot <|> some i }
      | .inadmissible => { found with firstInadmissible := found.firstInadmissible <|> some i }
      | .collider => { found with firstCollider := found.firstCollider <|> some i }
      | .retained => { found with oldestRetained := lower found.oldestRetained i e }
      | .current => { found with oldestCurrent := lower found.oldestCurrent i e } := by
  unfold Candidates.note role
  split
  · rfl
  split
  · rfl
  split
  · rfl
  split
  · rfl
  split <;> rfl

theorem Noted.note {found : Candidates} (h : Noted tag c bucket found) (e : PackedEntry) :
    Noted tag c (bucket ++ [e]) (found.note tag c bucket.length e) := by
  have hsame := first_snoc (e := e) h.sameSpot
  have hempty := first_snoc (e := e) h.firstEmpty
  have hinad := first_snoc (e := e) h.firstInadmissible
  have hcoll := first_snoc (e := e) h.firstCollider
  have hret : role tag c e ≠ .retained → _ := h.oldestRetained.skip
  have hcur : role tag c e ≠ .current → _ := h.oldestCurrent.skip
  rw [note_eq]
  cases hrole : role tag c e <;>
    simp only [hrole, reduceCtorEq, if_true, if_false, ne_eq, not_false_eq_true,
      true_implies] at hsame hempty hinad hcoll hret hcur
  case retained => exact ⟨hsame, hempty, hinad, hcoll, h.oldestRetained.lower hrole, hcur⟩
  case current => exact ⟨hsame, hempty, hinad, hcoll, hret, h.oldestCurrent.lower hrole⟩
  all_goals exact ⟨hsame, hempty, hinad, hcoll, hret, hcur⟩

theorem scan_roles (es : Bucket) : ∀ (pre : Bucket) (found : Candidates), Noted tag c pre found →
      (∀ e ∈ pre, isVerified tag c e = false) →
      match scan tag c es pre.length found with
      | .inl i => ∃ e, (pre ++ es)[i]? = some e ∧ isVerified tag c e = true
      | .inr found => Noted tag c (pre ++ es) found ∧
          ∀ e ∈ pre ++ es, isVerified tag c e = false := by
  induction es with
  | nil =>
    intro pre found h hpre
    rw [List.append_nil]
    exact ⟨h, hpre⟩
  | cons e es ih =>
    intro pre found h hpre
    unfold scan
    by_cases hv : isVerified tag c e
    · rw [if_pos hv]
      exact ⟨e, by simp, hv⟩
    · rw [if_neg hv]
      have hpre' : ∀ e' ∈ pre ++ [e], isVerified tag c e' = false := by
        refine List.forall_mem_append.mpr ⟨hpre, List.forall_mem_singleton.mpr ?_⟩
        exact Bool.not_eq_true _ |>.mp hv
      have hnext := ih (pre ++ [e]) _ (h.note e) hpre'
      rwa [List.append_assoc, List.singleton_append, List.length_append,
        List.length_singleton] at hnext

def NoRole (tag : Nat) (c : Insert) (r : Role) (bucket : Bucket) : Prop :=
  ∀ e ∈ bucket, role tag c e ≠ r

inductive Chosen (tag : Nat) (c : Insert) (bucket : Bucket) (e : PackedEntry) :
    Nat → Bool → Prop where
  | verified (i : Nat) (h : isVerified tag c e = true) : Chosen tag c bucket e i true
  | sameSpot (i : Nat) (h : role tag c e = .sameSpot) : Chosen tag c bucket e i false
  | empty (i : Nat) (h : role tag c e = .empty)
      (hsame : NoRole tag c .sameSpot bucket) : Chosen tag c bucket e i false
  | inadmissible (i : Nat) (h : role tag c e = .inadmissible)
      (hsame : NoRole tag c .sameSpot bucket) (hempty : NoRole tag c .empty bucket)
      (hfirst : ∀ j < i, ∀ e', bucket[j]? = some e' → role tag c e' ≠ .inadmissible) :
      Chosen tag c bucket e i false
  | collider (i : Nat) (h : role tag c e = .collider)
      (hsame : NoRole tag c .sameSpot bucket) (hempty : NoRole tag c .empty bucket)
      (hinad : NoRole tag c .inadmissible bucket) : Chosen tag c bucket e i false
  | oldest (i : Nat) (hsame : NoRole tag c .sameSpot bucket) (hempty : NoRole tag c .empty bucket)
      (hinad : NoRole tag c .inadmissible bucket) (hcoll : NoRole tag c .collider bucket)
      (hlow : (role tag c e = .retained ∧
          ∀ e' ∈ bucket, role tag c e' = .retained → e.offset ≤ e'.offset) ∨
        (role tag c e = .current ∧ NoRole tag c .retained bucket ∧
          ∀ e' ∈ bucket, role tag c e' = .current → e.offset ≤ e'.offset)) :
      Chosen tag c bucket e i false

theorem noRole_of_none (h : slot = bucket.findIdx? fun e => role tag c e = r) (hnone : slot = none) :
    NoRole tag c r bucket := by
  rw [hnone] at h
  intro e he
  have := List.findIdx?_eq_none_iff.mp h.symm e he
  simpa using this

theorem first_of_some (h : slot = bucket.findIdx? fun e => role tag c e = r) (hsome : slot = some i) :
    ∃ e, bucket[i]? = some e ∧ role tag c e = r ∧
      ∀ j < i, ∀ e', bucket[j]? = some e' → role tag c e' ≠ r := by
  rw [hsome] at h
  obtain ⟨hi, hr, hfirst⟩ := List.findIdx?_eq_some_iff_getElem.mp h.symm
  refine ⟨bucket[i], List.getElem?_eq_getElem hi, of_decide_eq_true hr, fun j hj e' he' => ?_⟩
  obtain ⟨hj', rfl⟩ := List.getElem?_eq_some_iff.mp he'
  have := hfirst j hj
  simpa using this

theorem chooseInsertSlot_chosen (h : (chooseInsertSlot tag c bucket).slot = some i) :
    ∃ e, bucket[i]? = some e ∧ Chosen tag c bucket e i (chooseInsertSlot tag c bucket).verified ∧
      ((chooseInsertSlot tag c bucket).verified = false →
        ∀ e ∈ bucket, isVerified tag c e = false) := by
  have hscan := @scan_roles tag c bucket [] {}
    ⟨rfl, rfl, rfl, rfl, fun _ h => absurd h List.not_mem_nil,
      fun _ h => absurd h List.not_mem_nil⟩ (fun _ h => absurd h List.not_mem_nil)
  unfold chooseInsertSlot at h ⊢
  rw [List.length_nil, List.nil_append] at hscan
  cases hs : scan tag c bucket 0 {} with rw [hs] at hscan h
  | inl j =>
    obtain ⟨e, he, hv⟩ := hscan
    cases h
    exact ⟨e, he, .verified _ hv, (nomatch ·)⟩
  | inr found =>
    obtain ⟨hn, hnone⟩ := hscan
    simp only [] at h ⊢
    split at h
    · next hsame =>
      cases h
      obtain ⟨e, he, hr, -⟩ := first_of_some hn.sameSpot hsame
      exact ⟨e, he, .sameSpot _ hr, fun _ => hnone⟩
    · next hsame hempty =>
      cases h
      obtain ⟨e, he, hr, -⟩ := first_of_some hn.firstEmpty hempty
      exact ⟨e, he, .empty _ hr (noRole_of_none hn.sameSpot hsame), fun _ => hnone⟩
    · next hsame hempty hinad =>
      cases h
      obtain ⟨e, he, hr, hfirst⟩ := first_of_some hn.firstInadmissible hinad
      exact ⟨e, he, .inadmissible _ hr (noRole_of_none hn.sameSpot hsame)
        (noRole_of_none hn.firstEmpty hempty) hfirst, fun _ => hnone⟩
    · next hsame hempty hinad hcoll =>
      cases h
      obtain ⟨e, he, hr, -⟩ := first_of_some hn.firstCollider hcoll
      exact ⟨e, he, .collider _ hr (noRole_of_none hn.sameSpot hsame)
        (noRole_of_none hn.firstEmpty hempty) (noRole_of_none hn.firstInadmissible hinad),
        fun _ => hnone⟩
    · next hsame hempty hinad hcoll =>
      split at h <;> cases h
      next j o hold =>
      have hlow : ∃ e, bucket[i]? = some e ∧ ((role tag c e = .retained ∧
            ∀ e' ∈ bucket, role tag c e' = .retained → e.offset ≤ e'.offset) ∨
          (role tag c e = .current ∧ NoRole tag c .retained bucket ∧
            ∀ e' ∈ bucket, role tag c e' = .current → e.offset ≤ e'.offset)) := by
        have hret := hn.oldestRetained
        have hcur := hn.oldestCurrent
        cases hr : found.oldestRetained with rw [hr] at hold hret
        | some io =>
          cases hold
          obtain ⟨e, he, hrole, rfl, hle⟩ := hret
          exact ⟨e, he, .inl ⟨hrole, hle⟩⟩
        | none =>
          have hold' : found.oldestCurrent = some (i, o) := hold
          rw [hold'] at hcur
          obtain ⟨e, he, hrole, rfl, hle⟩ := hcur
          exact ⟨e, he, .inr ⟨hrole, hret, hle⟩⟩
      obtain ⟨e, he, hlow⟩ := hlow
      exact ⟨e, he, .oldest _ (noRole_of_none hn.sameSpot hsame)
        (noRole_of_none hn.firstEmpty hempty) (noRole_of_none hn.firstInadmissible hinad)
        (noRole_of_none hn.firstCollider hcoll) hlow, fun _ => hnone⟩

def dead (tag : Nat) (c : Insert) (e : PackedEntry) : Bool :=
  inUse e && e.tag == tag && (e.offset == c.offset || c.clears.contains e.offset)

structure After (tag : Nat) (c : Insert) (before after : Bucket) (i : Nat)
    (stored : PackedEntry) : Prop where
  slot : after[i]? = some stored
  other : ∀ j, j ≠ i → after[j]? = before[j]?.map fun e => if dead tag c e then .cleared else e

theorem after_cleanup {store : PackedEntry → PackedEntry} (hi : bucket[i]? = some e) :
    After tag c bucket (cleanup tag c i (bucket.modify i store)).1 i (store e) where
  slot := by
    rw [cleanup_slot, List.getElem?_modify, hi]
    simp
  other j hj := by
    have hne : i ≠ j := fun h => hj h.symm
    rw [cleanup, getElem?_clearWhere, List.getElem?_modify]
    simp only [hne, if_false, id_map', Nat.zero_add, dead, inUse, bne_iff_ne, ne_eq, hj,
      not_false_eq_true, Bool.and_eq_true, true_and]

def Distinct (bucket : Bucket) : Prop :=
  ∀ (i j : Nat) (e e' : PackedEntry), bucket[i]? = some e → bucket[j]? = some e' →
    inUse e = true → inUse e' = true → e.tag = e'.tag → e.offset = e'.offset → i = j

theorem distinct_iff (bucket : Bucket) :
    Distinct bucket ↔ ∀ i j : Fin bucket.length, inUse bucket[i] = true → inUse bucket[j] = true →
      bucket[i].tag = bucket[j].tag → bucket[i].offset = bucket[j].offset → i = j := by
  constructor
  · intro h i j hi hj htag hoff
    exact Fin.ext (h i j _ _ (List.getElem?_eq_getElem i.isLt) (List.getElem?_eq_getElem j.isLt)
      hi hj htag hoff)
  · intro h i j e e' hi hj hused hused' htag hoff
    obtain ⟨hlt, rfl⟩ := List.getElem?_eq_some_iff.mp hi
    obtain ⟨hlt', rfl⟩ := List.getElem?_eq_some_iff.mp hj
    exact congrArg Fin.val (h ⟨i, hlt⟩ ⟨j, hlt'⟩ hused hused' htag hoff)

instance (bucket : Bucket) : Decidable (Distinct bucket) :=
  decidable_of_iff _ (distinct_iff bucket).symm

namespace After

variable {before after : Bucket} {i : Nat} {stored : PackedEntry} {e : PackedEntry} {j : Nat}

section

variable (h : After tag c before after i stored)
include h

theorem old (hj : j ≠ i) (he : after[j]? = some e) (hused : inUse e = true) :
    before[j]? = some e ∧ dead tag c e = false := by
  rw [h.other j hj] at he
  obtain ⟨a, ha, hae⟩ := Option.map_eq_some_iff.mp he
  by_cases hd : dead tag c a = true
  · rw [if_pos hd] at hae
    rw [← hae] at hused
    exact absurd hused (by decide)
  · rw [if_neg hd] at hae
    subst hae
    exact ⟨ha, Bool.not_eq_true _ |>.mp hd⟩

theorem unique (he : after[j]? = some e) (hused : inUse e = true) (htag : e.tag = tag)
    (hoff : e.offset = c.offset) : j = i := by
  by_contra hj
  have hdead := (h.old hj he hused).2
  simp [dead, hused, htag, hoff] at hdead

theorem distinct (hcarries : Carries tag c stored) (hbefore : Distinct before) :
    Distinct after := by
  intro j k e e' he he' hused hused' htag hoff
  by_cases hj : j = i
  · subst hj
    cases Option.some.inj (he.symm.trans h.slot)
    exact (h.unique he' hused' (htag ▸ hcarries.tag) (hoff ▸ hcarries.offset)).symm
  · by_cases hk : k = i
    · subst hk
      cases Option.some.inj (he'.symm.trans h.slot)
      exact h.unique he hused (htag ▸ hcarries.tag) (hoff ▸ hcarries.offset)
    · exact hbefore j k e e' (h.old hj he hused).1 (h.old hk he' hused').1 hused hused' htag hoff

end

end After

def foreign (tag : Nat) (e : PackedEntry) : Bool := inUse e && e.tag != tag

structure Victim (tag : Nat) (c : Insert) (bucket : Bucket) (i : Nat) : Prop where
  noVerified : ∀ e ∈ bucket, isVerified tag c e = false
  noSameSpot : ∀ e ∈ bucket, inUse e = true → e.tag = tag → e.offset ≠ c.offset
  noEmpty : ∀ e ∈ bucket, inUse e = true
  which : ∃ e, bucket[i]? = some e ∧
    -- the first inadmissible entry,
    ((c.classify e.offset e.phase = .kReject ∧
        ∀ j < i, ∀ e', bucket[j]? = some e' → c.classify e'.offset e'.phase ≠ .kReject) ∨
      -- or with none, and no entry of the tag, the lowest retained one or else
      -- the lowest
      ((∀ e' ∈ bucket, c.classify e'.offset e'.phase ≠ .kReject ∧ e'.tag ≠ tag) ∧
        ((c.classify e.offset e.phase = .kRetained ∧
            ∀ e' ∈ bucket, c.classify e'.offset e'.phase = .kRetained → e.offset ≤ e'.offset) ∨
          ∀ e' ∈ bucket, c.classify e'.offset e'.phase = .kCurrent ∧ e.offset ≤ e'.offset)))

structure InsertPost (tag : Nat) (c : Insert) (before after : Bucket) : Prop where
  one : ∃ (i : Nat) (e : PackedEntry), after[i]? = some e ∧ Carries tag c e ∧
    ∀ (j : Nat) (e' : PackedEntry), after[j]? = some e' → inUse e' = true → e'.tag = tag →
      e'.offset = c.offset → j = i
  gone : ∀ e ∈ after, inUse e = true → e.tag = tag →
    e.offset ∉ c.clears ∧ (e.offset = c.verified → c.verified = c.offset)
  distinct : Distinct after
  others : ∃ victim : Option Nat,
    (∀ i, victim ≠ some i → after[i]?.filter (foreign tag) = before[i]?.filter (foreign tag)) ∧
    ∀ i ∈ victim, Victim tag c before i

theorem offset_ne_of_noRole (hok : c.Ok) (h : NoRole tag c .sameSpot bucket) :
    ∀ e ∈ bucket, inUse e = true → e.tag = tag → e.offset ≠ c.offset := by
  intro e he hused htag hoff
  apply h e he
  unfold role
  rw [if_neg (by simpa [inUse] using hused), if_pos ⟨hok.1, htag, hoff⟩]

theorem inUse_of_noRole (h : NoRole tag c .empty bucket) : ∀ e ∈ bucket, inUse e = true := by
  intro e he
  by_contra hused
  apply h e he
  unfold role
  rw [if_pos (by simpa [inUse] using hused)]

theorem tag_of_role (h : role tag c e = .sameSpot ∨ role tag c e = .collider) : e.tag = tag := by
  by_contra htag
  unfold role at h
  split_ifs at h <;> simp_all

theorem isEmpty_of_role (h : role tag c e = .empty) : e.isEmpty = true := by
  unfold role at h
  split_ifs at h
  assumption

theorem role_eq (hsame : role tag c e ≠ .sameSpot) (hempty : role tag c e ≠ .empty) :
    role tag c e = if c.classify e.offset e.phase = .kReject then .inadmissible
      else if e.tag = tag then .collider
      else if c.classify e.offset e.phase = .kRetained then .retained
      else .current := by
  unfold role at hsame hempty ⊢
  by_cases he : e.isEmpty = true
  · exact absurd (if_pos he) hempty
  · rw [if_neg he] at hsame ⊢
    by_cases hs : c.offset ≠ 0 ∧ e.tag = tag ∧ e.offset = c.offset
    · exact absurd (if_pos hs) hsame
    · rw [if_neg hs]

theorem Chosen.victim {verified : Bool} (h : Chosen tag c bucket e i verified) (hok : c.Ok)
    (hi : bucket[i]? = some e) (hnone : verified = false → ∀ e ∈ bucket, isVerified tag c e = false)
    (hforeign : foreign tag e = true) : Victim tag c bucket i := by
  obtain ⟨hused, htag⟩ := Bool.and_eq_true_iff.mp hforeign
  have htag : e.tag ≠ tag := by simpa using htag
  have hmem := List.mem_of_getElem? hi
  have hrole : ∀ e' ∈ bucket, NoRole tag c .sameSpot bucket → NoRole tag c .empty bucket →
      role tag c e' = if c.classify e'.offset e'.phase = .kReject then .inadmissible
        else if e'.tag = tag then .collider
        else if c.classify e'.offset e'.phase = .kRetained then .retained
        else .current := fun e' he' hsame hempty => role_eq (hsame e' he') (hempty e' he')
  cases h with
  | verified h =>
    simp [isVerified, htag] at h
  | sameSpot h => exact absurd (tag_of_role (.inl h)) htag
  | empty h hsame =>
    simp [inUse, isEmpty_of_role h] at hused
  | collider h hsame hempty hinad => exact absurd (tag_of_role (.inr h)) htag
  | inadmissible h hsame hempty hfirst =>
    refine ⟨hnone rfl, offset_ne_of_noRole hok hsame, inUse_of_noRole hempty, e, hi, .inl ⟨?_, ?_⟩⟩
    · rw [hrole e hmem hsame hempty] at h
      by_contra hr
      simp only [hr, htag, if_false] at h
      split at h <;> cases h
    · intro j hj e' he' hr
      apply hfirst j hj e' he'
      rw [hrole e' (List.mem_of_getElem? he') hsame hempty, if_pos hr]
  | oldest hsame hempty hinad hcoll hlow =>
    have hall : ∀ e' ∈ bucket, c.classify e'.offset e'.phase ≠ .kReject ∧ e'.tag ≠ tag := by
      intro e' he'
      have hnr : c.classify e'.offset e'.phase ≠ .kReject := by
        intro hr
        apply hinad e' he'
        rw [hrole e' he' hsame hempty, if_pos hr]
      refine ⟨hnr, fun ht => hcoll e' he' ?_⟩
      rw [hrole e' he' hsame hempty, if_neg hnr, if_pos ht]
    have hrole' : ∀ e' ∈ bucket, role tag c e' =
        if c.classify e'.offset e'.phase = .kRetained then .retained else .current := by
      intro e' he'
      rw [hrole e' he' hsame hempty, if_neg (hall e' he').1, if_neg (hall e' he').2]
    refine ⟨hnone rfl, offset_ne_of_noRole hok hsame, inUse_of_noRole hempty, e, hi,
      .inr ⟨hall, ?_⟩⟩
    rcases hlow with ⟨hr, hle⟩ | ⟨hr, hret, hle⟩
    · left
      rw [hrole' e hmem] at hr
      refine ⟨?_, fun e' he' hk => hle e' he' ?_⟩
      · by_contra hk
        rw [if_neg hk] at hr
        cases hr
      · rw [hrole' e' he', if_pos hk]
    · right
      intro e' he'
      have hnot : c.classify e'.offset e'.phase ≠ .kRetained := by
        intro hk
        apply hret e' he'
        rw [hrole' e' he', if_pos hk]
      refine ⟨?_, hle e' he' ?_⟩
      · have hrej := (hall e' he').1
        cases hk : c.classify e'.offset e'.phase with
        | kCurrent => rfl
        | kRetained => exact absurd hk hnot
        | kReject => exact absurd hk hrej
      · rw [hrole' e' he', if_neg hnot]

theorem bracket_inserted {store : Choice → PackedEntry → PackedEntry}
    (h : (bracket store tag c bucket).answer.inserted = true) :
    ∃ i, (chooseInsertSlot tag c bucket).slot = some i ∧ (bracket store tag c bucket).bucket =
      (cleanup tag c i (bucket.modify i (store (chooseInsertSlot tag c bucket)))).1 := by
  unfold bracket at h ⊢
  split at h
  · cases h
  · next hfresh =>
    rw [if_neg hfresh]
    unfold publish at h ⊢
    split at h
    · cases h
    · next i hslot => exact ⟨i, hslot, rfl⟩

theorem toNat_offset_lt (e : PackedEntry) : e.offset.toNat < 2 ^ 40 := by
  have h0 := e.w0.isLt
  have h4 := e.w4.isLt
  have h1 : (e.w1 &&& 0xFF#16).toNat < 2 ^ 8 :=
    BitVec.toNat_and e.w1 0xFF#16 ▸ Nat.and_lt_two_pow _ (by decide)
  have hw : ∀ (x : BitVec 16) (k n : Nat), x.toNat < 2 ^ n → n + k ≤ 40 →
      (x.setWidth 64 <<< k).toNat < 2 ^ 40 := by
    intro x k n hx hk
    rw [BitVec.toNat_shiftLeft, BitVec.toNat_setWidth, Nat.shiftLeft_eq]
    have hx64 : x.toNat % 2 ^ 64 = x.toNat := Nat.mod_eq_of_lt (by omega)
    rw [hx64]
    calc x.toNat * 2 ^ k % 2 ^ 64 ≤ x.toNat * 2 ^ k := Nat.mod_le _ _
      _ < 2 ^ n * 2 ^ k := Nat.mul_lt_mul_of_pos_right hx (by positivity)
      _ = 2 ^ (n + k) := (pow_add 2 n k).symm
      _ ≤ 2 ^ 40 := Nat.pow_le_pow_right (by decide) hk
  have hw0 : (e.w0.setWidth 64).toNat < 2 ^ 40 := by
    rw [BitVec.toNat_setWidth]
    omega
  simp only [PackedEntry.offset, PackedEntry.offsetWords, DirWords.offset, BitVec.toNat_or]
  exact Nat.or_lt_two_pow (Nat.or_lt_two_pow hw0 (hw _ 16 8 h1 (by decide)))
    (hw _ 24 16 h4 (by decide))

theorem verified_ne_matchAny (hoff : e.offset = c.verified) : c.verified ≠ kMatchAnyTag := by
  intro h
  have hlt := toNat_offset_lt e
  rw [hoff, h] at hlt
  exact absurd hlt (by decide)

theorem isVerified_iff {a : PackedEntry} (hoff : a.offset = c.verified) :
    isVerified tag c e = true ↔ inUse e = true ∧ e.tag = tag ∧ e.offset = c.verified := by
  simp only [isVerified, verified_ne_matchAny hoff, if_false, Bool.and_eq_true, beq_iff_eq,
    and_assoc]

theorem Chosen.tag_of_verified {verified : Bool} (h : Chosen tag c bucket e i verified)
    (hv : verified = true) : isVerified tag c e = true ∧ e.tag = tag := by
  subst hv
  cases h with
  | verified h =>
    refine ⟨h, ?_⟩
    simp only [isVerified, Bool.and_eq_true, beq_iff_eq] at h
    exact h.1.2

section

variable {before after : Bucket} {i : Nat} {e stored : PackedEntry} {verified : Bool}

theorem After.gone (h : After tag c before after i stored) (hcarries : Carries tag c stored)
    (hclears : c.offset ∉ c.clears) (hbefore : Distinct before) (he : before[i]? = some e)
    (hchosen : Chosen tag c before e i verified)
    (hnone : verified = false → ∀ e ∈ before, isVerified tag c e = false) :
    ∀ a ∈ after, inUse a = true → a.tag = tag →
      a.offset ∉ c.clears ∧ (a.offset = c.verified → c.verified = c.offset) := by
  intro a ha hused htag
  obtain ⟨j, hj⟩ := List.mem_iff_getElem?.mp ha
  by_cases hji : j = i
  · subst hji
    cases Option.some.inj (hj.symm.trans h.slot)
    rw [hcarries.offset]
    exact ⟨hclears, fun h => h.symm⟩
  · obtain ⟨hold, hdead⟩ := h.old hji hj hused
    have hlive : a.offset ≠ c.offset ∧ a.offset ∉ c.clears := by
      simpa [dead, hused, htag] using hdead
    refine ⟨hlive.2, fun hv => absurd ?_ hji⟩
    -- an entry at the verified offset was the verified one, so it is the slot
    have hver := (isVerified_iff hv).mpr ⟨hused, htag, hv⟩
    cases verified with
    | false => exact absurd hver (by simp [hnone rfl a (List.mem_of_getElem? hold)])
    | true =>
      obtain ⟨hused', htag', hoff'⟩ := (isVerified_iff hv).mp (hchosen.tag_of_verified rfl).1
      exact hbefore j i a e hold he hused hused' (htag.trans htag'.symm) (hv.trans hoff'.symm)

theorem After.foreign_eq (h : After tag c before after i stored) (hcarries : Carries tag c stored)
    (he : before[i]? = some e) (j : Nat) (hj : j = i → foreign tag e = false) :
    after[j]?.filter (foreign tag) = before[j]?.filter (foreign tag) := by
  by_cases hji : j = i
  · subst hji
    have hstored : foreign tag stored = false := by simp [foreign, hcarries.tag]
    rw [h.slot, he, Option.filter_some, Option.filter_some, hstored, hj rfl]
    rfl
  · rw [h.other j hji]
    cases hb : before[j]? with
    | none => rfl
    | some a =>
      by_cases hd : dead tag c a = true
      · have hforeign : foreign tag a = false := by
          simp only [dead, Bool.and_eq_true, beq_iff_eq] at hd
          simp [foreign, hd.1.2]
        have hcleared : foreign tag PackedEntry.cleared = false := by simp [foreign]
        simp only [Option.map_some, if_pos hd, Option.filter_some, hforeign, hcleared,
          Bool.false_eq_true, if_false]
      · simp only [Option.map_some, if_neg hd]

end

theorem insertPost_bracket (hok : c.Ok) (htag : tag < 2 ^ 12) (hclears : c.offset ∉ c.clears)
    (hbefore : Distinct bucket)
    (h : (bracket (Directory.store tag c) tag c bucket).answer.inserted = true) :
    InsertPost tag c bucket (bracket (Directory.store tag c) tag c bucket).bucket := by
  obtain ⟨i, hslot, hbucket⟩ := bracket_inserted h
  obtain ⟨e, he, hchosen, hnone⟩ := chooseInsertSlot_chosen hslot
  have hcarries : Carries tag c (Directory.store tag c (chooseInsertSlot tag c bucket) e) :=
    carries_store hok htag fun hv => (hchosen.tag_of_verified hv).2
  have hafter := @after_cleanup tag c bucket e i
    (Directory.store tag c (chooseInsertSlot tag c bucket)) he
  rw [hbucket]
  refine ⟨⟨i, _, hafter.slot, hcarries, fun j e' h1 h2 h3 h4 => hafter.unique h1 h2 h3 h4⟩,
    hafter.gone hcarries hclears hbefore he hchosen hnone, hafter.distinct hcarries hbefore,
    if foreign tag e then some i else none, fun j hj => ?_, fun j hj => ?_⟩
  · apply hafter.foreign_eq hcarries he j
    intro hji
    by_contra hf
    rw [hji, if_pos (Bool.not_eq_false _ |>.mp hf)] at hj
    exact hj rfl
  · by_cases hf : foreign tag e = true
    · rw [if_pos hf] at hj
      cases hj
      exact hchosen.victim hok he hnone hf
    · rw [if_neg hf] at hj
      cases hj

end

/-- What an insert that reports success has done: the postconditions in the
bucket of its key, no other bucket touched, and the count moved by as much as
the number of entries in use. -/
theorem insert_postconditions {z : Size} (d : Directory z) (key : CacheKey) (c : Insert)
    (hok : c.Ok) (hclears : c.offset ∉ c.clears)
    (hdistinct : Distinct (d.entries (z.bucketIdx key)))
    (h : (d.insert key c).2.inserted = true) :
    InsertPost key.tag c (d.entries (z.bucketIdx key))
        ((d.insert key c).1.entries (z.bucketIdx key)) ∧
      (∀ b, b ≠ z.bucketIdx key → (d.insert key c).1.entries b = d.entries b) ∧
      (d.insert key c).1.count + BitVec.ofNat 64 (occupied d.entries) =
        d.count + BitVec.ofNat 64 (occupied (d.insert key c).1.entries) := by
  have htag : key.tag < 2 ^ 12 := Nat.mod_lt _ (by decide)
  refine ⟨?_, fun b hb => ?_, ?_⟩
  · simp only [Directory.insert, Function.update_self]
    exact insertPost_bracket hok htag hclears hdistinct h
  · simp only [Directory.insert, Function.update_of_ne hb]
  · obtain ⟨-, k, hcounted⟩ := @insert_counted z d ⟨d.entries, 0⟩ key c hok rfl
    have hocc := congrArg (BitVec.ofNat 64) hcounted.occupied
    rw [BitVec.ofNat_add, BitVec.ofNat_add] at hocc
    rw [hcounted.count]
    cases hmore : (Call.insert key c).takesEmptySlot d.entries with
    | false =>
      rw [hmore, Bool.toNat_false] at hocc
      rw [if_neg Bool.false_ne_true]
      grind
    | true =>
      rw [hmore, Bool.toNat_true] at hocc
      rw [if_pos rfl]
      grind

def fullBucket : Directory single := inProcess single (fillAll 1)

theorem insert_postconditions_full :
    (fullBucket.insert (keyOf 0 4) { filler with offset := 16 }).2.inserted = true ∧
      InsertPost 4 { filler with offset := 16 } (filled 4)
        ((fullBucket.insert (keyOf 0 4) { filler with offset := 16 }).1.entries
          (single.bucketIdx (keyOf 0 4))) := by
  have hbucket : fullBucket.entries (single.bucketIdx (keyOf 0 4)) = filled 4 := by
    decide +kernel
  have hdistinct : Distinct (filled 4) := by decide +kernel
  have hinserted :
      (fullBucket.insert (keyOf 0 4) { filler with offset := 16 }).2.inserted = true := by
    decide +kernel
  have hpost := (insert_postconditions fullBucket (keyOf 0 4) { filler with offset := 16 }
    ⟨by decide, by decide⟩ (by decide) (hbucket ▸ hdistinct) hinserted).1
  exact ⟨hinserted, hbucket ▸ hpost⟩

end Directories

end CycloneCache.Ref

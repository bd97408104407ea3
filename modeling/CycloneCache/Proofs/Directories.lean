import CycloneCache.Ref.Directories
import CycloneCache.Proofs.Offsets

namespace CycloneCache.Ref

open Function

namespace PackedEntry

variable (e : PackedEntry)

theorem low_byte_or_shiftLeft {m : BitVec 16} {n : Nat} (w x : BitVec 16)
    (hm : m &&& 0xFF#16 = 0xFF#16) (hn : 8 ≤ n) :
    ((w &&& m) ||| (x <<< n)) &&& 0xFF#16 = w &&& 0xFF#16 := by
  apply BitVec.eq_of_getElem_eq
  intro i hi
  have hmi : (m[i] && (0xFF#16)[i]) = (0xFF#16)[i] := by rw [← BitVec.getElem_and, hm]
  simp only [BitVec.getElem_and, BitVec.getElem_or, BitVec.getElem_shiftLeft]
  by_cases h8 : i < 8
  · rw [decide_eq_true (show i < n by omega)]
    simp [Bool.and_assoc, hmi]
  · interval_cases i <;> first | omega | simp

@[simp]
theorem offset_setApproxSize (bytes : Nat) : (e.setApproxSize bytes).offset = e.offset := by
  simp only [offset, offsetWords, setApproxSize, setBig, setSize, DirWords.offset]
  rw [low_byte_or_shiftLeft _ _ (by decide) (by decide),
    low_byte_or_shiftLeft _ _ (by decide) (by decide)]

@[simp]
theorem offset_setOffset (o : BitVec 64) : (e.setOffset o).offset = (o.setWidth 40).setWidth 64 :=
  Volume.offset_setOffset e.offsetWords o

@[simp]
theorem offset_setFillSerial (serial : BitVec 16) : (e.setFillSerial serial).offset = e.offset :=
  rfl

@[simp]
theorem offset_setTag (tag : Nat) : (e.setTag tag).offset = e.offset := rfl

@[simp]
theorem offset_setPhase (phase : Bool) : (e.setPhase phase).offset = e.offset := rfl

@[simp]
theorem offset_setHead (head : Bool) : (e.setHead head).offset = e.offset := rfl

theorem setTag_of_tag {tag : Nat} (h : e.tag = tag) : e.setTag tag = e := by
  subst h
  have hw : (e.w2 &&& 0xF000#16) ||| (BitVec.ofNat 16 e.tag &&& 0x0FFF#16) = e.w2 := by
    rw [tag, BitVec.ofNat_toNat, BitVec.setWidth_eq]
    apply BitVec.eq_of_getElem_eq
    intro i hi
    simp only [BitVec.getElem_and, BitVec.getElem_or]
    interval_cases i <;> simp
  simp only [setTag, hw]

@[simp]
theorem isEmpty_cleared : cleared.isEmpty = true := by decide

end PackedEntry

namespace Directories

variable {c : Insert} {choice : Choice} {e : PackedEntry} {tag i k : Nat} {bucket : Bucket}

theorem inUse_store (hok : c.Ok) (tag : Nat) (choice : Choice) (e : PackedEntry) :
    inUse (Directory.store tag c choice e) = true := by
  obtain ⟨hne, hlt⟩ := hok
  have hkeep : (c.offset.setWidth 40).setWidth 64 = c.offset := by
    apply BitVec.eq_of_toNat_eq
    simp only [BitVec.toNat_setWidth]
    omega
  have hoff : (Directory.store tag c choice e).offset = c.offset := by
    unfold Directory.store
    split <;> simp [hkeep]
  simp only [inUse, PackedEntry.isEmpty, hoff, Bool.not_eq_true', beq_eq_false_iff_ne]
  exact hne

theorem store_eq (htag : choice.verified = true → e.tag = tag) :
    MmapDirectory.store tag c choice e = Directory.store tag c choice e := by
  unfold MmapDirectory.store Directory.store
  cases hv : choice.verified with
  | false => rfl
  | true =>
    simp only [if_true]
    rw [PackedEntry.setTag_of_tag]
    exact htag hv -- no setter before it touches the word of the tag

def SlotOf (bucket : Bucket) (used : Bool) (slot : Option Nat) : Prop :=
  ∀ i ∈ slot, ∃ e, bucket[i]? = some e ∧ inUse e = used

theorem SlotOf.first {used : Bool} {slot : Option Nat} (h : SlotOf bucket used slot)
    (hi : bucket[i]? = some e) (he : inUse e = used) : SlotOf bucket used (slot <|> some i) := by
  intro j hj
  cases slot with
  | none =>
    cases Option.mem_some.mp hj
    exact ⟨e, hi, he⟩
  | some k => exact h j hj

theorem SlotOf.lower {oldest : Option (Nat × BitVec 64)}
    (h : SlotOf bucket true (oldest.map Prod.fst)) (hi : bucket[i]? = some e) (he : inUse e = true) :
    SlotOf bucket true ((lower oldest i e).map Prod.fst) := by
  intro j hj
  unfold Directories.lower at hj
  split at hj
  · cases Option.mem_some.mp hj
    exact ⟨e, hi, he⟩
  · split at hj
    · cases Option.mem_some.mp hj
      exact ⟨e, hi, he⟩
    · exact h j hj

theorem SlotOf.chosen {used : Bool} {slots : Option Nat} {slot : Nat} (h : SlotOf bucket used slots)
    (hslot : slots = some slot) (tag : Nat) :
    ∃ e, bucket[slot]? = some e ∧ inUse e = used ∧ (false = true → e.tag = tag) := by
  obtain ⟨e, he, hused⟩ := h slot hslot
  exact ⟨e, he, hused, nofun⟩

structure Candidates.Ok (bucket : Bucket) (found : Candidates) : Prop where
  sameSpot : SlotOf bucket true found.sameSpot
  firstEmpty : SlotOf bucket false found.firstEmpty
  firstInadmissible : SlotOf bucket true found.firstInadmissible
  firstCollider : SlotOf bucket true found.firstCollider
  oldestRetained : SlotOf bucket true (found.oldestRetained.map Prod.fst)
  oldestCurrent : SlotOf bucket true (found.oldestCurrent.map Prod.fst)

theorem Candidates.Ok.note {found : Candidates} (tag : Nat) (c : Insert) (h : found.Ok bucket)
    (hi : bucket[i]? = some e) : (found.note tag c i e).Ok bucket := by
  unfold Candidates.note
  split
  · next hempty => exact { h with firstEmpty := h.firstEmpty.first hi (by simp [hempty]) }
  · next hused =>
    have he : inUse e = true := by simpa using hused
    split
    · exact { h with sameSpot := h.sameSpot.first hi he }
    split
    · exact { h with firstInadmissible := h.firstInadmissible.first hi he }
    split
    · exact { h with firstCollider := h.firstCollider.first hi he }
    split
    · exact { h with oldestRetained := h.oldestRetained.lower hi he }
    · exact { h with oldestCurrent := h.oldestCurrent.lower hi he }

theorem scan_spec (tag : Nat) (c : Insert) (es : Bucket) :
    ∀ (pre : Bucket) (found : Candidates), found.Ok (pre ++ es) →
      match scan tag c es pre.length found with
      | .inl i => ∃ e, (pre ++ es)[i]? = some e ∧ inUse e = true ∧ e.tag = tag
      | .inr found => found.Ok (pre ++ es) := by
  induction es with
  | nil => exact fun _ _ h => h
  | cons e es ih =>
    intro pre found h
    have hi : (pre ++ e :: es)[pre.length]? = some e := by simp
    unfold scan
    by_cases hv : isVerified tag c e
    · rw [if_pos hv]
      simp only [isVerified, Bool.and_eq_true, beq_iff_eq] at hv
      exact ⟨e, hi, hv.1.1, hv.1.2⟩
    · rw [if_neg hv]
      have hnext := ih (pre ++ [e]) (found.note tag c pre.length e)
      rw [List.append_assoc, List.singleton_append, List.length_append,
        List.length_singleton] at hnext
      exact hnext (h.note tag c hi)

def Choice.Ok (tag : Nat) (bucket : Bucket) (choice : Choice) : Prop :=
  ∀ slot, choice.slot = some slot → ∃ e, bucket[slot]? = some e ∧ inUse e = choice.replaces ∧
    (choice.verified = true → e.tag = tag)

theorem chooseInsertSlot_spec (tag : Nat) (c : Insert) (bucket : Bucket) :
    (chooseInsertSlot tag c bucket).Ok tag bucket := by
  intro slot h
  have hnone : ∀ used, SlotOf bucket used none := nofun
  have hscan := scan_spec tag c bucket [] {} ⟨hnone _, hnone _, hnone _, hnone _, hnone _, hnone _⟩
  unfold chooseInsertSlot at h ⊢
  rw [List.length_nil] at hscan
  cases hs : scan tag c bucket 0 {} with rw [hs] at hscan h
  | inl i =>
    obtain ⟨e, he, hused, htag⟩ := hscan
    cases h
    exact ⟨e, he, hused, fun _ => htag⟩
  | inr found =>
    simp only [List.nil_append] at hscan h ⊢
    split at h
    · next hsame => exact hscan.sameSpot.chosen (hsame.trans h) tag
    · next _ hempty => exact hscan.firstEmpty.chosen (hempty.trans h) tag
    · next _ _ hinad => exact hscan.firstInadmissible.chosen (hinad.trans h) tag
    · next hcoll => exact hscan.firstCollider.chosen (hcoll.trans h) tag
    · split at h
      · next i o hold =>
        have hboth : SlotOf bucket true
            ((found.oldestRetained <|> found.oldestCurrent).map Prod.fst) := by
          cases hr : found.oldestRetained with
          | none => simpa [hr] using hscan.oldestCurrent
          | some _ => simpa [hr] using hscan.oldestRetained
        rw [hold] at hboth
        exact hboth.chosen h tag
      · cases h

theorem publish_store_eq (hchoice : choice.Ok tag bucket) :
    publish (MmapDirectory.store tag c choice) tag c bucket choice =
      publish (Directory.store tag c choice) tag c bucket choice := by
  unfold publish
  cases hslot : choice.slot with
  | none => rfl
  | some slot =>
    obtain ⟨e, he, -, htag⟩ := hchoice slot hslot
    have hstored : bucket.modify slot (MmapDirectory.store tag c choice) =
        bucket.modify slot (Directory.store tag c choice) := by
      apply List.ext_getElem?
      intro i
      rw [List.getElem?_modify, List.getElem?_modify]
      by_cases hi : slot = i
      · rw [← hi, he]
        simp only [if_true, Option.map_eq_map, Option.map_some, store_eq htag]
      · simp only [hi, if_false]
    simp only [hstored]

theorem bracket_store_eq (tag : Nat) (c : Insert) (bucket : Bucket) :
    bracket (MmapDirectory.store tag c) tag c bucket = bracket (Directory.store tag c) tag c bucket := by
  unfold bracket
  rw [publish_store_eq (chooseInsertSlot_spec tag c bucket)]

theorem getElem?_clearWhere (dies : Nat → PackedEntry → Bool) (bucket : Bucket) :
    ∀ i j, (clearWhere dies i bucket).1[j]? =
      bucket[j]?.map fun e => if dies (i + j) e then .cleared else e := by
  induction bucket with
  | nil => exact fun _ _ => rfl
  | cons e es ih =>
    intro i j
    unfold clearWhere
    cases j with
    | zero => by_cases hd : dies i e <;> simp [hd]
    | succ j =>
      have hes := ih (i + 1) j
      rw [show i + 1 + j = i + (j + 1) by omega] at hes
      by_cases hd : dies i e <;> simpa [hd] using hes

theorem snd_clearWhere (dies : PackedEntry → Bool) (bucket : Bucket) :
    ∀ i, (clearWhere (fun _ => dies) i bucket).2 = bucket.countP dies := by
  induction bucket with
  | nil => exact fun _ => rfl
  | cons e es ih =>
    intro i
    unfold clearWhere
    by_cases hd : dies e <;> simp [hd, ih]

theorem countP_clearWhere {dies : Nat → PackedEntry → Bool}
    (hdies : ∀ i e, dies i e = true → inUse e = true) (bucket : Bucket) :
    ∀ i, (clearWhere dies i bucket).1.countP inUse + (clearWhere dies i bucket).2 =
      bucket.countP inUse := by
  induction bucket with
  | nil => exact fun _ => rfl
  | cons e es ih =>
    intro i
    have hes := ih (i + 1)
    unfold clearWhere
    by_cases hd : dies i e
    · have hcleared : inUse .cleared = false := by decide
      simp only [if_pos hd, List.countP_cons, hdies i e hd, hcleared, if_true]
      simp only [Bool.false_eq_true, if_false]
      omega
    · simp only [if_neg hd, List.countP_cons]
      omega

theorem countP_modify {p : PackedEntry → Bool} {f : PackedEntry → PackedEntry} (hf : p (f e) = true)
    (bucket : Bucket) :
    ∀ slot, bucket[slot]? = some e →
      (bucket.modify slot f).countP p + (if p e then 1 else 0) = bucket.countP p + 1 := by
  induction bucket with
  | nil => exact nofun
  | cons a as ih =>
    intro slot h
    cases slot with
    | zero =>
      cases h
      simp only [List.modify_zero_cons, List.countP_cons, hf, if_true]
      omega
    | succ slot =>
      have has := ih slot (by simpa using h)
      simp only [List.modify_succ_cons, List.countP_cons]
      omega

theorem cleanup_count (tag : Nat) (c : Insert) (slot : Nat) (bucket : Bucket) :
    (cleanup tag c slot bucket).1.countP inUse + (cleanup tag c slot bucket).2 = bucket.countP inUse :=
  countP_clearWhere (fun i e h => by simp only [Bool.and_eq_true] at h; exact h.1.1.2) bucket 0

theorem cleanup_slot (tag : Nat) (c : Insert) (slot : Nat) (bucket : Bucket) :
    (cleanup tag c slot bucket).1[slot]? = bucket[slot]? := by
  rw [cleanup, getElem?_clearWhere]
  simp

theorem publish_count (hok : c.Ok) (hchoice : choice.Ok tag bucket) :
    let b := publish (Directory.store tag c choice) tag c bucket choice
    b.bucket.countP inUse + b.cleared = bucket.countP inUse + b.added.toNat ∧
      (b.added = true → 0 < b.bucket.countP inUse) := by
  unfold publish
  cases hslot : choice.slot with
  | none => simp
  | some slot =>
    obtain ⟨e, he, hused, -⟩ := hchoice slot hslot
    have hin := inUse_store hok tag choice e
    have hstored := countP_modify hin bucket slot he
    refine ⟨?_, fun _ => ?_⟩
    · simp only [cleanup_count]
      rw [hused] at hstored
      cases hr : choice.replaces <;> simp [hr] at hstored ⊢ <;> omega
    · have hkept := cleanup_slot tag c slot (bucket.modify slot (Directory.store tag c choice))
      rw [List.getElem?_modify, he] at hkept
      simp only [if_true, Option.map_eq_map, Option.map_some] at hkept
      exact List.countP_pos_iff.mpr ⟨_, List.mem_of_getElem? hkept, hin⟩

theorem bracket_count (hok : c.Ok) (tag : Nat) (bucket : Bucket) :
    let b := bracket (Directory.store tag c) tag c bucket
    b.bucket.countP inUse + b.cleared = bucket.countP inUse + b.added.toNat ∧
      (b.added = true → 0 < b.bucket.countP inUse) := by
  unfold bracket
  split
  · simp
  · exact publish_count hok (chooseInsertSlot_spec tag c bucket)

def hit (tag : Nat) (offsets : List (BitVec 64)) (e : PackedEntry) : Bool :=
  inUse e && e.tag == tag && offsets.contains e.offset

def sweep (tag : Nat) (offsets : List (BitVec 64)) (bucket : Bucket) : Bucket :=
  bucket.map fun e => if hit tag offsets e then .cleared else e

@[simp]
theorem hit_cleared (tag : Nat) (offsets : List (BitVec 64)) :
    hit tag offsets .cleared = false := by
  simp [hit]

theorem hit_cons (tag : Nat) (o : BitVec 64) (os : List (BitVec 64)) (e : PackedEntry) :
    hit tag (o :: os) e = (hit tag [o] e || hit tag os e) := by
  simp only [hit, List.contains_cons, List.contains_nil, Bool.or_false, Bool.and_or_distrib_left]

theorem removeAt_eq (tag : Nat) (o : BitVec 64) (bucket : Bucket) :
    removeAt tag o bucket = (sweep tag [o] bucket, bucket.countP (hit tag [o])) := by
  have hdies : (fun e : PackedEntry => !e.isEmpty && e.tag == tag && e.offset == o) =
      hit tag [o] := by
    funext e
    simp only [hit, List.contains_cons, List.contains_nil, Bool.or_false]
  unfold removeAt
  rw [hdies]
  refine Prod.ext (List.ext_getElem? fun j => ?_) (snd_clearWhere _ _ _)
  rw [getElem?_clearWhere, sweep, List.getElem?_map]

theorem sweep_cons (tag : Nat) (o : BitVec 64) (os : List (BitVec 64)) (bucket : Bucket) :
    sweep tag os (sweep tag [o] bucket) = sweep tag (o :: os) bucket := by
  simp only [sweep, List.map_map]
  congr 1
  funext e
  rw [comp_apply, hit_cons tag o os]
  by_cases h : hit tag [o] e <;> simp [h]

theorem countP_hit_cons (tag : Nat) (o : BitVec 64) (os : List (BitVec 64)) (bucket : Bucket) :
    bucket.countP (hit tag [o]) + (sweep tag [o] bucket).countP (hit tag os) =
      bucket.countP (hit tag (o :: os)) := by
  induction bucket with
  | nil => rfl
  | cons e es ih =>
    simp only [sweep, List.map_cons, List.countP_cons] at ih ⊢
    rw [hit_cons tag o os e]
    by_cases h : hit tag [o] e
    · simp only [h, if_true, hit_cleared, Bool.true_or, Bool.false_eq_true, if_false]
      omega
    · simp only [h, Bool.false_or, Bool.false_eq_true, if_false]
      omega

theorem countP_sweep (tag : Nat) (offsets : List (BitVec 64)) (bucket : Bucket) :
    (sweep tag offsets bucket).countP inUse + bucket.countP (hit tag offsets) =
      bucket.countP inUse := by
  induction bucket with
  | nil => rfl
  | cons e es ih =>
    simp only [sweep, List.map_cons, List.countP_cons] at ih ⊢
    by_cases h : hit tag offsets e
    · have hused : inUse e = true := by
        simp only [hit, Bool.and_eq_true] at h
        exact h.1.1
      simp only [h, hused, if_true, inUse, PackedEntry.isEmpty_cleared]
      simp only [Bool.not_true, Bool.false_eq_true, if_false]
      omega
    · simp only [h, Bool.false_eq_true, if_false]
      omega

def reported (tag : Nat) (offsets : List (BitVec 64)) (bucket : Bucket) (k : Nat) : Bool :=
  bucket.any fun e => inUse e && e.tag == tag && offsets.findIdx? (e.offset == ·) == some k

theorem reported_zero (tag : Nat) (o : BitVec 64) (os : List (BitVec 64)) (bucket : Bucket) :
    reported tag (o :: os) bucket 0 = bucket.any (hit tag [o]) := by
  unfold reported
  congr 1
  funext e
  by_cases he : e.offset = o <;> simp [hit, List.findIdx?_cons, he]

theorem reported_succ (tag : Nat) (o : BitVec 64) (os : List (BitVec 64)) (bucket : Bucket)
    (k : Nat) :
    reported tag (o :: os) bucket (k + 1) = reported tag os (sweep tag [o] bucket) k := by
  unfold reported sweep
  rw [List.any_map]
  congr 1
  funext e
  rw [comp_apply]
  by_cases he : e.offset = o
  · -- an entry at `o` is reported for `o`, and is gone for the others
    rw [List.findIdx?_cons]
    cases hlive : inUse e && e.tag == tag <;> simp [hit, he, hlive]
  · have hmiss : hit tag [o] e = false := by simp [hit, he]
    rw [hmiss, if_neg Bool.false_ne_true, List.findIdx?_cons]
    cases os.findIdx? (e.offset == ·) <;> simp [he]

theorem getLsbD_or_bit (mask : BitVec 32) (hk : k < 32) :
    (mask ||| 1#32 <<< i).getLsbD k = (mask.getLsbD k || i == k) := by
  rw [BitVec.getLsbD_or, BitVec.getLsbD_shiftLeft, BitVec.getLsbD_one]
  congr 1
  by_cases hik : i = k
  · simp [hik, hk]
  · simp only [beq_eq_false_iff_ne.mpr hik, decide_eq_true hk, Bool.true_and]
    by_cases hlt : k < i
    · simp [hlt]
    · simp [show ¬k - i = 0 by omega]

theorem getLsbD_removeEach {z : Size} (key : CacheKey) (hk : k < 32) (os : List (BitVec 64)) :
    ∀ (d : Directory z) (i : Nat) (mask : BitVec 32),
      (Directory.removeEach key d i os mask).2.getLsbD k = (mask.getLsbD k ||
        (decide (i ≤ k) && reported key.tag os (d.entries (z.bucketIdx key)) (k - i))) := by
  induction os with
  | nil =>
    intro d i mask
    simp [Directory.removeEach, reported]
  | cons o os ih =>
    intro d i mask
    rw [Directory.removeEach, ih]
    have hfound : (d.removeAt key o).2 = (d.entries (z.bucketIdx key)).any (hit key.tag [o]) := by
      simp only [Directory.removeAt, removeAt_eq]
      rw [Bool.eq_iff_iff, bne_iff_ne, ← Nat.pos_iff_ne_zero, List.countP_pos_iff, List.any_eq_true]
    have hbucket : (d.removeAt key o).1.entries (z.bucketIdx key) =
        sweep key.tag [o] (d.entries (z.bucketIdx key)) := by
      simp only [Directory.removeAt, removeAt_eq, update_self]
    rw [hbucket, hfound, apply_ite (fun m : BitVec 32 => m.getLsbD k), getLsbD_or_bit mask hk]
    obtain hlt | heq | hgt := Nat.lt_trichotomy k i
    · have hik : (i == k) = false := beq_eq_false_iff_ne.mpr (by omega)
      simp [hik, show ¬i ≤ k by omega, show ¬i + 1 ≤ k by omega]
    · rw [heq, Nat.sub_self, reported_zero]
      cases (d.entries (z.bucketIdx key)).any (hit key.tag [o]) <;> simp
    · have hik : (i == k) = false := beq_eq_false_iff_ne.mpr (by omega)
      rw [show k - i = k - (i + 1) + 1 by omega, reported_succ]
      simp [hik, show i ≤ k by omega, show i + 1 ≤ k by omega]

theorem getLsbD_clearListed (tag : Nat) (offsets : List (BitVec 64)) (hk : k < 32) (bucket : Bucket) :
    ∀ mask, (MmapDirectory.clearListed tag offsets bucket mask).2.2.getLsbD k =
      (mask.getLsbD k || reported tag offsets bucket k) := by
  induction bucket with
  | nil =>
    intro mask
    simp [MmapDirectory.clearListed, reported]
  | cons e es ih =>
    intro mask
    have hcons : reported tag offsets (e :: es) k = ((inUse e && e.tag == tag &&
        offsets.findIdx? (e.offset == ·) == some k) || reported tag offsets es k) := rfl
    rw [hcons]
    unfold MmapDirectory.clearListed
    split
    · next hskip =>
      rw [ih]
      obtain hempty | htag := hskip
      · simp [inUse, hempty]
      · simp [beq_eq_false_iff_ne.mpr htag]
    · next hlive =>
      obtain ⟨hused, htag⟩ := not_or.mp hlive
      have hused : inUse e = true := by simpa using hused
      have htag : (e.tag == tag) = true := beq_iff_eq.mpr (not_not.mp htag)
      rw [hused, htag]
      split
      · next hnone =>
        rw [ih, hnone]
        simp
      · next o hsome =>
        rw [ih, hsome, getLsbD_or_bit mask hk, Bool.or_assoc]
        simp

theorem hit_eq_isSome (tag : Nat) (offsets : List (BitVec 64)) (e : PackedEntry) :
    hit tag offsets e = (inUse e && e.tag == tag && (offsets.findIdx? (e.offset == ·)).isSome) := by
  rw [hit, List.findIdx?_isSome, List.contains_eq_any_beq]

theorem clearListed_eq (tag : Nat) (offsets : List (BitVec 64)) (bucket : Bucket) :
    ∀ mask, (MmapDirectory.clearListed tag offsets bucket mask).1 = sweep tag offsets bucket ∧
      (MmapDirectory.clearListed tag offsets bucket mask).2.1 = bucket.countP (hit tag offsets) := by
  induction bucket with
  | nil => exact fun _ => ⟨rfl, rfl⟩
  | cons e es ih =>
    intro mask
    have hsweep : sweep tag offsets (e :: es) =
        (if hit tag offsets e then .cleared else e) :: sweep tag offsets es := rfl
    rw [hsweep, List.countP_cons]
    unfold MmapDirectory.clearListed
    split
    · next hskip =>
      have hmiss : hit tag offsets e = false := by
        obtain hempty | htag := hskip
        · simp [hit, inUse, hempty]
        · simp [hit, beq_eq_false_iff_ne.mpr htag]
      rw [hmiss]
      simp [ih mask]
    · next hlive =>
      obtain ⟨hused, htag⟩ := not_or.mp hlive
      have hlisted : hit tag offsets e = (offsets.findIdx? (e.offset == ·)).isSome := by
        rw [hit_eq_isSome, beq_iff_eq.mpr (not_not.mp htag)]
        simp [inUse, hused]
      split
      · next hnone =>
        rw [hlisted, hnone]
        simp [ih mask]
      · next o hsome =>
        rw [hlisted, hsome]
        simp [ih (mask ||| 1#32 <<< o)]

end Directories

end CycloneCache.Ref

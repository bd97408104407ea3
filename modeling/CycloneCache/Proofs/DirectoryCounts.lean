import CycloneCache.Proofs.Directories

namespace CycloneCache.Ref.Directories

open Function

variable {z : Size}

theorem occupied_update (entries : Entries z) (idx : Fin z.buckets) (bucket : Bucket) :
    occupied (update entries idx bucket) + (entries idx).countP inUse =
      occupied entries + bucket.countP inUse := by
  have hcount : (fun i => (update entries idx bucket i).countP inUse) =
      update (fun i => (entries i).countP inUse) idx (bucket.countP inUse) := by
    funext i
    rw [Function.apply_update (fun _ b => List.countP inUse b)]
  have hsum := Finset.add_sum_erase Finset.univ (fun i => (entries i).countP inUse)
    (Finset.mem_univ idx)
  unfold occupied
  rw [hcount, Finset.sum_update_of_mem (Finset.mem_univ idx), ← Finset.erase_eq]
  omega

variable {tag : Nat} {d : Directory z} {m : MmapDirectory z} {calls : List Call}

theorem countP_removeFirst {bucket out : Bucket} (h : removeFirst tag bucket = some out) :
    out.countP inUse + 1 = bucket.countP inUse := by
  induction bucket generalizing out with
  | nil => cases h
  | cons e es ih =>
    unfold removeFirst at h
    split at h
    · next hhit =>
      cases h
      have hused : inUse e = true := (Bool.and_eq_true_iff.mp hhit).1
      simp [hused]
    · obtain ⟨rest, hrest, rfl⟩ := Option.map_eq_some_iff.mp h
      have hes := ih hrest
      simp only [List.countP_cons]
      omega

theorem countP_le_occupied (entries : Entries z) (idx : Fin z.buckets) :
    (entries idx).countP inUse ≤ occupied entries :=
  Finset.single_le_sum (f := fun i => (entries i).countP inUse) (fun _ _ => Nat.zero_le _)
    (Finset.mem_univ idx)

structure Counted (d d' : Directory z) (m m' : MmapDirectory z) (more : Bool) (k : Nat) : Prop where
  entries : d'.entries = m'.entries
  occupied : occupied d'.entries + k = occupied d.entries + more.toNat
  kept : more = true → 0 < Directories.occupied d'.entries
  count : d'.count = (if more then d.count + 1#64 else d.count) - BitVec.ofNat 64 k
  sharedCount : m'.count =
    MmapDirectory.decrementCount^[k] (if more then m.count + 1#32 else m.count)

theorem takesEmptySlot_insert (key : CacheKey) (c : Insert) (entries : Entries z) :
    (Call.insert key c).takesEmptySlot entries =
      (bracket (Directory.store key.tag c) key.tag c (entries (z.bucketIdx key))).added := by
  simp only [Call.takesEmptySlot, bracket, publish]
  generalize entries (z.bucketIdx key) = bucket
  cases hstale : publishViewStale key.tag c bucket with
  | true => rfl
  | false => cases hslot : (chooseInsertSlot key.tag c bucket).slot <;> simp

theorem insert_counted {key : CacheKey} {c : Insert} (hok : c.Ok) (h : d.entries = m.entries) :
    (d.insert key c).2 = (m.insert key c).2 ∧ ∃ k, Counted d (d.insert key c).1 m (m.insert key c).1
      ((Call.insert key c).takesEmptySlot d.entries) k := by
  obtain ⟨entries, count⟩ := m
  subst h
  obtain ⟨hcount, hadded⟩ := bracket_count hok key.tag (d.entries (z.bucketIdx key))
  simp only [Directory.insert, MmapDirectory.insert, bracket_store_eq]
  rw [takesEmptySlot_insert]
  generalize bracket (Directory.store key.tag c) key.tag c (d.entries (z.bucketIdx key)) = b at hcount hadded
  have hupdate := occupied_update d.entries (z.bucketIdx key) b.bucket
  refine ⟨trivial, b.cleared, rfl, ?_, fun ha => ?_, rfl, rfl⟩
  · simp only
    omega
  · have hle := countP_le_occupied (update d.entries (z.bucketIdx key) b.bucket) (z.bucketIdx key)
    rw [update_self] at hle
    exact (hadded ha).trans_le hle

theorem remove_counted (key : CacheKey) (h : d.entries = m.entries) :
    (d.remove key).2 = (m.remove key).2 ∧ ∃ k, Counted d (d.remove key).1 m (m.remove key).1
      false k := by
  obtain ⟨entries, count⟩ := m
  subst h
  simp only [Directory.remove, MmapDirectory.remove]
  cases hr : removeFirst key.tag (d.entries (z.bucketIdx key)) with
  | none => exact ⟨rfl, 0, rfl, rfl, (nomatch ·), (BitVec.sub_zero _).symm, rfl⟩
  | some bucket =>
    have hcount := countP_removeFirst hr
    have hupdate := occupied_update d.entries (z.bucketIdx key) bucket
    refine ⟨rfl, 1, rfl, ?_, (nomatch ·), rfl, rfl⟩
    simp only [Bool.toNat_false]
    omega

theorem removeAt_counted (key : CacheKey) (o : BitVec 64) (h : d.entries = m.entries) :
    (d.removeAt key o).2 = (m.removeAt key o).2 ∧ ∃ k, Counted d (d.removeAt key o).1 m
      (m.removeAt key o).1 false k := by
  obtain ⟨entries, count⟩ := m
  subst h
  have hcount := countP_sweep key.tag [o] (d.entries (z.bucketIdx key))
  have hupdate := occupied_update d.entries (z.bucketIdx key)
    (sweep key.tag [o] (d.entries (z.bucketIdx key)))
  simp only [Directory.removeAt, MmapDirectory.removeAt, removeAt_eq]
  refine ⟨trivial, _, rfl, ?_, by simp, rfl, rfl⟩
  simp only [Bool.toNat_false]
  omega

theorem removeEach_fst (key : CacheKey) (os : List (BitVec 64)) :
    ∀ (d : Directory z) (i : Nat) (mask : BitVec 32), (Directory.removeEach key d i os mask).1 =
        ⟨update d.entries (z.bucketIdx key) (sweep key.tag os (d.entries (z.bucketIdx key))),
        d.count - BitVec.ofNat 64 ((d.entries (z.bucketIdx key)).countP (hit key.tag os))⟩ := by
  induction os with
  | nil =>
    intro d i mask
    have hnone : hit key.tag [] = fun _ => false := by
      funext e
      simp [hit]
    simp [Directory.removeEach, sweep, hnone]
  | cons o os ih =>
    intro d i mask
    rw [Directory.removeEach, ih]
    simp only [Directory.removeAt, removeAt_eq, update_self, update_idem, sweep_cons]
    rw [← countP_hit_cons key.tag o os, BitVec.ofNat_add, BitVec.sub_sub]

theorem removeEntriesAt_counted {key : CacheKey} {offsets : List (BitVec 64)}
    (hlen : offsets.length ≤ 32) (h : d.entries = m.entries) :
    (Directory.removeEach key d 0 offsets 0).2 = (m.removeAllAt key offsets).2 ∧
      ∃ k, Counted d (Directory.removeEach key d 0 offsets 0).1 m (m.removeAllAt key offsets).1
        false k := by
  obtain ⟨entries, count⟩ := m
  subst h
  unfold MmapDirectory.removeAllAt
  cases offsets with
  | nil => exact ⟨rfl, 0, rfl, rfl, (nomatch ·), (BitVec.sub_zero _).symm, rfl⟩
  | cons o os =>
    have hcount := countP_sweep key.tag (o :: os) (d.entries (z.bucketIdx key))
    have hupdate := occupied_update d.entries (z.bucketIdx key)
      (sweep key.tag (o :: os) (d.entries (z.bucketIdx key)))
    obtain ⟨hbucket, hremoved⟩ := clearListed_eq key.tag (o :: os) (d.entries (z.bucketIdx key)) 0
    rw [removeEach_fst, if_neg (by simpa using hlen)]
    simp only [hbucket, hremoved]
    refine ⟨?_, _, rfl, ?_, (nomatch ·), rfl, rfl⟩
    · apply BitVec.eq_of_getLsbD_eq
      intro k hk
      rw [getLsbD_removeEach key hk, getLsbD_clearListed _ _ hk]
      simp
    · simp only [Bool.toNat_false]
      omega

theorem apply_counted {c : Call} (hok : c.Ok) (h : d.entries = m.entries) :
    (d.apply c).2 = (m.apply c).2 ∧
      ∃ k, Counted d (d.apply c).1 m (m.apply c).1 (c.takesEmptySlot d.entries) k := by
  cases c with
  | insert key c =>
    obtain ⟨hanswer, hcounted⟩ := insert_counted hok h
    exact ⟨congrArg Answer.insert hanswer, hcounted⟩
  | remove key =>
    obtain ⟨hanswer, hcounted⟩ := remove_counted key h
    exact ⟨congrArg Answer.removed hanswer, hcounted⟩
  | removeAt key offset =>
    obtain ⟨hanswer, hcounted⟩ := removeAt_counted key offset h
    exact ⟨congrArg Answer.removed hanswer, hcounted⟩
  | removeEntriesAt key offsets =>
    obtain ⟨hanswer, hcounted⟩ := @removeEntriesAt_counted z d m key offsets hok h
    exact ⟨congrArg Answer.mask hanswer, hcounted⟩

theorem toNat_decrementCount_iterate (k : Nat) (count : BitVec 32) :
    (MmapDirectory.decrementCount^[k] count).toNat = count.toNat - k := by
  induction k generalizing count with
  | zero => rfl
  | succ k ih =>
    rw [Function.iterate_succ_apply, ih]
    unfold MmapDirectory.decrementCount
    split
    · next hzero => simp [hzero]
    · next hpos =>
      have hpos : count.toNat ≠ 0 := fun h => hpos (BitVec.eq_of_toNat_eq h)
      have hlt := count.isLt
      rw [BitVec.toNat_sub, BitVec.toNat_ofNat]
      omega

theorem Counted.right_iff {d' : Directory z} {m' : MmapDirectory z} {more : Bool} {k : Nat}
    (h : Counted d d' m m' more k) (hd : d.count.toNat = Directories.occupied d.entries)
    (hm : m.count.toNat = Directories.occupied d.entries) :
    (d'.count.toNat = Directories.occupied d'.entries ∧
      m'.count.toNat = Directories.occupied d'.entries) ↔
    (more = true → Directories.occupied d.entries + 1 < 2 ^ 32) := by
  have hlt := m.count.isLt
  have hoccupied := h.occupied
  have hkept := h.kept
  rw [h.count, h.sharedCount, toNat_decrementCount_iterate, BitVec.toNat_sub, BitVec.toNat_ofNat]
  cases more with
  | false =>
    simp only [Bool.toNat_false] at hoccupied
    simp only [Bool.false_eq_true, if_false, false_implies, iff_true]
    omega
  | true =>
    have hpos := hkept rfl
    simp only [Bool.toNat_true] at hoccupied
    simp only [if_true, BitVec.toNat_add, BitVec.toNat_ofNat, true_implies]
    omega

theorem Directory.run_append (d : Directory z) (cs cs' : List Call) : d.run (cs ++ cs') =
      (((d.run cs).1.run cs').1, (d.run cs).2 ++ ((d.run cs).1.run cs').2) := by
  induction cs generalizing d with
  | nil => rfl
  | cons c cs ih => simp only [List.cons_append, Directory.run, ih]

theorem MmapDirectory.run_append (m : MmapDirectory z) (cs cs' : List Call) : m.run (cs ++ cs') =
      (((m.run cs).1.run cs').1, (m.run cs).2 ++ ((m.run cs).1.run cs').2) := by
  induction cs generalizing m with
  | nil => rfl
  | cons c cs ih => simp only [List.cons_append, MmapDirectory.run, ih]

theorem inProcess_snoc (calls : List Call) (c : Call) :
    inProcess z (calls ++ [c]) = ((inProcess z calls).apply c).1 := by
  simp only [inProcess, Directory.run_append, Directory.run]

theorem inShared_snoc (calls : List Call) (c : Call) :
    inShared z (calls ++ [c]) = ((inShared z calls).apply c).1 := by
  simp only [inShared, MmapDirectory.run_append, MmapDirectory.run]

theorem occupied_noEntries (z : Size) : occupied (noEntries z) = 0 := by
  have hzero : (List.replicate kEntriesPerBucket PackedEntry.cleared).countP inUse = 0 := by decide
  simp only [occupied, noEntries, hzero, Finset.sum_const_zero]

theorem sameAfter_nil (z : Size) : SameAfter z [] :=
  ⟨rfl, rfl, (occupied_noEntries z).symm, (occupied_noEntries z).symm⟩

theorem same_entries (z : Size) (hok : ∀ c ∈ calls, c.Ok) :
    (inProcess z calls).entries = (inShared z calls).entries ∧
      ((Directory.empty z).run calls).2 = ((MmapDirectory.empty z).run calls).2 := by
  induction calls using List.reverseRecOn with
  | nil => exact ⟨rfl, rfl⟩
  | append_singleton cs c ih =>
    obtain ⟨hentries, hanswers⟩ := ih fun c hc => hok c (List.mem_append_left _ hc)
    obtain ⟨hanswer, k, hcounted⟩ := apply_counted (hok c (by simp)) hentries
    refine ⟨?_, ?_⟩
    · rw [inProcess_snoc, inShared_snoc]
      exact hcounted.entries
    · rw [Directory.run_append, MmapDirectory.run_append]
      simp only [Directory.run, MmapDirectory.run]
      rw [hanswers]
      exact congrArg (_ ++ [·]) hanswer

theorem sameAfter_snoc_iff {c : Call} (hok : ∀ c' ∈ calls ++ [c], c'.Ok) (h : SameAfter z calls) :
    SameAfter z (calls ++ [c]) ↔ (c.takesEmptySlot (inProcess z calls).entries = true →
      occupied (inProcess z calls).entries + 1 < 2 ^ 32) := by
  obtain ⟨-, k, hcounted⟩ := apply_counted (hok c (by simp)) h.entries
  obtain ⟨hentries, hanswers⟩ := same_entries z hok
  rw [← hcounted.right_iff h.count (h.sharedCount.trans (by rw [h.entries]))]
  rw [← inProcess_snoc, ← inShared_snoc]
  constructor
  · exact fun h' => ⟨h'.count, by rw [h'.entries]; exact h'.sharedCount⟩
  · exact fun ⟨hd, hm⟩ => ⟨hentries, hanswers, hd, by rw [← hentries]; exact hm⟩

/-- The directories refine each other call by call exactly if no insert into an
empty slot finds the shared count at its last value. -/
theorem directories_agree (z : Size) (calls : List Call) (hok : ∀ c ∈ calls, c.Ok) :
    (∀ cs, cs <+: calls → SameAfter z cs) ↔
      ∀ cs c, cs ++ [c] <+: calls → c.takesEmptySlot (inProcess z cs).entries = true →
        occupied (inProcess z cs).entries + 1 < 2 ^ 32 := by
  have hokOf : ∀ cs, cs <+: calls → ∀ c ∈ cs, c.Ok := fun cs hcs c hc => hok c (hcs.subset hc)
  constructor
  · intro h cs c hcs
    have hbefore := h cs ((List.prefix_append cs [c]).trans hcs)
    exact (sameAfter_snoc_iff (hokOf _ hcs) hbefore).mp (h _ hcs)
  · intro h cs
    induction cs using List.reverseRecOn with
    | nil => exact fun _ => sameAfter_nil z
    | append_singleton cs c ih =>
      intro hcs
      have hbefore := ih ((List.prefix_append cs [c]).trans hcs)
      exact (sameAfter_snoc_iff (hokOf _ hcs) hbefore).mpr (h cs c hcs)

theorem occupied_le_length (z : Size) (hok : ∀ c ∈ calls, c.Ok) :
    occupied (inProcess z calls).entries ≤ calls.length := by
  induction calls using List.reverseRecOn with
  | nil => exact (occupied_noEntries z).le
  | append_singleton cs c ih =>
    have hcs : ∀ c ∈ cs, c.Ok := fun c hc => hok c (List.mem_append_left _ hc)
    have hbefore := ih hcs
    obtain ⟨-, k, hcounted⟩ := apply_counted (hok c (by simp)) (same_entries z hcs).1
    have hoccupied := hcounted.occupied
    have hone := Bool.toNat_le (c.takesEmptySlot (inProcess z cs).entries)
    rw [inProcess_snoc, List.length_append, List.length_singleton]
    omega

def keyOf (bucket tag : Nat) : CacheKey := BitVec.ofNat 256 (bucket * 2 ^ 32 + tag * 2 ^ 64)

theorem bucketHash_keyOf {bucket : Nat} (hb : bucket < 2 ^ 32) (tag : Nat) :
    (keyOf bucket tag).bucketHash = bucket := by
  simp only [CacheKey.bucketHash, keyOf, BitVec.toNat_ofNat]
  omega

theorem tag_keyOf {bucket : Nat} (hb : bucket < 2 ^ 32) (ht : tag < 2 ^ 12) :
    (keyOf bucket tag).tag = tag := by
  simp only [CacheKey.tag, keyOf, BitVec.toNat_ofNat]
  omega

def filler : Insert where
  offset := 8
  size := 136
  verified := kNoVerifiedEntry
  clears := []
  view := some []
  fillSerial := 1
  phase := false
  classify := fun _ _ => .kCurrent

def filled : Nat → Bucket
  | 0 => List.replicate kEntriesPerBucket .cleared
  | tag + 1 => (bracket (Directory.store tag filler) tag filler (filled tag)).bucket

def fillers (bucket : Nat) : List Call :=
  (List.range kEntriesPerBucket).map fun tag => .insert (keyOf bucket tag) filler

def fillAll (buckets : Nat) : List Call := (List.range buckets).flatMap fillers

theorem apply_filler {b : Fin z.buckets} (ht : tag < 2 ^ 12) (h : d.entries b = filled tag) :
    (d.apply (.insert (keyOf b tag) filler)).1.entries = update d.entries b (filled (tag + 1)) := by
  have hb : b.val < 2 ^ 32 := b.isLt.trans z.fits
  have hidx : z.bucketIdx (keyOf b tag) = b := by
    apply Fin.ext
    simp only [Size.bucketIdx, bucketHash_keyOf hb tag, Nat.mod_eq_of_lt b.isLt]
  have hentries : (d.apply (.insert (keyOf b tag) filler)).1.entries =
      (d.insert (keyOf b tag) filler).1.entries := rfl
  rw [hentries]
  simp only [Directory.insert, hidx, h, tag_keyOf hb ht, filled]

theorem run_fillers {b : Fin z.buckets} (h : d.entries b = filled 0) :
    ∀ n ≤ kEntriesPerBucket, (d.run ((List.range n).map fun tag =>
      .insert (keyOf b tag) filler)).1.entries = update d.entries b (filled n) := by
  intro n
  induction n with
  | zero =>
    intro _
    simp only [List.range_zero, List.map_nil, Directory.run]
    rw [← h, update_eq_self]
  | succ n ih =>
    intro hn
    have hbefore := ih (by omega)
    rw [List.range_succ, List.map_append, Directory.run_append]
    simp only [List.map_cons, List.map_nil, Directory.run]
    have hn : n < 2 ^ 12 := by
      unfold kEntriesPerBucket at hn
      omega
    rw [apply_filler hn (by rw [hbefore, update_self]), hbefore, update_idem]

theorem entries_fillAll (n : Nat) (hn : n ≤ z.buckets) : (inProcess z (fillAll n)).entries =
      fun i => filled (if i.val < n then kEntriesPerBucket else 0) := by
  induction n with
  | zero => rfl
  | succ n ih =>
    have hbefore := ih (by omega)
    have hentries := @run_fillers z (inProcess z (fillAll n)) ⟨n, hn⟩ (by simp [hbefore])
      kEntriesPerBucket (le_refl _)
    have hrun : inProcess z (fillAll (n + 1)) = ((inProcess z (fillAll n)).run (fillers n)).1 := by
      rw [fillAll, List.range_succ, List.flatMap_append, inProcess, Directory.run_append]
      simp only [List.flatMap_cons, List.flatMap_nil, List.append_nil]
      rfl
    rw [hrun]
    refine hentries.trans ?_
    funext i
    rw [hbefore]
    by_cases hi : i = ⟨n, hn⟩
    · simp [hi]
    · have hne : i.val ≠ n := fun h => hi (Fin.ext h)
      rw [update_of_ne hi]
      simp only [show i.val < n + 1 ↔ i.val < n by omega]

theorem fillAll_ok (n : Nat) : ∀ c ∈ fillAll n, c.Ok := by
  intro c hc
  obtain ⟨b, -, hc⟩ := List.mem_flatMap.mp hc
  obtain ⟨tag, -, rfl⟩ := List.mem_map.mp hc
  exact ⟨by decide, by decide⟩

def billion : Size := ⟨2 ^ 30, by decide, by decide⟩

/-- With `2 ^ 30` buckets all `2 ^ 32` slots can be filled, and the shared count
is back at zero then. -/
theorem shared_count_overflows :
    (∀ c ∈ fillAll (2 ^ 30), c.Ok) ∧ ¬SameAfter billion (fillAll (2 ^ 30)) := by
  refine ⟨fillAll_ok _, fun h => ?_⟩
  have hfull : occupied (inProcess billion (fillAll (2 ^ 30))).entries = 2 ^ 32 := by
    have hfour : (filled kEntriesPerBucket).countP inUse = 4 := by decide
    have hall : ∀ i : Fin billion.buckets, i.val < 2 ^ 30 := fun i => i.isLt
    rw [entries_fillAll (2 ^ 30) (le_refl (2 ^ 30)), occupied]
    simp only [hall, if_true, hfour, Finset.sum_const, Finset.card_univ, Fintype.card_fin]
    rfl
  have hlt := (inShared billion (fillAll (2 ^ 30))).count.isLt
  have hcount := h.sharedCount
  rw [← h.entries, hfull] at hcount
  omega

def fillAndRemove : List Call :=
  fillAll 1 ++ [.remove (keyOf 0 2), .removeAt (keyOf 0 1) 8, .removeEntriesAt (keyOf 0 3) [8, 8]]

def single : Size := ⟨1, Nat.one_pos, by decide⟩

theorem directories_agree_fillAndRemove : (∀ c ∈ fillAndRemove, c.Ok) ∧
      ∀ cs, cs <+: fillAndRemove → SameAfter single cs := by
  have hok : ∀ c ∈ fillAndRemove, c.Ok := by
    intro c hc
    obtain hfill | hremove := List.mem_append.mp hc
    · exact fillAll_ok 1 c hfill
    · simp only [List.mem_cons, List.not_mem_nil, or_false] at hremove
      obtain rfl | rfl | rfl := hremove
      · trivial
      · trivial
      · show [8#64, 8#64].length ≤ 32
        decide
  refine ⟨hok, (directories_agree single fillAndRemove hok).mpr fun cs c hcs _ => ?_⟩
  have hinit := (List.prefix_append cs [c]).trans hcs
  have hle := occupied_le_length single fun c hc => hok c (hinit.subset hc)
  have hlen : cs.length ≤ 7 := hinit.length_le
  omega

end CycloneCache.Ref.Directories

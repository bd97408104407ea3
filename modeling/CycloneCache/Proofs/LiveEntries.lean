import CycloneCache.Proofs.Processes

namespace CycloneCache.Ref.Volume

open Lib Function

structure Live (env : Env) (s : State) (r : Record) (e : DirEntry) : Prop where
  laid : r ∈ s.laid
  entry : EntryOf e r
  whole : r.start = e.offset
  kept : Kept env s r

structure Resolves (env : Env) (s : State) (key : CacheKey) (e : DirEntry) (cls : AdmitClass) :
    Prop where
  nonempty : e.isEmpty = false
  admitted : env.classify s e = cls
  notReject : cls ≠ .kReject
  leads : Leads env s.bytes (env.snapshot s) key e cls

def NoneMistaken (env : Env) (s : State) (i : Nat) (key : CacheKey) : Prop :=
  ∀ e ∈ s.buckets i, ∀ cls, Resolves env s key e cls → Fresh env s e cls

namespace Live

variable {env : Env} {s s' : State} {r r' : Record} {e e' : DirEntry}

section

variable (h : Live env s r e) (hv : VolumeOk env s)
include h hv

theorem nonempty : e.isEmpty = false := by
  have hpos := env.start_pos
  have hstart := (hv.log.placed r h.laid).start_le
  rw [DirEntry.isEmpty, ← h.whole]
  exact beq_false_of_ne (by omega)

theorem header :
    env.readerValid s.bytes e.offset kHeaderSize = true ∧
      (Document.deserialize s.bytes e.offset).firstKey = r.key.toNat ∧
      (Document.deserialize s.bytes e.offset).writeSerial = r.pass % 2 ^ 32 ∧
      entryBinds e (Document.deserialize s.bytes e.offset) = true := by
  have hp := hv.log.placed r h.laid
  have hintact := hp.intact h.kept
  have hfields := hintact.header.fields
  rw [h.whole] at hfields
  refine ⟨?_, hfields.2.2.1.trans hp.ok.key, hfields.2.2.2.2.1.trans hp.stamp, ?_⟩
  · rw [← h.whole]
    exact readerValid_intact hp.ok hintact hp.aligned le_rfl
  · rw [entryBinds, hfields.2.2.2.1, h.entry.fillSerial]
    exact beq_self_eq_true _

theorem mapRegion : env.mapRegion e.offset kHeaderSize = true := by
  have hp := hv.log.placed r h.laid
  have hlen := hp.ok.header_le
  have hstop := hp.stop_le
  have hfile := env.in_file
  simp only [Record.stop] at hstop
  rw [Env.mapRegion, ← h.whole, decide_eq_true_eq]
  omega

theorem admitted : env.classify s e ≠ .kReject := by
  obtain ⟨cls, hadm, hcls, -⟩ := admitted_of_kept hv.log h.laid h.kept
  rw [Env.classify, ← h.whole, h.entry.phase, hadm]
  exact hcls

theorem record_unique (hr' : r' ∈ s.laid) (hk' : Kept env s r') (hoff : r'.start = e.offset) :
    r' = r := by
  have hlen := (hv.log.placed r h.laid).ok.header_le
  have hlen' := (hv.log.placed r' hr').ok.header_le
  have hwhole := h.whole
  rcases hv.log.apart hr' h.laid hk' h.kept with heq | happart | happart
  · exact heq
  · simp only [Record.stop, kHeaderSize] at happart hlen'
    omega
  · simp only [Record.stop, kHeaderSize] at happart hlen
    omega

end

theorem back (h : Live env s' r e) (hv : VolumeOk env s) (hgrow : Grows s s') {i : Nat}
    (he : e ∈ s.buckets i) (hne : e.isEmpty = false) : Live env s r e := by
  obtain ⟨q, hq, hentry, -⟩ := hv.dir.entries i e he hne
  obtain rfl : r = q := Option.some.inj (h.entry.origin.symm.trans hentry.origin)
  exact ⟨hv.dir.published r hq, h.entry, h.whole, le_trans hgrow.gen_le h.kept⟩

end Live

section

variable {env : Env} {s s' : State} {e : DirEntry}

theorem live_of_resolves (hv : VolumeOk env s) {i : Nat} {key : CacheKey}
    (hno : NoneMistaken env s i key) (he : e ∈ s.buckets i) {cls : AdmitClass}
    (hres : Resolves env s key e cls) : ∃ r, Live env s r e ∧ r.key = key := by
  obtain ⟨q, -, hentry, hidx⟩ := hv.dir.entries i e he hres.nonempty
  have hprobe : (e, cls) ∈ env.probe s q.key := by
    refine mem_probeEach.mpr ⟨?_, hres.nonempty, hentry.tag, hres.admitted, hres.notReject⟩
    rw [State.bucket, hidx]
    exact he
  obtain ⟨r, hr, hof, hstart, -, hk⟩ := fresh_record hv hprobe (hno e he cls hres)
  have hlive : Live env s r e := ⟨hv.dir.published r hr, hof, hstart, hk⟩
  refine ⟨r, hlive, BitVec.eq_of_toNat_eq ?_⟩
  rw [← (hlive.header hv).2.1]
  exact hres.leads.key

theorem getElem?_removeAllAt {bucket : Bucket} {tag : Nat} {offsets : List Nat} {i : Nat}
    (h : (removeAllAt bucket tag offsets)[i]? = some e) (hne : e.isEmpty = false) :
    bucket[i]? = some e := by
  rw [removeAllAt, List.getElem?_map] at h
  obtain ⟨e', he', heq⟩ := Option.map_eq_some_iff.mp h
  split at heq
  · rw [← heq, empty_isEmpty] at hne
    cases hne
  · exact heq ▸ he'

theorem DirectoryMove.entry {pc : ProcPc} (h : DirectoryMove env s pc s') {k i : Nat}
    (he : (s'.buckets k)[i]? = some e) (hne : e.isEmpty = false) :
    (s.buckets k)[i]? = some e ∨ ∃ r v, pc.publishing = some (r, v) ∧ k = bucketIdx r.key ∧
        (env.publication s r).Stored e := by
  cases h with
  | @publish r v b hpc hpub heq =>
    subst heq
    simp only [Env.publishedState, State.setBucket, update_apply] at he
    split at he
    · next hk =>
      obtain ⟨c, -, hins⟩ := insert_ok hpub
      by_cases hi : i = c.slot
      · obtain ⟨e', he', hstored⟩ := hins.new
        rw [hi, he'] at he
        cases he
        exact .inr ⟨r, v, hpc, hk, hstored⟩
      · rw [hk]
        exact .inl (hins.others i hi e he hne).1
    · exact .inl he
  | @remove key offsets heq =>
    subst heq
    simp only [State.setBucket, update_apply] at he
    split at he
    · next hk =>
      rw [hk]
      exact .inl (getElem?_removeAllAt he hne)
    · exact .inl he

theorem buckets_publishedState (s : State) (r : Record) (b : Bucket) (k : Nat) :
    (Env.publishedState s r b).buckets k = if k = bucketIdx r.key then b else s.buckets k := by
  simp only [Env.publishedState, State.setBucket, update_apply]

def Spread (s : State) : Prop :=
  ∀ (k i j : Nat) (e e' : DirEntry), (s.buckets k)[i]? = some e → (s.buckets k)[j]? = some e' →
    e.isEmpty = false → e'.isEmpty = false → e.tag = e'.tag → e.offset = e'.offset → i = j

theorem spread_fresh (env : Env) (bytes : Memory) : Spread (State.fresh env bytes) := by
  intro k i j e e' he _ hne
  rw [List.eq_of_mem_replicate (List.mem_of_getElem? he), empty_isEmpty] at hne
  cases hne

theorem Spread.eq_of_offset (h : Spread s) {k : Nat} {e' : DirEntry} (he : e ∈ s.buckets k)
    (he' : e' ∈ s.buckets k) (hne : e.isEmpty = false) (hne' : e'.isEmpty = false)
    (htag : e.tag = e'.tag) (hoff : e.offset = e'.offset) : e = e' := by
  obtain ⟨i, hi⟩ := List.mem_iff_getElem?.mp he
  obtain ⟨j, hj⟩ := List.mem_iff_getElem?.mp he'
  rw [h k i j e e' hi hj hne hne' htag hoff, hj] at hi
  exact (Option.some.inj hi).symm

theorem Spread.publish {r : Record} {b : Bucket} {verified : Option Nat} {clears : List Nat}
    {slot : Nat} (h : Spread s) (hwhole : r.start < 2 ^ 40)
    (hins : Inserted (s.bucket r.key) b (env.publication s r) verified clears slot) :
    Spread (Env.publishedState s r b) := by
  -- no other entry of the tag is left at the new offset
  have hnew : ∀ j e e', b[slot]? = some e → b[j]? = some e' → e'.isEmpty = false →
      e.tag = e'.tag → e.offset = e'.offset → slot = j := by
    intro j e e' he he' hne' htag hoff
    obtain ⟨e₁, he₁, hstored⟩ := hins.new
    rw [he₁] at he
    cases he
    by_contra hj
    refine ((hins.others j (Ne.symm hj) e' he' hne').2 ?_).1 ?_
    · rw [← htag, hstored.tag]
    · rw [← hoff, hstored.offset]
      exact Nat.mod_eq_of_lt hwhole
  intro k i j e e' he he' hne hne' htag hoff
  rw [buckets_publishedState] at he he'
  split at he
  · next hk =>
    rw [if_pos hk] at he'
    by_cases hi : i = slot
    · rw [hi] at he ⊢
      exact hnew j e e' he he' hne' htag hoff
    · by_cases hj : j = slot
      · rw [hj] at he' ⊢
        exact (hnew i e' e he' he hne htag.symm hoff.symm).symm
      · exact h _ i j e e' (hins.others i hi e he hne).1 (hins.others j hj e' he' hne').1 hne hne'
          htag hoff
  · next hk =>
    rw [if_neg hk] at he'
    exact h k i j e e' he he' hne hne' htag hoff

theorem DirectoryMove.spread {pc : ProcPc} (h : Spread s)
    (hwhole : ∀ r v, pc.publishing = some (r, v) → r.start < 2 ^ 40)
    (hmove : DirectoryMove env s pc s') : Spread s' := by
  cases hmove with
  | @publish r v b hpc hpub heq =>
    subst heq
    obtain ⟨c, -, hins⟩ := insert_ok hpub
    exact h.publish (hwhole r v hpc) hins
  | @remove key offsets heq =>
    subst heq
    intro k i j e e' he he' hne hne'
    simp only [State.setBucket, update_apply] at he he'
    split at he
    · next hk =>
      rw [if_pos hk] at he'
      exact h _ i j e e' (getElem?_removeAllAt he hne) (getElem?_removeAllAt he' hne') hne hne'
    · next hk =>
      rw [if_neg hk] at he'
      exact h k i j e e' he he' hne hne'

theorem Spread.quiet (h : Spread s) (hquiet : Quiet s s') : Spread s' := by
  intro k
  rw [hquiet.buckets]
  exact h k

theorem verified_slot {bucket b : Bucket} {p : Publication} {o : Nat}
    {classify : DirEntry → AdmitClass} {clears seen : List Nat} {c : InsertChoice}
    (h : insert bucket p (some o) classify clears seen = .published b)
    (hc : chooseInsertSlot bucket p.tag (some o) classify p.offset = some c) :
    ∃ e, bucket[c.slot]? = some e ∧ e.isAt p.tag o :=
  (chooseInsertSlot_verified hc rfl (verified_of_view (insert_published h).1)).2.1

end

end CycloneCache.Ref.Volume

import CycloneCache.Ref.VolumeWrite
import CycloneCache.Proofs.StripeGeometry

namespace CycloneCache.Ref

open Lib

def approxSizeOf (bytes : Nat) : Nat := (DirEntry.empty.setApproxSize bytes).approxSize

theorem DirEntry.bigFor_cases (n : Nat) : bigFor n = 0 ∧ n ≤ 32768 ∨
    bigFor n = 1 ∧ 32768 < n ∧ n ≤ 65536 ∨ bigFor n = 2 ∧ 65536 < n ∧ n ≤ 131072 ∨
    bigFor n = 3 ∧ 131072 < n := by
  simp only [bigFor, kBlockSize]
  grind

structure Publication.Stored (p : Publication) (e : DirEntry) : Prop where
  offset : e.offset = p.offset % 2 ^ 40
  approxSize : e.approxSize = approxSizeOf p.size
  tag : e.tag = p.tag
  phase : e.phase = p.phase
  fillSerial : e.fillSerial = p.fillSerial
  origin : e.origin = some p.record

variable {e : DirEntry} {p : Publication} {bucket b : Bucket} {classify : DirEntry → AdmitClass}
  {clears seen : List Nat} {verified : Option Nat} {tag : Nat}

theorem Publication.update_stored (h : e.tag = p.tag) :
    p.Stored (p.update e) := ⟨rfl, rfl, h, rfl, rfl, rfl⟩

theorem Publication.entry_stored (p : Publication) : p.Stored p.entry :=
  ⟨rfl, rfl, rfl, rfl, rfl, rfl⟩

def DirEntry.isAt (tag o : Nat) (e : DirEntry) : Prop :=
  e.isEmpty = false ∧ e.tag = tag ∧ e.offset = o

theorem oldestIdx_lt {p : DirEntry → Bool} {i n k : Nat} {best : Option (Nat × Nat)}
    (hbest : ∀ b, best = some b → b.2 < n) (hn : n = i + bucket.length)
    (h : oldestIdx p bucket i best = some k) : k < n := by
  induction bucket generalizing i best with
  | nil =>
    obtain ⟨b, hb, rfl⟩ := Option.map_eq_some_iff.mp h
    exact hbest b hb
  | cons e es ih =>
    rw [List.length_cons] at hn
    refine ih ?_ (by omega) h
    intro b hb
    rcases ite_eq_iff.mp hb with ⟨-, hb⟩ | ⟨-, hb⟩
    · cases hb
      show i < n
      omega
    · exact hbest b hb

variable {o : Nat}

section

variable {bucket : Bucket} {tag : Nat} {verified : Option Nat}
  {classify : DirEntry → AdmitClass} {newOffset : Nat} {c : InsertChoice}

theorem chooseInsertSlot_verified
    (h : chooseInsertSlot bucket tag verified classify newOffset = some c) (ho : verified = some o)
    (hv : ∃ e ∈ bucket, e.isAt tag o) :
    c.verified = true ∧ (∃ e, bucket[c.slot]? = some e ∧ e.isAt tag o) ∧
      ∀ i < c.slot, ∀ e, bucket[i]? = some e → ¬ e.isAt tag o := by
  subst ho
  unfold chooseInsertSlot at h
  simp only [] at h
  split at h
  · next i hi =>
    cases h
    obtain ⟨hlt, hp, hfirst⟩ := List.findIdx?_eq_some_iff_getElem.mp hi
    simp only [Bool.and_eq_true, beq_iff_eq, Bool.not_eq_true', Option.some.injEq] at hp
    refine ⟨rfl, ⟨_, List.getElem?_eq_getElem hlt, hp.1.1, hp.1.2, hp.2.symm⟩, ?_⟩
    intro j hj e he hat
    refine hfirst j hj ?_
    obtain ⟨hjlt, rfl⟩ := List.getElem?_eq_some_iff.mp he
    simp [hat.1, hat.2.1, hat.2.2]
  · next hnone =>
    obtain ⟨e, he, hat⟩ := hv
    have := List.findIdx?_eq_none_iff.mp hnone e he
    simp [hat.1, hat.2.1, hat.2.2] at this

theorem lt_of_findIdx? {α : Type} {p : α → Bool} {l : List α} {f : Nat → InsertChoice}
    (hf : ∀ i, f i = ⟨i, false⟩) (h : (l.findIdx? p).map f = some c) :
    c.slot < l.length ∧ c.verified = false := by
  obtain ⟨i, hi, rfl⟩ := Option.map_eq_some_iff.mp h
  obtain ⟨hlt, -⟩ := List.findIdx?_eq_some_iff_getElem.mp hi
  rw [hf]
  exact ⟨hlt, rfl⟩

theorem chooseInsertSlot_unverified
    (h : chooseInsertSlot bucket tag none classify newOffset = some c) :
    c.slot < bucket.length ∧ c.verified = false := by
  have hold : ∀ p : DirEntry → Bool,
      (oldestIdx p bucket 0 none).map (fun i => (⟨i, false⟩ : InsertChoice)) = some c →
      c.slot < bucket.length ∧ c.verified = false := by
    intro p hp
    obtain ⟨i, hi, rfl⟩ := Option.map_eq_some_iff.mp hp
    exact ⟨oldestIdx_lt (by intro _ h; cases h) (Nat.zero_add _).symm hi, rfl⟩
  unfold chooseInsertSlot at h
  simp only [] at h
  split at h
  · next i hi =>
    obtain ⟨hlt, hp, -⟩ := List.findIdx?_eq_some_iff_getElem.mp hi
    simp at hp
  · simp only [Option.orElse_eq_orElse, Option.orElse_eq_or, Option.or_eq_some_iff] at h
    rcases h with h | ⟨-, h | ⟨-, h | ⟨-, h | ⟨-, h | ⟨-, h⟩⟩⟩⟩⟩
    · exact lt_of_findIdx? (fun _ => rfl) h
    · exact lt_of_findIdx? (fun _ => rfl) h
    · exact lt_of_findIdx? (fun _ => rfl) h
    · exact lt_of_findIdx? (fun _ => rfl) h
    · exact hold _ h
    · exact hold _ h

theorem evicted_reported (h : chooseInsertSlot bucket tag verified classify newOffset = some c)
    {e : DirEntry} (he : bucket[c.slot]? = some e) (hne : e.isEmpty = false)
    (hspared : e.tag = tag → verified ≠ some e.offset ∧ e.offset ≠ newOffset)
    (hadm : classify e ≠ .kReject) :
    ∃ ev, evictionReport bucket tag verified classify newOffset = some ev := by
  have hmem := List.mem_of_getElem? he
  -- what a search stopped at is the entry in the slot
  have hfound : ∀ {p : DirEntry → Bool},
      (bucket.findIdx? p).map (fun i => (⟨i, false⟩ : InsertChoice)) = some c → p e = true := by
    intro p hp
    obtain ⟨i, hi, rfl⟩ := Option.map_eq_some_iff.mp hp
    obtain ⟨hlt, hpi, -⟩ := List.findIdx?_eq_some_iff_getElem.mp hi
    obtain ⟨_, heq⟩ := List.getElem?_eq_some_iff.mp he
    rwa [heq] at hpi
  have hnone : ∀ {p : DirEntry → Bool}, bucket.findIdx? p = none → bucket.any p = false := by
    intro p hp
    rw [List.any_eq_false]
    intro x hx
    rw [List.findIdx?_eq_none_iff.mp hp x hx]
    decide
  have hsame : (!e.isEmpty && newOffset != 0 && e.tag == tag && e.offset == newOffset) =
      false := by
    by_cases htag : e.tag = tag
    · simp [(hspared htag).2]
    · simp [htag]
  unfold chooseInsertSlot at h
  simp only [] at h
  split at h
  · next i hi =>
    cases h
    obtain ⟨hlt, hp, -⟩ := List.findIdx?_eq_some_iff_getElem.mp hi
    obtain ⟨_, heq⟩ := List.getElem?_eq_some_iff.mp he
    simp only [heq, Bool.and_eq_true, beq_iff_eq] at hp
    exact absurd hp.2 (hspared hp.1.2).1
  · next hver =>
    simp only [Option.orElse_eq_orElse, Option.orElse_eq_or, Option.or_eq_some_iff] at h
    unfold evictionReport
    simp only [hnone hver, Bool.false_eq_true, if_false]
    have hlive : ∀ {p : DirEntry → Bool}, p e = true → bucket.any p = true :=
      fun hp => List.any_eq_true.mpr ⟨e, hmem, hp⟩
    rcases h with h | ⟨hspot, h | ⟨hempty, h | ⟨hdead, h⟩⟩⟩
    · exact absurd (hfound h) (by rw [hsame]; decide)
    · exact absurd (hfound h) (by rw [hne]; decide)
    · have hrej := hfound h
      simp only [Bool.and_eq_true, beq_iff_eq] at hrej
      exact absurd hrej.2 hadm
    · rw [hnone (Option.map_eq_none_iff.mp hspot), hnone (Option.map_eq_none_iff.mp hempty),
        hnone (Option.map_eq_none_iff.mp hdead)]
      simp only [Bool.or_self, Bool.false_eq_true, if_false]
      split
      · exact ⟨_, rfl⟩
      · rw [if_pos (hlive ?_)]
        · exact ⟨_, rfl⟩
        · rw [hsame, hne, bne_iff_ne.mpr hadm]
          rfl

end

structure Inserted (bucket b : Bucket) (p : Publication) (verified : Option Nat)
    (clears : List Nat) (slot : Nat) : Prop where
  new : ∃ e, b[slot]? = some e ∧ p.Stored e
  others : ∀ i ≠ slot, ∀ e, b[i]? = some e → e.isEmpty = false →
    bucket[i]? = some e ∧ (e.tag = p.tag → e.offset ≠ p.offset ∧ e.offset ∉ clears)
  first : ∀ o, verified = some o → ∀ i < slot, ∀ e, bucket[i]? = some e → ¬ e.isAt p.tag o

theorem empty_isEmpty : DirEntry.empty.isEmpty = true := rfl

theorem insert_published (h : insert bucket p verified classify clears seen = .published b) :
    viewIsCurrent bucket p.tag verified classify seen p.offset = true ∧
      ∃ c, chooseInsertSlot bucket p.tag verified classify p.offset = some c ∧
        b = clearOthers (bucket.modify c.slot fun e => if c.verified then p.update e else p.entry)
          c.slot p.tag p.offset clears := by
  unfold insert at h
  split at h
  · cases h
  · next hview =>
    rw [Bool.not_eq_true, Bool.not_eq_false'] at hview
    cases hchoice : chooseInsertSlot bucket p.tag verified classify p.offset with rw [hchoice] at h
    | none =>
      cases h
    | some c =>
      cases h
      exact ⟨hview, c, rfl, rfl⟩

theorem verified_of_view {newOffset : Nat}
    (h : viewIsCurrent bucket tag (some o) classify seen newOffset = true) :
    ∃ e ∈ bucket, e.isAt tag o := by
  simp only [viewIsCurrent, Option.isNone_some, Bool.false_or, Bool.and_eq_true,
    List.any_eq_true, beq_iff_eq, Bool.not_eq_eq_eq_not, Bool.not_true] at h
  obtain ⟨⟨e, he, ⟨hne, ht⟩, ho⟩, -⟩ := h
  exact ⟨e, he, hne, ht, (Option.some.inj ho).symm⟩

theorem getElem?_clearOthers {slot newOffset : Nat} {f : DirEntry → DirEntry} (i : Nat) :
    (clearOthers (bucket.modify slot f) slot tag newOffset clears)[i]? =
      bucket[i]?.map fun e => if i = slot then f e
        else if !e.isEmpty ∧ e.tag = tag ∧ (e.offset = newOffset ∨ e.offset ∈ clears) then .empty
        else e := by
  rw [clearOthers, List.getElem?_mapIdx, List.getElem?_modify]
  cases bucket[i]? with
  | none => rfl
  | some e =>
    by_cases hi : i = slot
    · simp [hi]
    · simp [hi, Ne.symm hi]

theorem insert_ok (h : insert bucket p verified classify clears seen = .published b) :
    ∃ c, chooseInsertSlot bucket p.tag verified classify p.offset = some c ∧
      Inserted bucket b p verified clears c.slot := by
  obtain ⟨hview, c, hchoice, rfl⟩ := insert_published h
  -- the slot is inside the bucket and an update finds the tag there
  obtain ⟨e₀, he₀, htag, hfirst⟩ : ∃ e, bucket[c.slot]? = some e ∧
      (c.verified = true → e.tag = p.tag) ∧
      ∀ o, verified = some o → ∀ i < c.slot, ∀ e, bucket[i]? = some e → ¬ e.isAt p.tag o := by
    cases verified with
    | none =>
      obtain ⟨hlt, hv⟩ := chooseInsertSlot_unverified hchoice
      refine ⟨_, List.getElem?_eq_getElem hlt, ?_, nofun⟩
      rw [hv]
      exact nofun
    | some o =>
      obtain ⟨-, ⟨e₀, he₀, hat⟩, hf⟩ :=
        chooseInsertSlot_verified hchoice rfl (verified_of_view hview)
      refine ⟨e₀, he₀, fun _ => hat.2.1, fun o' ho' => ?_⟩
      cases ho'
      exact hf
  refine ⟨c, hchoice, ?_, ?_, hfirst⟩
  · refine ⟨if c.verified then p.update e₀ else p.entry, ?_, ?_⟩
    · rw [getElem?_clearOthers, he₀, Option.map_some, if_pos rfl]
    · split
      · next hv => exact Publication.update_stored (htag hv)
      · exact p.entry_stored
  · intro i hi e he hne
    rw [getElem?_clearOthers] at he
    obtain ⟨e₁, he₁, heq⟩ := Option.map_eq_some_iff.mp he
    rw [if_neg hi] at heq
    split at heq
    · rw [← heq, empty_isEmpty] at hne
      cases hne
    · next hkeep =>
      subst heq
      refine ⟨he₁, fun htag => ?_⟩
      simp only [hne, htag, Bool.not_false, true_and, not_or] at hkeep
      exact hkeep

theorem Inserted.mem {slot : Nat} (h : Inserted bucket b p verified clears slot) (he : e ∈ b)
    (hne : e.isEmpty = false) : e ∈ bucket ∨ p.Stored e := by
  obtain ⟨i, hi⟩ := List.mem_iff_getElem?.mp he
  by_cases hslot : i = slot
  · obtain ⟨e', he', hstored⟩ := h.new
    rw [hslot, he'] at hi
    cases hi
    exact .inr hstored
  · exact .inl (List.mem_of_getElem? (h.others i hslot e hi hne).1)

variable {cls : AdmitClass}

theorem mem_probeEach {st : Stripe} {snap : StripeSnapshot} :
    (e, cls) ∈ probeEach st bucket tag snap ↔ e ∈ bucket ∧ e.isEmpty = false ∧ e.tag = tag ∧
        st.admitPosition e.offset e.phase snap = cls ∧ cls ≠ .kReject := by
  simp only [probeEach, List.mem_filterMap]
  constructor
  · rintro ⟨e', he', h⟩
    split at h
    · cases h
    · next hlive =>
      rw [not_or, Bool.not_eq_true, not_not] at hlive
      split at h <;> cases h
      next hcls =>
      exact ⟨he', hlive.1, hlive.2, rfl, hcls⟩
  · rintro ⟨he, hne, htag, hcls, hadm⟩
    refine ⟨e, he, ?_⟩
    rw [if_neg (by simp [hne, htag]), hcls]
    cases cls with
    | kReject => exact absurd rfl hadm
    | kCurrent => rfl
    | kRetained => rfl

theorem inDataArea_of_admitted {st : Stripe} {phase : Bool} {snap : StripeSnapshot}
    (h : st.admitPosition o phase snap ≠ .kReject) :
    st.dataStart ≤ o ∧ o + kHeaderSize ≤ st.size := by
  have hin : st.inDataArea o = true := by
    cases hcls : st.admitPosition o phase snap with
    | kReject => exact absurd hcls h
    | kCurrent => exact (Stripe.admitPosition_kCurrent.mp hcls).1
    | kRetained => exact (Stripe.admitPosition_kRetained.mp hcls).1
  simp only [Stripe.inDataArea, Bool.and_eq_true, decide_eq_true_eq] at hin
  exact ⟨hin.1.1, hin.2⟩

namespace Volume

structure Leads (env : Env) (m : Memory) (snap : StripeSnapshot) (key : CacheKey)
    (e : DirEntry) (cls : AdmitClass) : Prop where
  valid : env.readerValid m e.offset kHeaderSize = true
  stamp : env.stripe.stampAdmits snap cls (Document.deserialize m e.offset).writeSerial = true
  binds : entryBinds e (Document.deserialize m e.offset) = true
  key : (Document.deserialize m e.offset).firstKey = key.toNat

structure ElectionOk (env : Env) (m : Memory) (snap : StripeSnapshot) (key : CacheKey)
    (shown : List (DirEntry × AdmitClass)) (el : Election) : Prop where
  seen : ∀ c ∈ shown, c.1.offset ∈ el.seen
  leads : ∀ c ∈ shown, Leads env m snap key c.1 c.2 →
    el.verified.map Prod.fst = some c.1.offset ∨ c.1.offset ∈ el.clears

namespace Election

theorem mem_see (el : Election) (o : Nat) : o ∈ (el.see o).seen := by
  unfold see
  split
  · assumption
  · simp

variable {el : Election} {o o' : Nat}

theorem see_grows (h : o' ∈ el.seen) : o' ∈ (el.see o).seen := by
  unfold see
  split
  · exact h
  · exact List.mem_append_left _ h

theorem of_mem_see (h : o' ∈ (el.see o).seen) (hne : o' ≠ o) : o' ∈ el.seen := by
  unfold see at h
  split at h
  · exact h
  · rcases List.mem_append.mp h with h | h
    · exact h
    · exact absurd (List.mem_singleton.mp h) hne

theorem see_fields (el : Election) (o : Nat) :
    (el.see o).verified = el.verified ∧ (el.see o).clears = el.clears := by
  unfold see
  split <;> exact ⟨rfl, rfl⟩

theorem mem_addClear (el : Election) (o : Nat) : o ∈ (el.addClear o).clears := by
  unfold addClear
  split
  · assumption
  · simp

theorem addClear_grows (h : o' ∈ el.clears) : o' ∈ (el.addClear o).clears := by
  unfold addClear
  split
  · exact h
  · exact List.mem_append_left _ h

theorem addClear_fields (el : Election) (o : Nat) :
    (el.addClear o).verified = el.verified ∧ (el.addClear o).seen = el.seen := by
  unfold addClear
  split <;> exact ⟨rfl, rfl⟩

def Decided (el : Election) (o : Nat) : Prop := el.verified.map Prod.fst = some o ∨ o ∈ el.clears

theorem Decided.addClear (h : el.Decided o') : (el.addClear o).Decided o' := by
  rcases h with h | h
  · exact .inl ((el.addClear_fields o).1 ▸ h)
  · exact .inr (addClear_grows h)

theorem nominate_decided (el : Election) (o : Nat) (cls : AdmitClass) :
    (el.nominate o cls).Decided o := by
  unfold nominate
  split
  · exact .inl rfl
  · split
    · exact .inl rfl
    · exact .inr (mem_addClear el o)

theorem Decided.nominate (h : el.Decided o') : (el.nominate o cls).Decided o' := by
  unfold Election.nominate
  split
  · next hnone =>
    rcases h with h | h
    · rw [hnone] at h
      cases h
    · exact .inr h
  · next o₁ cls₁ hsome =>
    split
    · rcases h with h | h
      · rw [hsome] at h
        cases h
        exact .inr (mem_addClear el _)
      · exact .inr (addClear_grows h)
    · exact h.addClear

theorem Decided.of_addClear (h : (el.addClear o).Decided o') (hne : o' ≠ o) : el.Decided o' := by
  rcases h with h | h
  · exact .inl ((el.addClear_fields o).1 ▸ h)
  · unfold Election.addClear at h
    split at h
    · exact .inr h
    · rcases List.mem_append.mp h with h | h
      · exact .inr h
      · exact absurd (List.mem_singleton.mp h) hne

theorem Decided.of_nominate (h : (el.nominate o cls).Decided o') (hne : o' ≠ o) :
    el.Decided o' := by
  have hver : ∀ {c : List Nat}, some o = some o' ∨ o' ∈ c → o' ∈ c := by
    rintro c (h | h)
    · exact absurd (Option.some.inj h).symm hne
    · exact h
  unfold Election.nominate at h
  split at h
  · exact .inr (hver h)
  · next o₁ cls₁ hsome =>
    split at h
    · -- the loser was the elected one
      by_cases ho : o' = o₁
      · exact .inl (by rw [hsome, ho]; rfl)
      · exact Decided.of_addClear (.inr (hver h)) ho
    · exact h.of_addClear hne

theorem nominate_seen (el : Election) (o : Nat) (cls : AdmitClass) :
    (el.nominate o cls).seen = el.seen := by
  unfold nominate
  split
  · rfl
  · split
    · exact (el.addClear_fields _).2
    · exact (el.addClear_fields o).2

end Election

variable {env : Env} {key : CacheKey} {m : Memory} {snap : StripeSnapshot} {el : Election}

theorem electStep_decides (el : Election) (e : DirEntry) (cls : AdmitClass) :
    let el' := env.electStep m snap key el (e, cls)
    el'.seen = (el.see e.offset).seen ∧ (∀ o, el.Decided o → el'.Decided o) ∧
      (env.mapRegion e.offset kHeaderSize = true → env.readerValid m e.offset kHeaderSize = true →
        (Document.deserialize m e.offset).firstKey = key.toNat → el'.Decided e.offset) := by
  have hsee : ∀ o, el.Decided o → (el.see e.offset).Decided o := by
    intro o ho
    rw [Election.Decided, (el.see_fields e.offset).1, (el.see_fields e.offset).2]
    exact ho
  intro el'
  simp only [el', Env.electStep]
  generalize el.see e.offset = el₁ at hsee ⊢
  split
  · next hv =>
    refine ⟨rfl, hsee, fun _ _ _ => .inl ?_⟩
    obtain ⟨v, hv, ho⟩ := Option.any_eq_true _ _ |>.mp hv
    rw [hv, Option.map_some, beq_iff_eq.mp ho]
  · split
    · next hnomap => exact ⟨rfl, hsee, fun hmap => absurd hmap (by simpa using hnomap)⟩
    · split
      · next hinvalid =>
        refine ⟨?_, ?_, fun _ hvalid => absurd hvalid (by simpa using hinvalid)⟩
        · split
          · exact (el₁.addClear_fields _).2
          · rfl
        · intro o ho
          split
          · exact (hsee o ho).addClear
          · exact hsee o ho
      · split
        · next hdead =>
          refine ⟨(el₁.addClear_fields _).2, fun o ho => (hsee o ho).addClear, fun _ _ _ => ?_⟩
          exact .inr (el₁.mem_addClear e.offset)
        · split
          · next hkey => exact ⟨rfl, hsee, fun _ _ hsame => absurd hsame hkey⟩
          · exact ⟨el₁.nominate_seen _ _, fun o ho => (hsee o ho).nominate,
              fun _ _ _ => el₁.nominate_decided _ _⟩

theorem electStep_only {e : DirEntry} (h : (env.electStep m snap key el (e, cls)).Decided o)
    (hne : o ≠ e.offset) : el.Decided o := by
  have hsee : (el.see e.offset).Decided o → el.Decided o := by
    rw [Election.Decided, (el.see_fields e.offset).1, (el.see_fields e.offset).2]
    exact id
  simp only [Env.electStep] at h
  generalize el.see e.offset = el₁ at h hsee
  refine hsee ?_
  split at h
  · exact h
  · split at h
    · exact h
    · split at h
      · split at h
        · exact h.of_addClear hne
        · exact h
      · split at h
        · exact h.of_addClear hne
        · split at h
          · exact h
          · exact h.of_nominate hne

theorem electStep_foreign {e : DirEntry} (hvalid : env.readerValid m e.offset kHeaderSize = true)
    (hstamp : env.stripe.stampAdmits snap cls (Document.deserialize m e.offset).writeSerial = true)
    (hbinds : entryBinds e (Document.deserialize m e.offset) = true)
    (hkey : (Document.deserialize m e.offset).firstKey ≠ key.toNat)
    (h : (env.electStep m snap key el (e, cls)).Decided o) : el.Decided o := by
  have hsee : (el.see e.offset).Decided o → el.Decided o := by
    rw [Election.Decided, (el.see_fields e.offset).1, (el.see_fields e.offset).2]
    exact id
  simp only [Env.electStep, hvalid, hstamp, hbinds] at h
  refine hsee ?_
  split at h
  · exact h
  · split at h
    · exact h
    · simpa [hkey] using h

theorem elect_foldl {cs shown : List (DirEntry × AdmitClass)}
    (hmap : ∀ c ∈ cs, env.mapRegion c.1.offset kHeaderSize = true)
    (hel : ElectionOk env m snap key shown el) :
    ElectionOk env m snap key (shown ++ cs) (cs.foldl (env.electStep m snap key) el) := by
  induction cs generalizing shown el with
  | nil =>
    rw [List.append_nil]
    exact hel
  | cons c cs ih =>
    obtain ⟨hseen, hkeep, hnew⟩ := @electStep_decides env key m snap el c.1 c.2
    rw [List.foldl_cons, List.append_cons]
    refine ih (fun c' hc' => hmap c' (List.mem_cons_of_mem _ hc')) ⟨?_, ?_⟩
    · rw [hseen]
      refine List.forall_mem_append.mpr ⟨?_, List.forall_mem_singleton.mpr (el.mem_see _)⟩
      exact fun c' hc' => Election.see_grows (hel.seen c' hc')
    · intro c' hc' hl
      rcases List.mem_append.mp hc' with hc' | hc'
      · exact hkeep _ (hel.leads c' hc' hl)
      · rw [List.mem_singleton.mp hc'] at hl ⊢
        exact hnew (hmap c List.mem_cons_self) hl.valid hl.key

theorem mapRegion_of_probe {env : Env} {s : State} {key : CacheKey} {c : DirEntry × AdmitClass}
    (hc : c ∈ env.probe s key) : env.mapRegion c.1.offset kHeaderSize = true := by
  obtain ⟨-, -, -, hcls, hadm⟩ := mem_probeEach.mp hc
  have hin := inDataArea_of_admitted (hcls ▸ hadm)
  have hfile := env.in_file
  simp only [Env.mapRegion, decide_eq_true_eq]
  omega

theorem elect_ok (env : Env) (s : State) (key : CacheKey) :
    ElectionOk env s.bytes (env.snapshot s) key (env.probe s key) (env.elect s key) := by
  have hstart : ElectionOk env s.bytes (env.snapshot s) key [] .start :=
    ⟨fun _ hc => absurd hc List.not_mem_nil, fun _ hc => absurd hc List.not_mem_nil⟩
  exact elect_foldl (fun c hc => mapRegion_of_probe hc) hstart

end Volume

end CycloneCache.Ref

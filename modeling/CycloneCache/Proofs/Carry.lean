import CycloneCache.Proofs.ChainPlans
import CycloneCache.Proofs.Format
import CycloneCache.Ref.Carry

namespace CycloneCache.Ref

open Lib

namespace Carry

open Format Volume

variable {cfg : ChainConfig} {key : CacheKey} {file : CarrySource → Option Memory} {now : Nat}

theorem candidates_sublist (room : Nat) (seen : List Nat) (chain : List CarrySource) :
    (candidates room seen chain).Sublist chain := by
  induction chain generalizing room seen with
  | nil => cases room <;> exact List.Sublist.refl _
  | cons src chain ih =>
    cases room with
    | zero => exact List.nil_sublist _
    | succ room =>
      rw [candidates]
      split
      · exact (ih (room + 1) seen).cons src
      · exact (ih room (src.id :: seen)).cons_cons src

variable {chain cand : List CarrySource} {src : CarrySource} {budget : Nat} {copy : List UInt8}

theorem candidates_ids {room : Nat} {seen : List Nat} (hroom : chain.length ≤ room) :
    ((candidates room seen chain).map CarrySource.id).Nodup ∧
      ∀ id, id ∈ (candidates room seen chain).map CarrySource.id ↔
        id ∈ chain.map CarrySource.id ∧ id ∉ seen := by
  induction chain generalizing room seen with
  | nil => cases room <;> simp [candidates]
  | cons src chain ih =>
    cases room with
    | zero => cases hroom
    | succ room =>
      rw [List.length_cons] at hroom
      rw [candidates]
      split
      · next hseen =>
        obtain ⟨hnodup, hmem⟩ := @ih (room + 1) seen (by omega)
        refine ⟨hnodup, fun id => ?_⟩
        rw [hmem, List.map_cons, List.mem_cons]
        grind
      · next hnew =>
        obtain ⟨hnodup, hmem⟩ := @ih room (src.id :: seen) (by omega)
        rw [List.map_cons, List.nodup_cons]
        refine ⟨⟨?_, hnodup⟩, fun id => ?_⟩
        · rw [hmem]
          simp
        · rw [List.mem_cons, hmem, List.map_cons, List.mem_cons, List.mem_cons]
          grind

theorem mem_candidates {room id : Nat} {seen : List Nat} (hroom : chain.length ≤ room)
    (hseen : id ∉ seen) (hfirst : chain.find? (fun c => c.id == id) = some src) :
    src ∈ candidates room seen chain := by
  induction chain generalizing room seen with
  | nil => cases hfirst
  | cons c chain ih =>
    cases room with
    | zero => cases hroom
    | succ room =>
      rw [List.length_cons] at hroom
      rw [candidates]
      by_cases hid : c.id = id
      · have hpos : (c.id == id) = true := beq_iff_eq.mpr hid
        rw [List.find?_cons, hpos] at hfirst
        rw [if_neg (by rwa [hid]), Option.some.inj hfirst]
        exact List.mem_cons_self
      · have hneg : (c.id == id) = false := beq_eq_false_iff_ne.mpr hid
        rw [List.find?_cons, hneg] at hfirst
        split
        · exact ih (by omega) hseen hfirst
        · refine List.mem_cons_of_mem _ (ih (by omega) ?_ hfirst)
          rw [List.mem_cons, not_or]
          exact ⟨Ne.symm hid, hseen⟩

theorem zipIdx_nodup (cand : List CarrySource) : (cand.zipIdx.map Prod.snd).Nodup := by
  rw [List.zipIdx_map_snd]
  exact List.nodup_range'

theorem considerOrder_perm (cand : List CarrySource) : (considerOrder cand).Perm cand.zipIdx := by
  have hnodup := zipIdx_nodup cand
  unfold considerOrder
  split
  · next original horiginal =>
    have hmem := List.mem_of_find?_eq_some horiginal
    have hrest : (cand.zipIdx.filter fun c => c.2 != original.2).Nodup := hnodup.of_map.filter _
    refine (List.perm_ext_iff_of_nodup (List.nodup_cons.mpr ⟨?_, hrest⟩) hnodup.of_map).mpr ?_
    · simp
    · intro c
      rw [List.mem_cons, List.mem_filter, bne_iff_ne]
      constructor
      · rintro (rfl | hc)
        · exact hmem
        · exact hc.1
      · intro hc
        by_cases heq : c.2 = original.2
        · exact .inl (List.inj_on_of_nodup_map hnodup hc hmem heq)
        · exact .inr ⟨hc, heq⟩
  · exact List.Perm.refl _

structure Chosen (budget : Nat) (seen : List (CarrySource × Nat)) (st : Choice) : Prop where
  sub : ∀ i ∈ st.keep, i ∈ seen.map Prod.snd
  planned : st.planned = ((seen.filter fun c => c.2 ∈ st.keep).map fun c => roundUp8 c.1.len).sum
  kept : st.kept = (seen.filter fun c => c.2 ∈ st.keep).length
  total : st.kept + st.dropped = seen.length
  cap : st.kept ≤ kMaxCarried
  fits : st.planned ≤ budget

theorem Chosen.consider {seen : List (CarrySource × Nat)} {st : Choice} {c : CarrySource × Nat}
    (h : Chosen budget seen st) (hnew : c.2 ∉ seen.map Prod.snd) :
    Chosen budget (seen ++ [c]) (consider budget st c) := by
  obtain ⟨hsub, hplanned, hkept, htotal, hcap, hfits⟩ := h
  have hnot : c.2 ∉ st.keep := fun hmem => hnew (hsub _ hmem)
  unfold Carry.consider
  simp only
  split
  · next hroom =>
    -- the earlier ones are kept or not as before
    have hold : (seen.filter fun x => x.2 ∈ c.2 :: st.keep) =
        seen.filter fun x => x.2 ∈ st.keep := by
      refine List.filter_congr fun x hx => ?_
      have hne : x.2 ≠ c.2 := fun heq => hnew (heq ▸ List.mem_map_of_mem hx)
      simp [hne]
    have hfilter : ((seen ++ [c]).filter fun x => x.2 ∈ c.2 :: st.keep) =
        (seen.filter fun x => x.2 ∈ st.keep) ++ [c] := by
      rw [List.filter_append, hold]
      simp
    refine ⟨?_, ?_, ?_, ?_, ?_, ?_⟩
    · intro i hi
      rw [List.map_append, List.mem_append]
      rcases List.mem_cons.mp hi with rfl | hi
      · exact .inr List.mem_cons_self
      · exact .inl (hsub i hi)
    · simp only [hfilter, List.map_append, List.sum_append, List.map_cons, List.map_nil,
        List.sum_cons, List.sum_nil, hplanned, Nat.add_zero]
    · simp only [hfilter, List.length_append, List.length_cons, List.length_nil, hkept]
    · simp only [List.length_append, List.length_cons, List.length_nil]
      omega
    · exact hroom.1
    · simp only
      omega
  · have hfilter : ((seen ++ [c]).filter fun x => x.2 ∈ st.keep) =
        seen.filter fun x => x.2 ∈ st.keep := by
      rw [List.filter_append]
      simp [hnot]
    refine ⟨?_, ?_, ?_, ?_, hcap, hfits⟩
    · intro i hi
      rw [List.map_append, List.mem_append]
      exact .inl (hsub i hi)
    · rw [hfilter]
      exact hplanned
    · rw [hfilter]
      exact hkept
    · simp only [List.length_append, List.length_cons, List.length_nil]
      omega

variable {order : List (CarrySource × Nat)}

theorem Chosen.fold :
    ∀ {seen : List (CarrySource × Nat)} {st : Choice}, Chosen budget seen st →
      ((seen ++ order).map Prod.snd).Nodup →
      Chosen budget (seen ++ order) (order.foldl (Carry.consider budget) st) := by
  induction order with
  | nil =>
    intro seen st h _
    rw [List.append_nil]
    exact h
  | cons c order ih =>
    intro seen st h hnodup
    rw [List.append_cons] at hnodup ⊢
    have hnew : c.2 ∉ seen.map Prod.snd := by
      rw [List.map_append, List.map_append, List.append_assoc] at hnodup
      intro hmem
      exact (List.nodup_append.mp hnodup).2.2 _ hmem _ List.mem_cons_self rfl
    exact ih (h.consider hnew) hnodup

theorem chosen_choose (budget : Nat) (cand : List CarrySource) :
    Chosen budget (considerOrder cand) (choose budget cand) := by
  have hnodup : ((considerOrder cand).map Prod.snd).Nodup :=
    ((considerOrder_perm cand).map Prod.snd).nodup_iff.mpr (zipIdx_nodup cand)
  have hinit : Chosen budget [] ⟨[], 0, 0, 0⟩ :=
    ⟨nofun, rfl, rfl, rfl, Nat.zero_le _, Nat.zero_le _⟩
  exact hinit.fold hnodup

def keptOf (budget : Nat) (cand : List CarrySource) : List CarrySource :=
  (cand.zipIdx.filter fun c => c.2 ∈ (choose budget cand).keep).map Prod.fst

theorem keptOf_sublist (budget : Nat) (cand : List CarrySource) :
    (keptOf budget cand).Sublist cand := by
  have hsub := (@List.filter_sublist _ (fun c => c.2 ∈ (choose budget cand).keep)
    cand.zipIdx).map Prod.fst
  rwa [List.zipIdx_map_fst] at hsub

theorem keptOf_spec (budget : Nat) (cand : List CarrySource) :
    (keptOf budget cand).length ≤ kMaxCarried ∧
      (keptOf budget cand).length + (choose budget cand).dropped = cand.length ∧
      ((keptOf budget cand).map fun src => roundUp8 src.len).sum ≤ budget := by
  obtain ⟨-, hplanned, hkept, htotal, hcap, hfits⟩ := chosen_choose budget cand
  have hperm := (considerOrder_perm cand).filter fun c => c.2 ∈ (choose budget cand).keep
  have hlen : (keptOf budget cand).length = (choose budget cand).kept := by
    rw [keptOf, List.length_map, hkept, hperm.length_eq]
  have hsum : ((keptOf budget cand).map fun src => roundUp8 src.len).sum =
      (choose budget cand).planned := by
    rw [hplanned, keptOf, List.map_map, (hperm.map _).sum_nat]
    rfl
  have hall := (considerOrder_perm cand).length_eq
  rw [List.length_zipIdx] at hall
  omega

theorem mem_keep_foldl {i : Nat} {st : Choice} (hnot : i ∉ order.map Prod.snd) :
    i ∈ (order.foldl (consider budget) st).keep ↔ i ∈ st.keep := by
  induction order generalizing st with
  | nil => exact Iff.rfl
  | cons c order ih =>
    rw [List.map_cons, List.mem_cons, not_or] at hnot
    rw [List.foldl_cons, ih hnot.2]
    unfold consider
    simp only
    split
    · rw [List.mem_cons]
      exact or_iff_right hnot.1
    · exact Iff.rfl

theorem original_first {i : Nat} (budget : Nat) (hids : (cand.map CarrySource.id).Nodup)
    (hsrc : cand[i]? = some src) (hid : src.id = kOriginal) :
    (considerOrder cand).head? = some (src, i) ∧
      (i ∈ (choose budget cand).keep ↔ roundUp8 src.len ≤ budget) := by
  have horder : ∃ rest, considerOrder cand = (src, i) :: rest := by
    unfold considerOrder
    split
    · next original horiginal =>
      -- no other candidate is the Original
      have hfound : original.1.id = kOriginal := by
        have := List.find?_some horiginal
        exact eq_of_beq this
      have hat : cand[original.2]? = some original.1 :=
        List.mem_zipIdx_iff_getElem?.mp (List.mem_of_find?_eq_some horiginal)
      have hlt : original.2 < (cand.map CarrySource.id).length := by
        rw [List.length_map]
        exact (List.getElem?_eq_some_iff.mp hat).1
      have hsame : original.2 = i := by
        refine (List.getElem?_inj hlt hids).mp ?_
        rw [List.getElem?_map, List.getElem?_map, hat, hsrc, Option.map_some, Option.map_some,
          hfound, hid]
      rw [hsame, hsrc] at hat
      refine ⟨_, congrArg (· :: _) (Prod.ext (Option.some.inj hat).symm hsame)⟩
    · next hnone =>
      have := List.find?_eq_none.mp hnone (src, i) (List.mem_zipIdx_iff_getElem?.mpr hsrc)
      simp [hid] at this
  obtain ⟨rest, horder⟩ := horder
  refine ⟨by rw [horder]; rfl, ?_⟩
  have hnodup := ((considerOrder_perm cand).map Prod.snd).nodup_iff.mpr (zipIdx_nodup cand)
  rw [horder, List.map_cons, List.nodup_cons] at hnodup
  rw [choose, horder, List.foldl_cons, mem_keep_foldl hnodup.1]
  simp only [consider, Nat.sub_zero]
  split
  · next hroom => simp [hroom.2]
  · next hno =>
    have : ¬ roundUp8 src.len ≤ budget := fun hle => hno ⟨by decide, hle⟩
    simp [this]

def copyOf (cfg : ChainConfig) (key : CacheKey) (file : CarrySource → Option Memory)
    (src : CarrySource) : Option (List UInt8) :=
  if src.len < kHeaderSize ∨ !cfg.stripe.inDataArea src.rel ∨
      src.len > cfg.stripe.size - src.rel then none
  else (file src).bind fun m =>
    if copyOk cfg key src (readAt m src.rel src.len) then some (readAt m src.rel src.len) else none

theorem copyOf_eq_some (h : copyOf cfg key file src = some copy) :
    ∃ m, file src = some m ∧ copy = readAt m src.rel src.len ∧ copyOk cfg key src copy = true := by
  unfold copyOf at h
  split at h
  · cases h
  · obtain ⟨m, hm, h⟩ := Option.bind_eq_some_iff.mp h
    split at h <;> cases h
    next hok =>
    exact ⟨m, hm, rfl, hok⟩

def copiesOf (cfg : ChainConfig) (key : CacheKey) (file : CarrySource → Option Memory)
    (srcs : List CarrySource) : List (CarrySource × List UInt8) :=
  srcs.filterMap fun src => (copyOf cfg key file src).map (src, ·)

def stack (copies : List (CarrySource × List UInt8)) : List UInt8 :=
  (copies.map fun c => padded c.2).flatten

def startsFrom : Nat → List (CarrySource × List UInt8) → List Nat
  | _, [] => []
  | a, c :: copies => a :: startsFrom (a + (padded c.2).length) copies

abbrev Copies := List (CarrySource × List UInt8)

theorem copyNode_eq (st : Copying) (src : CarrySource) : copyNode cfg key file st src =
      match copyOf cfg key file src with
      | none => { st with dropped := st.dropped + 1 }
      | some copy =>
        { st with
          bytes := st.bytes ++ padded copy
          copied := st.copied ++ [(st.bytes.length, src.rel)] } := by
  unfold copyNode copyOf
  split
  · rfl
  · cases file src with
    | none => rfl
    | some m =>
      simp only [Option.bind_some]
      split <;> rfl

theorem startsFrom_append (a : Nat) (c₁ c₂ : Copies) :
    startsFrom a (c₁ ++ c₂) = startsFrom a c₁ ++ startsFrom (a + (stack c₁).length) c₂ := by
  induction c₁ generalizing a with
  | nil => rfl
  | cons c c₁ ih =>
    rw [List.cons_append, startsFrom, startsFrom, ih, List.cons_append]
    simp only [stack, List.map_cons, List.flatten_cons, List.length_append, Nat.add_assoc]

theorem length_startsFrom (a : Nat) (copies : Copies) :
    (startsFrom a copies).length = copies.length := by
  induction copies generalizing a with
  | nil => rfl
  | cons c copies ih => rw [startsFrom, List.length_cons, ih, List.length_cons]

theorem stack_cons (c : CarrySource × List UInt8) (copies : Copies) :
    stack (c :: copies) = padded c.2 ++ stack copies := rfl

theorem stack_append (c₁ c₂ : Copies) : stack (c₁ ++ c₂) = stack c₁ ++ stack c₂ := by
  rw [stack, List.map_append, List.flatten_append]
  rfl

theorem stack_snoc (copies : Copies) (c : CarrySource × List UInt8) :
    stack copies ++ padded c.2 = stack (copies ++ [c]) := by
  rw [stack_append]
  simp [stack]

def listed (copies : List (CarrySource × List UInt8)) : List (Nat × Nat) :=
  (startsFrom 0 copies).zip (copies.map (·.1.rel))

theorem listed_snoc (copies : Copies) (c : CarrySource × List UInt8) :
    listed (copies ++ [c]) = listed copies ++ [((stack copies).length, c.1.rel)] := by
  have hlen : (startsFrom 0 copies).length = (copies.map (·.1.rel)).length := by
    rw [length_startsFrom, List.length_map]
  rw [listed, startsFrom_append, List.map_append, List.zip_append hlen, Nat.zero_add]
  rfl

theorem listed_fst (copies : Copies) : (listed copies).map Prod.fst = startsFrom 0 copies := by
  rw [listed, List.map_fst_zip]
  rw [length_startsFrom, List.length_map]

theorem listed_snd (copies : Copies) : (listed copies).map Prod.snd = copies.map (·.1.rel) := by
  rw [listed, List.map_snd_zip]
  rw [length_startsFrom, List.length_map]

theorem drop_one {n m k : Nat} (h : k ≤ m) : n + 1 + (m - k) = n + (m + 1 - k) := by
  omega

theorem foldl_copyNode (srcs : List CarrySource) (done : Copies) (dropped : Nat) :
    srcs.foldl (copyNode cfg key file) ⟨stack done, listed done, dropped⟩ =
      ⟨stack (done ++ copiesOf cfg key file srcs), listed (done ++ copiesOf cfg key file srcs),
        dropped + (srcs.length - (copiesOf cfg key file srcs).length)⟩ := by
  induction srcs generalizing done dropped with
  | nil => simp [copiesOf]
  | cons src srcs ih =>
    rw [List.foldl_cons, copyNode_eq]
    have hle : (copiesOf cfg key file srcs).length ≤ srcs.length := List.length_filterMap_le _ _
    cases hcopy : copyOf cfg key file src with
    | none =>
      have hcopies : copiesOf cfg key file (src :: srcs) = copiesOf cfg key file srcs := by
        simp [copiesOf, hcopy]
      rw [ih, hcopies, List.length_cons]
      exact congrArg _ (drop_one hle)
    | some copy =>
      have hcopies : copiesOf cfg key file (src :: srcs) =
          (src, copy) :: copiesOf cfg key file srcs := by
        simp [copiesOf, hcopy]
      simp only [stack_snoc done (src, copy)]
      rw [← listed_snoc done (src, copy), ih, hcopies, List.append_assoc,
        List.singleton_append, List.length_cons, List.length_cons, Nat.succ_sub_succ]

def freeOf (cfg : ChainConfig) (now : Nat) (copies : Copies) : Copies :=
  copies.filter fun c => !exposed cfg now c.1.rel

theorem keepUnexposed_eq (below : List UInt8) (copies done : Copies) (dropped : Nat) :
    keepUnexposed cfg now (below ++ stack copies)
        ((startsFrom below.length copies).zip (copies.map (·.1.rel)))
        ⟨stack done, startsFrom 0 done, dropped⟩ =
      ⟨stack (done ++ freeOf cfg now copies), startsFrom 0 (done ++ freeOf cfg now copies),
        dropped + (copies.length - (freeOf cfg now copies).length)⟩ := by
  induction copies generalizing below done dropped with
  | nil => simp [startsFrom, keepUnexposed, freeOf]
  | cons c copies ih =>
    have hbytes : below ++ stack (c :: copies) = (below ++ padded c.2) ++ stack copies := by
      simp [stack]
    have hstop : copyEnd (below ++ stack (c :: copies))
        ((startsFrom (below.length + (padded c.2).length) copies).zip (copies.map (·.1.rel))) =
        below.length + (padded c.2).length := by
      cases copies with
      | nil => simp [startsFrom, stack, copyEnd]
      | cons c' copies => rfl
    have hle : (freeOf cfg now copies).length ≤ copies.length := List.length_filter_le _ _
    rw [startsFrom, List.map_cons, List.zip_cons_cons, keepUnexposed, hstop]
    have hpart : ((below ++ stack (c :: copies)).drop below.length).take
        (below.length + (padded c.2).length - below.length) = padded c.2 := by
      rw [List.drop_left, Nat.add_sub_cancel_left]
      simp [stack]
    split
    · next hexp =>
      have hfilter : freeOf cfg now (c :: copies) = freeOf cfg now copies := by
        simp [freeOf, hexp]
      rw [hfilter, hbytes, ← List.length_append, ih, List.length_cons]
      exact congrArg _ (drop_one hle)
    · next hfree =>
      have hfilter : freeOf cfg now (c :: copies) = c :: freeOf cfg now copies := by
        simp [freeOf, hfree]
      have hstarts : startsFrom 0 done ++ [(stack done).length] = startsFrom 0 (done ++ [c]) := by
        rw [startsFrom_append, Nat.zero_add]
        rfl
      rw [hpart, stack_snoc, hstarts, hfilter, hbytes, ← List.length_append, ih, List.append_assoc,
        List.singleton_append, List.length_cons, List.length_cons, Nat.succ_sub_succ]

theorem unexposed_eq (all : Copies) (dropped : Nat) :
    (if (listed all).any (fun c => exposed cfg now c.2) then
        keepUnexposed cfg now (stack all) (listed all) ⟨[], [], dropped⟩
      else ⟨stack all, (listed all).map Prod.fst, dropped⟩) =
      ⟨stack (freeOf cfg now all), startsFrom 0 (freeOf cfg now all),
        dropped + (all.length - (freeOf cfg now all).length)⟩ := by
  split
  · have hkeep := @keepUnexposed_eq cfg now [] all [] dropped
    rwa [List.nil_append, List.nil_append] at hkeep
  · next hnone =>
    have hfree : ∀ c ∈ all, exposed cfg now c.1.rel = false := by
      intro c hc
      have hmem : c.1.rel ∈ (listed all).map Prod.snd := by
        rw [listed_snd]
        exact List.mem_map_of_mem hc
      obtain ⟨x, hx, heq⟩ := List.mem_map.mp hmem
      rw [Bool.not_eq_true, List.any_eq_false] at hnone
      rw [← heq]
      exact Bool.eq_false_iff.mpr (hnone x hx)
    have hsame : freeOf cfg now all = all := by
      rw [freeOf, List.filter_eq_self]
      intro c hc
      rw [hfree c hc]
      rfl
    simp only [hsame, listed_fst, Nat.sub_self, Nat.add_zero]

theorem copiesOf_sublist (srcs : List CarrySource) :
    ((copiesOf cfg key file srcs).map Prod.fst).Sublist srcs := by
  induction srcs with
  | nil => exact List.Sublist.refl _
  | cons src srcs ih =>
    cases hcopy : copyOf cfg key file src with
    | none =>
      simp only [copiesOf, List.filterMap_cons, hcopy, Option.map_none]
      exact ih.cons src
    | some copy =>
      simp only [copiesOf, List.filterMap_cons, hcopy, Option.map_some, List.map_cons]
      exact ih.cons_cons src

theorem copyOf_of_mem {srcs : List CarrySource} {c : CarrySource × List UInt8}
    (h : c ∈ copiesOf cfg key file srcs) : copyOf cfg key file c.1 = some c.2 := by
  obtain ⟨src, -, hc⟩ := List.mem_filterMap.mp h
  obtain ⟨copy, hcopy, rfl⟩ := Option.map_eq_some_iff.mp hc
  exact hcopy

def carriedOf (cfg : ChainConfig) (key : CacheKey) (file : CarrySource → Option Memory)
    (now budget : Nat) (cand : List CarrySource) : List (CarrySource × List UInt8) :=
  (copiesOf cfg key file (keptOf budget cand).reverse).filter fun c => !exposed cfg now c.1.rel

theorem carriedOf_sublist (budget : Nat) (cand : List CarrySource) :
    ((carriedOf cfg key file now budget cand).map Prod.fst).reverse.Sublist
      (keptOf budget cand) := by
  have hfree : ((carriedOf cfg key file now budget cand).map Prod.fst).Sublist
      (keptOf budget cand).reverse := (List.filter_sublist.map Prod.fst).trans (copiesOf_sublist _)
  rw [← List.reverse_reverse (keptOf budget cand)]
  exact hfree.reverse

theorem copyOf_carried :
    ∀ c ∈ carriedOf cfg key file now budget cand, copyOf cfg key file c.1 = some c.2 :=
  fun _ hc => copyOf_of_mem (List.mem_of_mem_filter hc)

theorem carryRetainedChain_eq {writeId newDocSize : Nat} (hret : cfg.stripe.retain = true)
    (hpass : cfg.stripe.passOf cfg.gen ≠ 0)
    (hcand : candidates kMaxChainTraversalDepth [writeId] chain = cand)
    (hbudget : cfg.carryByteBudget newDocSize = budget) :
    ∃ dropped, carryRetainedChain cfg key file now chain writeId newDocSize =
        ⟨stack (carriedOf cfg key file now budget cand),
          startsFrom 0 (carriedOf cfg key file now budget cand), dropped⟩ ∧
      (carriedOf cfg key file now budget cand).length + dropped = cand.length := by
  unfold carryRetainedChain
  rw [hcand, hbudget]
  by_cases hempty : chain.isEmpty = true
  · rw [List.isEmpty_iff.mp hempty] at hcand
    rw [if_pos (.inr (.inr hempty)), ← hcand]
    exact ⟨0, rfl, rfl⟩
  · rw [if_neg (by simp [hret, hpass, hempty])]
    by_cases hnone : cand.isEmpty = true
    · rw [List.isEmpty_iff.mp hnone]
      exact ⟨0, rfl, rfl⟩
    · have hcount := (keptOf_spec budget cand).2.1
      rw [carriedOf]
      generalize hkept : keptOf budget cand = kept at hcount
      generalize hall : copiesOf cfg key file kept.reverse = all
      have hloop : (cand.zipIdx.reverse.foldl (fun st c => if c.2 ∈ (choose budget cand).keep then
          copyNode cfg key file st c.1 else st) ⟨[], [], (choose budget cand).dropped⟩) =
          ⟨stack all, listed all, (choose budget cand).dropped + (kept.length - all.length)⟩ := by
        have hfold := @foldl_copyNode cfg key file kept.reverse [] (choose budget cand).dropped
        rw [List.nil_append, List.length_reverse, hall] at hfold
        rw [← hfold, ← hkept, keptOf, ← List.map_reverse, List.foldl_map, ← List.filter_reverse,
          List.foldl_filter]
        simp only [decide_eq_true_eq]
        rfl
      have hle := (@copiesOf_sublist cfg key file kept.reverse).length_le
      rw [hall, List.length_map, List.length_reverse] at hle
      have hfree := List.length_filter_le (fun c => !exposed cfg now c.1.rel) all
      simp only [if_neg hnone, hloop, unexposed_eq, freeOf]
      refine ⟨_, rfl, ?_⟩
      omega

theorem take_header (data : List UInt8) (h : kHeaderSize ≤ data.length) :
    (Document.deserialize (memoryOf data) 0).serialize = data.take kHeaderSize := by
  have hsplit := readAt_add (memoryOf data) 0 kHeaderSize (data.length - kHeaderSize)
  rw [Nat.add_sub_cancel' h, readAt_memoryOf] at hsplit
  have htake := congrArg (List.take kHeaderSize) hsplit
  rw [List.take_left' (length_readAt ..)] at htake
  rw [Document.serialize_deserialize, htake]

theorem record_of_copyOk (hok : copyOk cfg key src copy = true) (hlen : copy.length = src.len) :
    ∃ r, RecordOk r ∧ copy = Record.image r ∧ r.key = key ∧ r.doc.len = src.len ∧
      r.doc.alternateId = src.id := by
  simp only [copyOk, Bool.and_eq_true, beq_iff_eq, Reader.isServable] at hok
  obtain ⟨⟨⟨⟨⟨⟨⟨hvalid, hshape⟩, hdlen⟩, hid⟩, -⟩, -⟩, hkey⟩, hsum⟩ := hok
  have hheader : kHeaderSize ≤ copy.length := by
    by_contra hshort
    rw [Reader.of, if_neg hshort] at hvalid
    cases hvalid
  have hdoc : (Reader.of copy).document = Document.deserialize (memoryOf copy) 0 := by
    rw [Reader.of, if_pos hheader]
  have hdata : (Reader.of copy).data = copy := by
    rw [Reader.of, if_pos hheader]
  have hmagic : (Reader.of copy).document.isValidAndCompatible = true := by
    rw [Reader.of, if_pos hheader] at hvalid ⊢
    exact hvalid
  have hrange : (Reader.of copy).document.InRange := by
    rw [hdoc]
    exact Document.deserialize_inRange _ _
  have hfirst : (Reader.of copy).document.firstKey = key.toNat := by
    have hlt : (Reader.of copy).document.firstKey < 2 ^ 256 :=
      hrange (32, (Reader.of copy).document.firstKey) (by simp [Document.fields])
    rw [← hkey, Reader.firstKey, BitVec.toNat_ofNat, Nat.mod_eq_of_lt hlt]
  generalize Reader.of copy = reader at *
  have hshape' := hshape
  simp only [Document.hasVolumeShape, Bool.and_eq_true, decide_eq_true_eq] at hshape'
  obtain ⟨⟨⟨-, hmin⟩, hhl⟩, -⟩ := hshape'
  -- behind the fixed header: the header bytes, then the content
  have hpayload : reader.payload = copy.drop kHeaderSize := by
    simp only [Reader.payload, hvalid, hdata, Bool.not_true, Bool.false_eq_true, false_or]
    split
    · next hle =>
      rw [List.drop_eq_nil_of_le hle]
    · next hmore =>
      rw [Reader.subspan, hdata]
      refine List.take_of_length_le ?_
      rw [List.length_drop]
      split <;> split <;> omega
  have hsplit : copy.drop kHeaderSize = (copy.drop kHeaderSize).take reader.document.headerLen ++
      (copy.drop kHeaderSize).drop reader.document.headerLen := (List.take_append_drop _ _).symm
  refine ⟨⟨key, 0, 0, reader.document, (copy.drop kHeaderSize).take reader.document.headerLen,
    (copy.drop kHeaderSize).drop reader.document.headerLen⟩,
    ⟨hrange, hmagic, hshape, hfirst, ?_, ?_, ?_⟩, ?_, rfl, hdlen, hid⟩
  · rw [← hsplit, ← hpayload]
    exact hsum
  · simp only [List.length_take, List.length_drop]
    omega
  · simp only [List.length_take, List.length_drop]
    omega
  · rw [Record.image, List.append_assoc, ← hsplit, hdoc, take_header copy hheader,
      List.take_append_drop]

section Slot

variable {slot : CarrySlot}

def stampedRecord (slot : CarrySlot) (r : Record) : Record :=
  patched (patched r (.writeSerial slot.pass.toUInt32)) (.fillSerial slot.fillSerial.toUInt32)

def linkedRecord (slot : CarrySlot) (next : Nat) (r : Record) : Record :=
  patched (stampedRecord slot r) (.nextAlternateOffset (.ofNat next))

theorem stampNode_image (r : Record) (rest : List UInt8) :
    stampNode slot (Record.image r ++ rest) = Record.image (stampedRecord slot r) ++ rest := by
  rw [stampNode, patchPassStamp, patchFillSerial, apply_image_append, apply_image_append]
  rfl

theorem storeNext_image (next : Nat) (r : Record) (rest : List UInt8) :
    storeNext next (Record.image r ++ rest) =
      Record.image (patched r (.nextAlternateOffset (.ofNat next))) ++ rest :=
  apply_image_append r _ rest

theorem length_image_linked (next : Nat) (r : Record) :
    (Record.image (linkedRecord slot next r)).length = (Record.image r).length := by
  simp only [Record.image, List.length_append, Document.length_serialize]
  rfl

theorem length_padded (copy : List UInt8) : (padded copy).length = roundUp8 copy.length := by
  have := le_roundUp8 copy.length
  rw [padded, List.length_append, List.length_replicate]
  omega

variable {copies : Copies} {rs : List Record}

theorem length_stack (hcopies : ∀ c ∈ copies, copyOf cfg key file c.1 = some c.2) :
    (stack copies).length = ((copies.map Prod.fst).map fun src => roundUp8 src.len).sum := by
  induction copies with
  | nil => rfl
  | cons c copies ih =>
    obtain ⟨m, -, hcopy, -⟩ := copyOf_eq_some (hcopies c List.mem_cons_self)
    rw [stack_cons, List.length_append, ih fun c' hc' => hcopies c' (List.mem_cons_of_mem c hc'),
      length_padded, hcopy, length_readAt]
    rfl

theorem onSpan_append (l₁ l₂ : List UInt8) (f : List UInt8 → List UInt8) :
    onSpan (l₁ ++ l₂) l₁.length f = l₁ ++ f l₂ := by
  rw [onSpan, List.take_left, List.drop_left]

structure CopyRecord (key : CacheKey) (c : CarrySource × List UInt8) (r : Record) : Prop where
  ok : RecordOk r
  image : c.2 = Record.image r
  key : r.key = key
  len : r.doc.len = c.1.len
  id : r.doc.alternateId = c.1.id

theorem records_of_copies (hcopies : ∀ c ∈ copies, copyOf cfg key file c.1 = some c.2) :
    ∃ rs, List.Forall₂ (CopyRecord key) copies rs := by
  induction copies with
  | nil => exact ⟨[], .nil⟩
  | cons c copies ih =>
    obtain ⟨rs, hrs⟩ := ih fun c' hc' => hcopies c' (List.mem_cons_of_mem c hc')
    obtain ⟨m, -, hcopy, hok⟩ := copyOf_eq_some (hcopies c List.mem_cons_self)
    obtain ⟨r, hr, himage, hkey, hlen, hid⟩ := record_of_copyOk hok (by rw [hcopy, length_readAt])
    exact ⟨r :: rs, .cons ⟨hr, himage, hkey, hlen, hid⟩ hrs⟩

def linkedStack (slot : CarrySlot) : Nat → Nat → List Record → List UInt8
  | _, _, [] => []
  | next, a, r :: rs =>
    padded (Record.image (linkedRecord slot next r)) ++
      linkedStack slot (slot.linkTo a) (a + (padded (Record.image r)).length) rs

theorem linkCarried_eq (h : List.Forall₂ (CopyRecord key) copies rs) (low tail : List UInt8)
    (next : Nat) :
    linkCarried slot next (startsFrom low.length copies) (low ++ (stack copies ++ tail)) =
      low ++ (linkedStack slot next low.length rs ++ tail) := by
  induction h generalizing low next with
  | nil => rfl
  | @cons c r copies rs hc _ ih =>
    have hpad : padded (Record.image (linkedRecord slot next r)) =
        Record.image (linkedRecord slot next r) ++
          List.replicate (roundUp8 c.2.length - c.2.length) 0 := by
      rw [padded, length_image_linked, hc.image]
    have hnode : storeNext next (stampNode slot (padded c.2 ++ (stack copies ++ tail))) =
        padded (Record.image (linkedRecord slot next r)) ++ (stack copies ++ tail) := by
      rw [hpad, padded, hc.image, List.append_assoc, stampNode_image, storeNext_image,
        List.append_assoc]
      rfl
    have hlen : (low ++ padded (Record.image (linkedRecord slot next r))).length =
        low.length + (padded c.2).length := by
      rw [List.length_append, length_padded, length_padded, length_image_linked, hc.image]
    rw [startsFrom, linkCarried, stack_cons, List.append_assoc, onSpan_append, hnode,
      ← List.append_assoc low, ← hlen, ih, List.append_assoc, linkedStack, hlen, hc.image,
      List.append_assoc]

theorem length_linkedStack (h : List.Forall₂ (CopyRecord key) copies rs) (next a : Nat) :
    (linkedStack slot next a rs).length = (stack copies).length := by
  induction h generalizing next a with
  | nil => rfl
  | @cons c r copies rs hc _ ih =>
    rw [linkedStack, List.length_append, ih, stack_cons, List.length_append, length_padded,
      length_padded, length_image_linked, hc.image]

def topLink (slot : CarrySlot) (next a : Nat) (copies : List (CarrySource × List UInt8)) : Nat :=
  ((startsFrom a copies).getLast?.map slot.linkTo).getD next

theorem topLink_lt (copies : Copies) : topLink slot 0 0 copies < 2 ^ 64 := by
  rw [topLink]
  cases (startsFrom 0 copies).getLast? with
  | none => exact Nat.two_pow_pos 64
  | some top => exact makeLink_lt _ _

theorem stack_aligned (copies : Copies) : (stack copies).length % 8 = 0 := by
  induction copies with
  | nil => rfl
  | cons c copies ih =>
    have := roundUp8_mod c.2.length
    rw [stack_cons, List.length_append, length_padded]
    omega

theorem fillSlot_eq {head : Record} {dropped : Nat} (h : List.Forall₂ (CopyRecord key) copies rs)
    (hhead : head.doc.nextAlternateOffset = 0) :
    fillSlot slot ⟨stack copies, startsFrom 0 copies, dropped⟩ (Record.image head) =
      linkedStack slot 0 0 rs ++
        Record.image (linkedRecord slot (topLink slot 0 0 copies) head) := by
  have hstamp := @stampNode_image slot head []
  rw [List.append_nil, List.append_nil] at hstamp
  cases h with
  | nil =>
    have hlink : linkedRecord slot (topLink slot 0 0 []) head = stampedRecord slot head := by
      simp [linkedRecord, stampedRecord, patched, Patch.set, topLink, startsFrom, hhead]
    rw [hlink]
    change onSpan (Record.image head) 0 (stampNode slot) = _
    rw [onSpan, List.take_zero, List.drop_zero, hstamp]
    rfl
  | @cons c r copies rs hc hrest =>
    have hall : List.Forall₂ (CopyRecord key) (c :: copies) (r :: rs) := .cons hc hrest
    generalize hcs : c :: copies = cs at hall
    generalize r :: rs = all at hall
    obtain ⟨top, htop⟩ : ∃ top, (startsFrom 0 cs).getLast? = some top := by
      rw [← hcs, startsFrom]
      exact ⟨_, List.getLast?_eq_some_getLast (List.cons_ne_nil _ _)⟩
    have hne : (startsFrom 0 cs).isEmpty = false := by
      rw [← hcs]
      rfl
    have hlinked :=
      @linkCarried_eq key slot cs all hall [] (Record.image (stampedRecord slot head)) 0
    rw [List.nil_append, List.nil_append, List.length_nil] at hlinked
    have hnext := storeNext_image (slot.linkTo top) (stampedRecord slot head) []
    rw [List.append_nil, List.append_nil] at hnext
    simp only [fillSlot, hne, htop, Bool.false_eq_true, if_false]
    rw [onSpan_append, hstamp, hlinked, ← length_linkedStack hall 0 0, onSpan_append, hnext,
      topLink, htop]
    rfl

theorem length_fillSlot {head : Record} {dropped : Nat}
    (h : List.Forall₂ (CopyRecord key) copies rs) (hhead : head.doc.nextAlternateOffset = 0) :
    (fillSlot slot ⟨stack copies, startsFrom 0 copies, dropped⟩ (Record.image head)).length =
      (stack copies).length + (Record.image head).length := by
  rw [fillSlot_eq h hhead, List.length_append, length_linkedStack h, length_image_linked]

structure SlotNode (slot : CarrySlot) (key : CacheKey) (id : Nat) (header content : List UInt8)
    (next : Nat) (node : Reader) : Prop where
  servable : node.isServable = true
  checksum : node.verifyChecksum = true
  key : node.firstKey = key
  id : node.document.alternateId = id
  header : node.header = header
  content : node.content = content
  pass : node.document.writeSerial = slot.pass.toNat % 2 ^ 32
  serial : node.document.fillSerial = slot.fillSerial.toNat
  next : node.document.nextAlternateOffset = next

def SlotChain (key : CacheKey) (file : CarrySource → Option Memory) (slot : CarrySlot)
    (fill : List UInt8) : Nat → Nat → List CarrySource → Prop
  | link, _, [] => link = 0
  | link, bound, src :: srcs => ∃ pos m next,
      link ≠ 0 ∧ Document.linkOffset link = slot.baseRel + pos ∧ pos + src.len ≤ bound ∧
      file src = some m ∧
      SlotNode slot key src.id (Reader.of (readAt m src.rel src.len)).header
        (Reader.of (readAt m src.rel src.len)).content next
        (Reader.of ((fill.drop pos).take src.len)) ∧
      SlotChain key file slot fill next pos srcs

theorem slotNode_linked {r : Record} {next : Nat} (h : RecordOk r) (hnext : next < 2 ^ 64) :
    SlotNode slot r.key r.doc.alternateId r.header r.content next
      (Reader.of (Record.image (linkedRecord slot next r))) := by
  have hok : RecordOk (linkedRecord slot next r) := RecordOk.patch (RecordOk.patch (RecordOk.patch h _) _) _
  obtain ⟨hservable, hkey, hheader, hcontent, -, hsum⟩ := reader_image hok
  have hdoc := (document_image hok.inRange).1
  refine ⟨hservable, hsum, hkey, ?_, hheader, hcontent, ?_, ?_, ?_⟩
  · rw [hdoc]
    rfl
  · rw [hdoc]
    exact UInt64.toNat_toUInt32 slot.pass
  · rw [hdoc]
    exact UInt16.toNat_toUInt32 slot.fillSerial
  · rw [hdoc]
    exact UInt64.toNat_ofNat_of_lt' hnext

theorem slotChain_stack {fill low high : List UInt8} {next : Nat} {below : List CarrySource}
    (h : List.Forall₂ (CopyRecord key) copies rs)
    (hfile : ∀ c ∈ copies, copyOf cfg key file c.1 = some c.2) (hbase : 0 < slot.baseRel)
    (hsize : slot.baseRel + fill.length ≤ 2 ^ 48)
    (hfill : fill = low ++ (linkedStack slot next low.length rs ++ high)) (hnext : next < 2 ^ 64)
    (hbelow : SlotChain key file slot fill next low.length below) :
    SlotChain key file slot fill (topLink slot next low.length copies)
      (low.length + (stack copies).length) ((copies.map Prod.fst).reverse ++ below) := by
  induction h generalizing low next below with
  | nil => exact hbelow
  | @cons c r copies rs hc _ ih =>
    set image := Record.image (linkedRecord slot next r) with himage
    have himageLen : image.length = c.2.length := by
      rw [himage, length_image_linked, hc.image]
    have hpadded : (padded image).length = (padded c.2).length := by
      rw [length_padded, length_padded, himageLen]
    have hlow : (low ++ padded image).length = low.length + (padded (Record.image r)).length := by
      rw [List.length_append, hpadded, hc.image]
    have hlen : image.length = c.1.len := by
      rw [himageLen, hc.image, hc.ok.length_image, hc.len]
    -- the copy, read where it lies
    have hread : (fill.drop low.length).take c.1.len = image := by
      rw [hfill, List.drop_left, linkedStack, padded, ← himage, List.append_assoc,
        List.append_assoc, ← hlen, List.take_left]
    have hroom : low.length + c.1.len ≤ (low ++ padded image).length := by
      rw [List.length_append, length_padded, hlen]
      have := le_roundUp8 c.1.len
      omega
    have hin : (low ++ padded image).length ≤ fill.length := by
      rw [hfill, linkedStack, ← himage]
      simp only [List.length_append]
      omega
    have hpos : 0 < c.1.len := by
      have := hc.ok.len
      simp only [kHeaderSize] at this
      rw [← hc.len]
      omega
    have hoffset : Document.linkOffset (slot.linkTo low.length) = slot.baseRel + low.length :=
      linkOffset_makeLink (by omega) _
    obtain ⟨m, hm, hcopy, -⟩ := copyOf_eq_some (hfile c List.mem_cons_self)
    obtain ⟨-, -, hheader, hcontent, -, -⟩ := reader_image hc.ok
    rw [← hc.image, hcopy] at hheader hcontent
    have htop : SlotChain key file slot fill (slot.linkTo low.length) (low ++ padded image).length
        (c.1 :: below) := by
      refine ⟨low.length, m, next, ?_, hoffset, hroom, hm, ?_, hbelow⟩
      · intro hzero
        rw [hzero] at hoffset
        have : Document.linkOffset 0 = 0 := rfl
        omega
      · rw [hread, hheader, hcontent, ← hc.key, ← hc.id]
        exact slotNode_linked hc.ok hnext
    have hrest := ih (fun c' hc' => hfile c' (List.mem_cons_of_mem c hc'))
      (by rw [hfill, linkedStack, hlow, List.append_assoc, List.append_assoc]; rfl)
      (makeLink_lt _ _) htop
    rw [List.map_cons, List.reverse_cons, List.append_assoc, stack_cons, List.length_append,
      ← Nat.add_assoc, ← hpadded, ← List.length_append]
    have htopLink : topLink slot next low.length (c :: copies) =
        topLink slot (slot.linkTo low.length) (low ++ padded image).length copies := by
      rw [topLink, topLink, startsFrom, List.getLast?_cons, hlow, hc.image]
      cases (startsFrom (low.length + (padded (Record.image r)).length) copies).getLast? <;> rfl
    rw [htopLink]
    exact hrest

end Slot

theorem slot_fits {n size : Nat} (hcarry : n ≤ cfg.carryByteBudget size) (haligned : n % 8 = 0)
    (hfit : roundUp8 size ≤ cfg.stripe.size - cfg.stripe.dataStart) :
    roundUp8 (n + size) ≤ cfg.stripe.size - cfg.stripe.dataStart := by
  have hround : roundUp8 (n + size) = n + roundUp8 size := by
    simp only [roundUp8]
    omega
  unfold ChainConfig.carryByteBudget at hcarry
  simp only at hcarry
  split at hcarry
  · omega
  · have := hcarry.trans (Nat.min_le_right _ _)
    omega

theorem copyOk_image {r : Record} (h : RecordOk r) (hkey : r.key = key) (hlen : r.doc.len = src.len)
    (hid : r.doc.alternateId = src.id)
    (hpass : r.doc.writeSerial = (cfg.stripe.passOf cfg.gen - 1) % 2 ^ 32)
    (hserial : r.doc.fillSerial = src.serial) : copyOk cfg key src (Record.image r) = true := by
  obtain ⟨hservable, hfirst, -, -, -, hsum⟩ := reader_image h
  have hdoc := (document_image h.inRange).1
  rw [Reader.verifyChecksum, hdoc] at hsum
  simp only [copyOk, hservable, hfirst, hdoc, hsum, hkey, hlen, hid, hpass, hserial,
    beq_self_eq_true, Bool.and_self]

theorem carriedOf_pair {src' : CarrySource} (hkept : keptOf budget cand = [src, src'])
    (hnone : copyOf cfg key file src = none) (hcopy : copyOf cfg key file src' = some copy)
    (hfree : exposed cfg now src'.rel = false) :
    carriedOf cfg key file now budget cand = [(src', copy)] := by
  simp [carriedOf, hkept, copiesOf, hnone, hcopy, hfree]

def secondPass : ChainConfig where
  stripe :=
    { offset := 0, dataStart := 8, size := 4104, chunks := 2, chunkSize := 2048, retain := true,
      start_lt := by decide, start_aligned := by decide, chunks_pos := by decide,
      chunks_le := by decide, covered := by decide, flush_one := by decide }
  gen := 3
  unlinkSupersededAlternates := true
  maxObjectSize := 0

def oldDoc : Builder := builderFor 5 [1] [2, 3] 0 0 0 0

def oldChain : List CarrySource := [⟨144, 133, 1, 0⟩, ⟨8, 135, 0, 0⟩]

def firstPass (src : CarrySource) : Option Memory :=
  if src.rel = 8 then some (memoryOf (List.replicate 8 0 ++ oldDoc.build)) else none

def newDoc : Builder := builderFor 5 [] [6] 2 0 0 0

def newSlot : CarrySlot := ⟨296, 1, 7⟩

def secondPassPlan : CarryPlan :=
  carryRetainedChain secondPass 5 firstPass 3 oldChain (2 : UInt8).toNat newDoc.build.length

theorem length_oldDoc : oldDoc.build.length = 135 := by decide +kernel

theorem length_newDoc : newDoc.build.length = 133 := by decide +kernel

theorem oldDoc_image : oldDoc.build = Record.image (built oldDoc oldDoc.content) ∧
    RecordOk (built oldDoc oldDoc.content) :=
  build_image rfl rfl rfl rfl (List.length_pos_iff.mp (by rw [length_oldDoc]; decide))

theorem newDoc_image : newDoc.build = Record.image (built newDoc newDoc.content) ∧
    RecordOk (built newDoc newDoc.content) :=
  build_image rfl rfl rfl rfl (List.length_pos_iff.mp (by rw [length_newDoc]; decide))

theorem copyOf_firstPass : copyOf secondPass 5 firstPass ⟨8, 135, 0, 0⟩ = some oldDoc.build := by
  have hfile : firstPass ⟨8, 135, 0, 0⟩ = some (memoryOf (List.replicate 8 0 ++ oldDoc.build)) :=
    if_pos rfl
  have hcopy := @copyOk_image secondPass 5 ⟨8, 135, 0, 0⟩ _ oldDoc_image.2 rfl rfl rfl rfl rfl
  have hread := readAt_of_holds
    (holds_append.mp (holds_memoryOf (List.replicate 8 0 ++ oldDoc.build))).2
  rw [length_oldDoc, List.length_replicate, Nat.zero_add] at hread
  rw [← oldDoc_image.1] at hcopy
  rw [copyOf, if_neg (by decide), hfile, Option.bind_some, hread, if_pos hcopy]

theorem secondPassPlan_eq : secondPassPlan = ⟨stack [(⟨8, 135, 0, 0⟩, oldDoc.build)],
    startsFrom 0 [(⟨8, 135, 0, 0⟩, oldDoc.build)], 1⟩ := by
  obtain ⟨dropped, hplan, hcount⟩ := @carryRetainedChain_eq secondPass 5 firstPass 3 oldChain _
    512 (2 : UInt8).toNat newDoc.build.length rfl (by decide) rfl (by rw [length_newDoc]; rfl)
  have hcarried := @carriedOf_pair secondPass 5 firstPass 3
    (candidates kMaxChainTraversalDepth [(2 : UInt8).toNat] oldChain) ⟨144, 133, 1, 0⟩ 512 _
    ⟨8, 135, 0, 0⟩ (by decide) rfl copyOf_firstPass rfl
  have hcands : (candidates kMaxChainTraversalDepth [(2 : UInt8).toNat] oldChain).length = 2 := by
    decide
  rw [hcarried, hcands, List.length_singleton] at hcount
  have hdropped : dropped = 1 := by omega
  rw [secondPassPlan, hplan, hcarried, hdropped]

end Carry

end CycloneCache.Ref

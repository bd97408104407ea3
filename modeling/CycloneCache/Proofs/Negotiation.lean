import CycloneCache.Ref.Negotiation

/-!
# Negotiation does not depend on the order of a list

A blank at the edge of an element changes nothing of what is read from it, so
the ranges of a list are those of its trimmed elements.
-/

namespace CycloneCache.Ref.Http

open Lib

universe u

variable {Q : Type u} {sc : Scale Q} {list list' : Str} {b : UInt8}

/-- The elements of a list, without empty ones and blanks around them. -/
def elements (list : Str) : List Str := ((list.splitOn 44).map trim).filter (· ≠ [])

theorem trim_cons (hb : isOws b = true) (m : Str) : trim (b :: m) = trim m := by
  rw [trim, trimBy, List.dropWhile_cons_of_pos hb]
  rfl

theorem trim_concat (hb : isOws b = true) (m : Str) : trim (m ++ [b]) = trim m := by
  simp only [trim, trimBy, List.dropWhile_append]
  split
  · next hnil => simp [List.isEmpty_iff.mp hnil, hb]
  · rw [List.rdropWhile_concat_pos _ _ _ hb]

theorem ne_of_isOws {c : UInt8} (hb : isOws b = true) (hc : isOws c = false) : b ≠ c := by
  rintro rfl
  rw [hb] at hc
  cases hc

/-- A character that is not the separator goes to the last part. -/
theorem splitOn_concat {sep : UInt8} (hb : b ≠ sep) (m : Str) : ∃ parts last,
    m.splitOn sep = parts ++ [last] ∧ (m ++ [b]).splitOn sep = parts ++ [last ++ [b]] := by
  have hsep : (b == sep) = false := beq_eq_false_iff_ne.mpr hb
  induction m with
  | nil => exact ⟨[], [], rfl, by simp [List.splitOn, List.splitOnP_cons_eq_if_modifyHead, hsep]⟩
  | cons c m ih =>
    obtain ⟨parts, last, hm, hmb⟩ := ih
    simp only [List.splitOn, List.cons_append, List.splitOnP_cons_eq_if_modifyHead] at hm hmb ⊢
    rw [hm, hmb]
    split
    · exact ⟨[] :: parts, last, rfl, rfl⟩
    · cases parts with
      | nil => exact ⟨[], c :: last, rfl, rfl⟩
      | cons p parts => exact ⟨(c :: p) :: parts, last, rfl, rfl⟩

theorem readParam_concat (hb : isOws b = true) (q : Q) (param : Str) :
    readParam sc q (param ++ [b]) = readParam sc q param := by
  have hne : b ≠ 61 := ne_of_isOws hb (by decide)
  by_cases heq : 61 ∈ param
  · obtain ⟨name, value, rfl, hname⟩ := List.eq_append_cons_of_mem heq
    have hfirst : ∀ c ∈ name, (c != 61) = true := fun c hc => bne_iff_ne.mpr fun h => hname (h ▸ hc)
    simp [readParam, List.takeWhile_append_of_pos hfirst, List.dropWhile_append_of_pos hfirst,
      trim_concat hb]
  · have heq' : 61 ∉ param ++ [b] := by simp [heq, hne.symm]
    simp [readParam, heq, heq']

theorem parseRangeItem_cons (hb : isOws b = true) (m : Str) :
    parseRangeItem sc (b :: m) = parseRangeItem sc m := by
  have hsep : (b == 59) = false := beq_eq_false_iff_ne.mpr (ne_of_isOws hb (by decide))
  obtain ⟨p, parts, hm⟩ := List.exists_cons_of_ne_nil (List.splitOnP_ne_nil (· == 59) m)
  simp only [parseRangeItem, List.splitOn, List.splitOnP_cons_eq_if_modifyHead, hsep, hm]
  simp [trim_cons hb]

theorem parseRangeItem_concat (hb : isOws b = true) (m : Str) :
    parseRangeItem sc (m ++ [b]) = parseRangeItem sc m := by
  obtain ⟨parts, last, hm, hmb⟩ := splitOn_concat (ne_of_isOws (c := 59) hb (by decide)) m
  simp only [parseRangeItem, hm, hmb]
  cases parts with
  | nil => simp [trim_concat hb]
  | cons p parts => simp [readParam_concat hb]

theorem parseRangeItem_trim (m : Str) : parseRangeItem sc (trim m) = parseRangeItem sc m := by
  have hfront : ∀ m, parseRangeItem sc (m.dropWhile isOws) = parseRangeItem sc m := by
    intro m
    induction m with
    | nil => rfl
    | cons b m ih =>
      cases hb : isOws b with
      | true => rw [List.dropWhile_cons_of_pos hb, ih, parseRangeItem_cons hb]
      | false => rw [List.dropWhile_cons_of_neg (by simp [hb])]
  have hback : ∀ m, parseRangeItem sc (m.rdropWhile isOws) = parseRangeItem sc m := by
    intro m
    induction m using List.reverseRecOn with
    | nil => rfl
    | append_singleton m b ih =>
      cases hb : isOws b with
      | true => rw [List.rdropWhile_concat_pos _ _ _ hb, ih, parseRangeItem_concat hb]
      | false => rw [List.rdropWhile_concat_neg _ _ _ (by simp [hb])]
  rw [trim, trimBy, hback, hfront]

theorem ranges_eq (sc : Scale Q) (list : Str) :
    ranges sc list = ((elements list).map (parseRangeItem sc)).filter fun item => item.token ≠ [] := by
  rw [ranges, elements]
  induction list.splitOn 44 with
  | nil => rfl
  | cons m ms ih =>
    have hm := @parseRangeItem_trim Q sc m
    rw [List.map_cons, List.map_cons, List.filter_cons, List.filter_cons, ih]
    by_cases htrim : trim m = []
    · have htoken : (parseRangeItem sc m).token = [] := by
        rw [← hm, htrim]
        rfl
      simp [htrim, htoken]
    · simp [htrim, hm, List.filter_cons]

section Decides

variable [LinearOrder Q] {rank : Str → Option Nat} {fallback : Q}

/-- The offers of a list: the ranges that match, each with its specificity. -/
def offers (rank : Str → Option Nat) (items : List (RangeItem Q)) : List (Nat × Q) :=
  items.filterMap fun item => (rank item.token).map fun s => (s, item.q)

theorem negotiate_eq (sc : Scale Q) (rank : Str → Option Nat) (fallback : Q) (list : Str) :
    negotiate sc rank fallback list =
      (((offers rank (ranges sc list)).foldl keepBest none).map (·.2)).getD fallback := by
  have hfold : (ranges sc list).foldl (consider rank) none =
      (offers rank (ranges sc list)).foldl keepBest none := by
    rw [offers, List.foldl_filterMap]
    congr 1
    funext best item
    rw [consider]
    cases rank item.token <;> rfl
  rw [negotiate, hfold]
  cases (offers rank (ranges sc list)).foldl keepBest none <;> rfl

/-- `x` is the largest q of the matching ranges with the highest specificity, or
the fallback if none matches. -/
def Decides (rank : Str → Option Nat) (fallback : Q) (items : List (RangeItem Q)) (x : Q) : Prop :=
  (∀ i ∈ items, rank i.token = none) ∧ x = fallback ∨
    ∃ i ∈ items, ∃ s, rank i.token = some s ∧ x = i.q ∧
      ∀ j ∈ items, ∀ s', rank j.token = some s' → s' < s ∨ s' = s ∧ j.q ≤ i.q

theorem decides_negotiate (sc : Scale Q) (rank : Str → Option Nat) (fallback : Q) (list : Str) :
    Decides rank fallback (ranges sc list) (negotiate sc rank fallback list) := by
  rw [negotiate_eq]
  generalize ranges sc list = items
  rcases foldl_keepBest (offers rank items) with hnil | ⟨best, hbest, hmem, hmax⟩
  · refine .inl ⟨?_, by rw [hnil]; rfl⟩
    simpa [offers] using hnil
  · obtain ⟨i, hi, hrank⟩ := List.mem_filterMap.mp hmem
    obtain ⟨s, hs, rfl⟩ := Option.map_eq_some_iff.mp hrank
    refine .inr ⟨i, hi, s, hs, by rw [hbest]; rfl, fun j hj s' hs' => ?_⟩
    exact hmax (s', j.q) (List.mem_filterMap.mpr ⟨j, hj, by rw [hs']; rfl⟩)

theorem negotiate_congr (h : (elements list).Perm (elements list')) :
    negotiate sc rank fallback list = negotiate sc rank fallback list' := by
  rw [negotiate_eq, negotiate_eq, foldl_keepBest_congr]
  intro x
  rw [ranges_eq, ranges_eq]
  exact (((h.map _).filter _).filterMap _).mem_iff

/-- A content type without a slash is matched by nothing. -/
def contentTypeRank (contentType : Str) : Str → Option Nat :=
  if 47 ∉ contentType then fun _ => none
  else acceptRank (trim (contentType.takeWhile (· != 47)))
    (trim (((contentType.dropWhile (· != 47)).drop 1).takeWhile (· != 59)))

theorem calculateAcceptQuality_eq (hlist : list ≠ []) (contentType : Str) :
    calculateAcceptQuality sc list contentType =
      negotiate sc (contentTypeRank contentType) sc.zero list := by
  rw [calculateAcceptQuality, if_neg hlist, contentTypeRank]
  split
  · have hnone : offers (fun _ => none) (ranges sc list) = [] := by simp [offers]
    rw [negotiate_eq, hnone]
    rfl
  · rfl

/-- What each of the three functions makes of a list, and that the list may be
permuted and may have empty elements and blanks. The empty text, which stands
for a header that the request does not have, is apart. -/
theorem negotiation (sc : Scale Q) (list contentType coding language : Str) (hlist : list ≠ []) :
    let accept (list : Str) := calculateAcceptQuality sc list contentType
    let encoding (list : Str) := calculateAcceptEncodingQuality sc list coding
    let lang (list : Str) := calculateAcceptLanguageQuality sc list language
    Decides (contentTypeRank contentType) sc.zero (ranges sc list) (accept list) ∧
    Decides (encodingRank coding) (if iequals coding kIdentity then sc.one else sc.zero)
      (ranges sc list) (encoding list) ∧
    Decides (languageRank language) sc.zero (ranges sc list) (lang list) ∧
    (∀ list', list' ≠ [] → (elements list).Perm (elements list') →
      accept list' = accept list ∧ encoding list' = encoding list ∧ lang list' = lang list) ∧
    accept [] = sc.one ∧ encoding [] = sc.one ∧ lang [] = sc.one := by
  simp only [calculateAcceptQuality_eq hlist, calculateAcceptEncodingQuality, if_neg hlist,
    calculateAcceptLanguageQuality]
  refine ⟨decides_negotiate .., decides_negotiate .., decides_negotiate .., ?_, rfl, rfl, rfl⟩
  intro list' hlist' hperm
  rw [calculateAcceptQuality_eq hlist', if_neg hlist', if_neg hlist']
  exact ⟨negotiate_congr hperm.symm, negotiate_congr hperm.symm, negotiate_congr hperm.symm⟩

end Decides

/-- Qualities out of ten, of one digit. -/
def tenths : Scale Nat := ⟨0, 10, fun v => (v.headD 48).toNat - 48⟩

def textHtml : Str := str ['t', 'e', 'x', 't', '/', 'h', 't', 'm', 'l']

/-- "text/*;q=3, */*" and "*/* ,, text/*;q=3" give `text/html` a quality of 3. -/
theorem negotiation_two :
    let list := str ['t', 'e', 'x', 't', '/', '*', ';', 'q', '=', '3', ',', ' ', '*', '/', '*']
    let list' := str ['*', '/', '*', ' ', ',', ',', ' ', 't', 'e', 'x', 't', '/', '*', ';', 'q',
      '=', '3']
    calculateAcceptQuality tenths list textHtml = 3 ∧
      calculateAcceptQuality tenths list' textHtml = calculateAcceptQuality tenths list textHtml :=
  ⟨by decide +kernel, ((negotiation tenths _ textHtml [] [] (by decide)).2.2.2.1 _ (by decide)
    (by decide +kernel)).1⟩

/-- The empty text accepts everything, a blank nothing. -/
theorem blank_list_rejects :
    ¬ ∀ (sc : Scale Nat) (list list' contentType : Str), (elements list).Perm (elements list') →
      calculateAcceptQuality sc list' contentType = calculateAcceptQuality sc list contentType := by
  intro h
  have hblank := h tenths [] [32] textHtml (by decide)
  revert hblank
  decide +kernel

end CycloneCache.Ref.Http

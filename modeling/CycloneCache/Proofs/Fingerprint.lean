import CycloneCache.Ref.Fingerprint
import Mathlib.Data.List.GetD
import Mathlib.Data.List.TakeWhile

namespace CycloneCache.Ref.Fingerprint

open Lib
open StripeTiling (SizeT sizeT Geometry computeStripeGeometry)
open Volume (kVolumeHeaderSize)

theorem isDigit_dash : isDigit '-' = false := by decide

variable {c : Char}

theorem ne_of_isHex {d : Char} (hc : isHex c = true) (hd : isHex d = false) : c ≠ d := by
  rintro rfl
  rw [hc] at hd
  cases hd

theorem isHex_of_isDigit (h : isDigit c = true) : isHex c = true := by
  unfold isHex
  unfold isDigit at h
  rw [h, Bool.true_or]

theorem isHex_hexDigits (h : BitVec 64) : (hexDigits h).all isHex = true := by
  have hdigit : ∀ n < 16, isHex (charAt kHex n) = true := by decide
  simp only [hexDigits, List.all_map, List.all_eq_true]
  intro i _
  apply hdigit
  rw [BitVec.toNat_and]
  exact lt_of_le_of_lt Nat.and_le_right (by decide)

theorem length_hexDigits (h : BitVec 64) : (hexDigits h).length = 16 := by
  rw [hexDigits, List.length_map, List.length_range]

theorem formatText_digits : formatText ≠ [] ∧ formatText.all isDigit = true := by decide

theorem charAt_length (s t : Str) (c : Char) : charAt (s ++ c :: t) s.length = c := by
  rw [charAt, List.getD_append_right _ _ _ _ le_rfl, Nat.sub_self, List.getD_cons_zero]

theorem charAt_drop (s : Str) (d i : Nat) : charAt (s.drop d) i = charAt s (d + i) := by
  simp only [charAt, List.getD_eq_getElem?_getD, List.getElem?_drop]

theorem eq_around {s : Str} {i : Nat} (h : i < s.length) :
    s = s.take i ++ charAt s i :: s.drop (i + 1) := by
  rw [charAt, List.getD_eq_getElem s _ h, ← List.drop_eq_getElem_cons h, List.take_append_drop]

theorem digitRunStart_le (s : Str) (d : Nat) : digitRunStart s d ≤ d := by
  induction d with
  | zero => exact Nat.le_refl 0
  | succ d ih =>
    rw [digitRunStart]
    split
    · exact Nat.le_succ_of_le ih
    · exact le_rfl

theorem digitRunStart_run {s : Str} {d i : Nat} (hlo : digitRunStart s d ≤ i) (hhi : i < d) :
    isDigit (charAt s i) = true := by
  induction d with
  | zero => exact absurd hhi (Nat.not_lt_zero i)
  | succ d ih =>
    rw [digitRunStart] at hlo
    split at hlo
    · next hdigit =>
      rcases Nat.lt_succ_iff_lt_or_eq.mp hhi with hlt | rfl
      · exact ih hlo hlt
      · exact hdigit
    · exact absurd hhi (Nat.not_lt_of_le hlo)

theorem digitRunStart_append {s run rest : Str} (hrun : run.all isDigit = true)
    (hc : isDigit c = false) :
    digitRunStart (s ++ c :: (run ++ rest)) (s.length + 1 + run.length) = s.length + 1 := by
  induction run using List.reverseRecOn generalizing rest with
  | nil =>
    rw [List.nil_append, List.length_nil, Nat.add_zero, digitRunStart, charAt_length, hc]
    rfl
  | append_singleton run x ih =>
    rw [List.all_append, Bool.and_eq_true] at hrun
    have hx : isDigit x = true := by simpa using hrun.2
    have hsplit : s ++ c :: (run ++ [x] ++ rest) = s ++ c :: run ++ x :: rest := by simp
    have hpos : s.length + 1 + run.length = (s ++ c :: run).length := by
      rw [List.length_append, List.length_cons]
      omega
    have hhere : charAt (s ++ c :: (run ++ [x] ++ rest)) (s.length + 1 + run.length) = x := by
      rw [hsplit, hpos, charAt_length]
    rw [List.length_append, List.length_singleton, ← Nat.add_assoc, digitRunStart, hhere, hx,
      if_pos rfl, List.append_assoc]
    exact ih hrun.1

structure HasTail (stem base digits hash : Str) : Prop where
  eq : stem = base ++ '-' :: (digits ++ '-' :: hash)
  some_digit : digits ≠ []
  digits : digits.all isDigit = true
  length : hash.length = 16
  hex : hash.all isHex = true

namespace HasTail

variable {s base digits hash : Str}

section

variable (h : HasTail s base digits hash)
include h

theorem length_eq : s.length = base.length + 1 + digits.length + 1 + 16 := by
  rw [h.eq]
  simp only [List.length_append, List.length_cons, h.length]
  omega

theorem runStart : digitRunStart s (s.length - 16 - 1) = base.length + 1 := by
  have hlen := h.length_eq
  rw [show s.length - 16 - 1 = base.length + 1 + digits.length by omega, h.eq]
  exact digitRunStart_append h.digits isDigit_dash

theorem recognised : stemIsFingerprinted s = true := by
  have hlen := h.length_eq
  have hsome : 0 < digits.length := List.length_pos_iff.mpr h.some_digit
  have hfront : s = base ++ '-' :: digits ++ '-' :: hash := by rw [h.eq]; simp
  have hfrontLen : (base ++ '-' :: digits).length = s.length - 16 - 1 := by
    rw [List.length_append, List.length_cons]
    omega
  have hhash : s.drop (s.length - 16) = hash := by
    rw [show s.length - 16 = (base ++ '-' :: digits ++ ['-']).length by
      simp only [List.length_append, List.length_cons, List.length_nil]
      omega]
    conv_lhs => rw [hfront]
    rw [show base ++ '-' :: digits ++ '-' :: hash = base ++ '-' :: digits ++ ['-'] ++ hash by simp,
      List.drop_left]
  have hdash : charAt s (s.length - 16 - 1) = '-' := by
    rw [← hfrontLen]
    conv_lhs => rw [hfront]
    exact charAt_length _ _ _
  have hopen : charAt s (base.length + 1 - 1) = '-' := by
    rw [h.eq]
    exact charAt_length _ _ _
  unfold stemIsFingerprinted
  rw [if_neg (by omega)]
  simp only [hhash, h.hex, hdash, h.runStart, hopen]
  simp only [Bool.not_true, Bool.false_eq_true, if_false]
  rw [if_neg (by simp only [bne_self_eq_false, Bool.or_false, decide_eq_true_eq]; omega),
    if_neg (by omega)]
  simp

theorem base_eq : fingerprintBaseStem s = base := by
  unfold fingerprintBaseStem
  rw [h.recognised]
  simp only [Bool.not_true, Bool.false_eq_true, if_false, h.runStart, Nat.add_sub_cancel]
  rw [h.eq, List.take_left]

end

end HasTail

theorem hasTail_of_recognised {s : Str} (h : stemIsFingerprinted s = true) :
    ∃ base digits hash, HasTail s base digits hash := by
  unfold stemIsFingerprinted at h
  split at h
  · cases h
  · next hlen =>
    simp only at h
    split at h
    · cases h
    · next hhex =>
      split at h
      · cases h
      · next hdash =>
        split at h
        · cases h
        · next hsome =>
          have hle := digitRunStart_le s (s.length - 16 - 1)
          have hrun := fun i => @digitRunStart_run s (s.length - 16 - 1) i
          generalize digitRunStart s (s.length - 16 - 1) = d at *
          simp only [Bool.and_eq_true, decide_eq_true_eq, beq_iff_eq] at h
          simp only [Bool.not_eq_true', Bool.not_eq_false, Bool.or_eq_true,
            decide_eq_true_eq, bne_iff_ne, not_or, ne_eq, not_not] at hhex hdash
          -- cut at the two dashes
          have hbase := eq_around (show d - 1 < s.length by omega)
          have hrest := @eq_around (s.drop d) (s.length - 16 - 1 - d)
            (by rw [List.length_drop]; omega)
          rw [h.2, Nat.sub_add_cancel h.1] at hbase
          rw [charAt_drop, List.drop_drop, Nat.add_sub_cancel' hle, hdash.2,
            show d + (s.length - 16 - 1 - d + 1) = s.length - 16 by omega] at hrest
          refine ⟨s.take (d - 1), (s.drop d).take (s.length - 16 - 1 - d),
            s.drop (s.length - 16), ?_, ?_, ?_, ?_, hhex⟩
          · rw [← hrest]
            exact hbase
          · apply List.ne_nil_of_length_pos
            rw [List.length_take, List.length_drop]
            omega
          · rw [List.all_eq_true]
            intro c hc
            obtain ⟨i, hi, rfl⟩ := List.getElem_of_mem hc
            rw [List.length_take, List.length_drop] at hi
            have hdigit := hrun (d + i) (by omega) (by omega)
            rw [charAt, List.getD_eq_getElem s _ (by omega)] at hdigit
            rw [List.getElem_take, List.getElem_drop]
            exact hdigit
          · rw [List.length_drop]
            omega

theorem dropWhile_reverse {t : Str} (s : Str) (h : c ∉ t) :
    (s ++ c :: t).reverse.dropWhile (· ≠ c) = c :: s.reverse := by
  have hrun : ∀ x ∈ t.reverse, decide (x ≠ c) = true := fun x hx =>
    decide_eq_true fun heq => h (heq ▸ List.mem_reverse.mp hx)
  rw [List.reverse_append, List.reverse_cons, List.append_assoc, List.dropWhile_append_of_pos hrun]
  simp

theorem takeWhile_reverse {t : Str} (s : Str) (h : c ∉ t) :
    (s ++ c :: t).reverse.takeWhile (· ≠ c) = t.reverse := by
  have hrun : ∀ x ∈ t.reverse, decide (x ≠ c) = true := fun x hx =>
    decide_eq_true fun heq => h (heq ▸ List.mem_reverse.mp hx)
  rw [List.reverse_append, List.reverse_cons, List.append_assoc, List.takeWhile_append_of_pos hrun]
  simp

variable {name : Str}

theorem filename_behind_slash (dir : Str) (h : '/' ∉ name) :
    filename (dir ++ '/' :: name) = name := by
  rw [filename, takeWhile_reverse dir h, List.reverse_reverse]

theorem filename_plain (h : '/' ∉ name) : filename name = name := by
  have hall : ∀ x ∈ name.reverse, decide (x ≠ '/') = true := fun x hx =>
    decide_eq_true fun heq => h (heq ▸ List.mem_reverse.mp hx)
  rw [filename, List.takeWhile_eq_self_iff.mpr hall, List.reverse_reverse]

theorem slash_notMem_filename (path : Str) : '/' ∉ filename path := by
  intro hmem
  have := List.mem_takeWhile_imp (List.mem_reverse.mp hmem)
  exact absurd this (by decide)

theorem filename_join (dir : Str) (h : '/' ∉ name) : filename (join dir name) = name := by
  unfold join
  split
  · next hdir =>
    rcases hdir with rfl | hlast
    · exact filename_plain h
    · obtain ⟨front, rfl⟩ := List.getLast?_eq_some_iff.mp hlast
      rw [List.append_assoc]
      exact filename_behind_slash front h
  · exact filename_behind_slash dir h

inductive Split : Str → Str → Str → Prop where
  /-- There is no dot, or only one in front. -/
  | whole {name : Str} (h : '.' ∉ name ∨ ∃ rest, name = '.' :: rest ∧ '.' ∉ rest) :
      Split name name []
  | dot {stem ext : Str} (hstem : stem ≠ []) (hext : '.' ∉ ext) :
      Split (stem ++ '.' :: ext) stem ('.' :: ext)

theorem dropWhile_no_dot (h : '.' ∉ name) : name.reverse.dropWhile (· ≠ '.') = [] := by
  rw [List.dropWhile_eq_nil_iff]
  exact fun x hx => decide_eq_true fun heq => h (heq ▸ List.mem_reverse.mp hx)

theorem Split.splitName_eq {stem ext : Str} (h : Split name stem ext)
    (hne : name ≠ ['.'] ∧ name ≠ ['.', '.']) : splitName name = (stem, ext) := by
  unfold splitName
  rw [if_neg (not_or.mpr hne)]
  cases h with
  | whole h =>
    rcases h with h | ⟨rest, rfl, h⟩
    · rw [dropWhile_no_dot h]
      rfl
    · have hdrop := dropWhile_reverse [] h
      rw [List.nil_append] at hdrop
      rw [hdrop]
      rfl
  | @dot stem ext hstem hext =>
    have hlen : 0 < stem.length := List.length_pos_iff.mpr hstem
    rw [dropWhile_reverse stem hext, List.length_cons, List.length_reverse]
    simp only [Nat.add_sub_cancel]
    rw [if_neg (by omega), List.take_left, List.drop_left]

theorem eq_around_last_dot (h : '.' ∈ name) :
    ∃ front back, name = front ++ '.' :: back ∧ '.' ∉ back := by
  induction name with
  | nil => cases h
  | cons c name ih =>
    by_cases hrest : '.' ∈ name
    · obtain ⟨front, back, rfl, hback⟩ := ih hrest
      exact ⟨c :: front, back, rfl, hback⟩
    · rcases List.mem_cons.mp h with rfl | hmem
      · exact ⟨[], name, rfl, hrest⟩
      · exact absurd hmem hrest

theorem split_splitName (hne : name ≠ ['.'] ∧ name ≠ ['.', '.']) :
    Split name (splitName name).1 (splitName name).2 := by
  obtain ⟨stem, ext, hsplit⟩ : ∃ stem ext, Split name stem ext := by
    by_cases hdot : '.' ∈ name
    · obtain ⟨front, back, rfl, hback⟩ := eq_around_last_dot hdot
      cases front with
      | nil => exact ⟨_, _, .whole (.inr ⟨back, rfl, hback⟩)⟩
      | cons c front => exact ⟨_, _, .dot (List.cons_ne_nil c front) hback⟩
    · exact ⟨name, [], .whole (.inl hdot)⟩
  rw [hsplit.splitName_eq hne]
  exact hsplit

theorem Split.name_eq {stem ext : Str} (h : Split name stem ext) : name = stem ++ ext := by
  cases h with
  | whole _ => rw [List.append_nil]
  | dot _ _ => rfl

theorem Split.extend {stem ext tail : Str} (h : Split name stem ext) (hdot : '.' ∉ tail) :
    Split (stem ++ tail ++ ext) (stem ++ tail) ext := by
  cases h with
  | whole h =>
    rw [List.append_nil]
    apply Split.whole
    rcases h with h | ⟨rest, rfl, h⟩
    · exact .inl fun hmem => (List.mem_append.mp hmem).elim h hdot
    · exact .inr ⟨rest ++ tail, rfl, fun hmem => (List.mem_append.mp hmem).elim h hdot⟩
  | dot hstem hext => exact .dot (List.append_ne_nil_of_left_ne_nil hstem tail) hext

def tailOf (h : BitVec 64) : Str := '-' :: (formatText ++ '-' :: hexDigits h)

theorem notMem_tailOf (h : BitVec 64) (hhex : isHex c = false) (hdash : c ≠ '-') :
    c ∉ tailOf h := by
  intro hmem
  have hdigits := formatText_digits.2
  have hhash := isHex_hexDigits h
  rw [List.all_eq_true] at hdigits hhash
  simp only [tailOf, List.mem_cons, List.mem_append] at hmem
  rcases hmem with hc | hc | hc | hc
  · exact hdash hc
  · exact ne_of_isHex (isHex_of_isDigit (hdigits c hc)) hhex rfl
  · exact hdash hc
  · exact ne_of_isHex (hhash c hc) hhex rfl

theorem hasTail_tailOf (s : Str) (h : BitVec 64) :
    HasTail (s ++ tailOf h) s formatText (hexDigits h) where
  eq := rfl
  some_digit := formatText_digits.1
  digits := formatText_digits.2
  length := length_hexDigits h
  hex := isHex_hexDigits h

theorem fingerprintCachePath_fresh {listing : List Listed} {path : Str} {size stripeSize : SizeT}
    {mmapDirectory : Bool} (hsize : ¬ size < sizeT kVolumeHeaderSize)
    (hfresh : stemIsFingerprinted (stem path) = false) :
    fingerprintCachePath listing path size stripeSize mmapDirectory =
      join (parentPath path) (stem path ++
        tailOf (geohash (computeStripeGeometry size stripeSize) mmapDirectory) ++
          extension path) := by
  unfold fingerprintCachePath
  rw [if_neg hsize, hfresh]
  simp [beforeHash, tailOf]

example : fingerprintCachePath [] "cyclone.dat".toList 268435456 0 true =
    "cyclone-9-c4b2a399312f69c8.dat".toList := by decide +kernel

theorem fresh_filename {path : Str}
    (hname : filename path ≠ ['.'] ∧ filename path ≠ ['.', '.']) (h : BitVec 64) :
    let name := stem path ++ tailOf h ++ extension path
    filename (join (parentPath path) name) = name ∧
      splitName name = (stem path ++ tailOf h, extension path) := by
  intro name
  have hsplit := split_splitName hname
  have hslash : '/' ∉ name := by
    have hfile := slash_notMem_filename path
    rw [hsplit.name_eq] at hfile
    intro hmem
    simp only [name, List.mem_append] at hmem
    rcases hmem with (hmem | hmem) | hmem
    · exact hfile (List.mem_append_left _ hmem)
    · exact notMem_tailOf h (by decide) (by decide) hmem
    · exact hfile (List.mem_append_right _ hmem)
  have hdash : '-' ∈ name :=
    List.mem_append_left _ (List.mem_append_right _ List.mem_cons_self)
  refine ⟨filename_join _ hslash, ?_⟩
  apply (hsplit.extend (notMem_tailOf h (by decide) (by decide))).splitName_eq
  constructor
  · intro heq
    have hmem : '-' ∈ ['.'] := heq ▸ hdash
    exact absurd hmem (by decide)
  · intro heq
    have hmem : '-' ∈ ['.', '.'] := heq ▸ hdash
    exact absurd hmem (by decide)

theorem fresh_candidate (path : Str) (h : BitVec 64) :
    isCandidate path (stem path ++ tailOf h ++ extension path) = true := by
  have hlead : stem path ++ tailOf h ++ extension path =
      beforeHash (stem path) ++ (hexDigits h ++ extension path) := by
    simp [beforeHash, tailOf]
  have hlen := length_hexDigits h
  rw [hlead]
  generalize hname : beforeHash (stem path) ++ (hexDigits h ++ extension path) = name
  have hlength : name.length = (beforeHash (stem path)).length + 16 + (extension path).length := by
    rw [← hname, List.length_append, List.length_append, hlen, Nat.add_assoc]
  have htake : name.take (beforeHash (stem path)).length = beforeHash (stem path) := by
    rw [← hname, List.take_left]
  have hext : name.drop (name.length - (extension path).length) = extension path := by
    rw [hlength, Nat.add_sub_cancel, ← hname, ← List.append_assoc, ← hlen, ← List.length_append,
      List.drop_left]
  have hhash : (name.drop (beforeHash (stem path)).length).take 16 = hexDigits h := by
    rw [← hname, List.drop_left, ← hlen, List.take_left]
  unfold isCandidate
  simp only [hhash, isHex_hexDigits]
  rw [if_neg (by simp [hlength, htake]), if_neg (by simp [hext])]

/-- A fingerprint added to a name is recognised, taken off again and not added
twice, the extension stays, and the name is one that an unsized open of the
original path considers. A stem is recognised exactly when it has the shape,
and then what stands before the tail is its base. -/
theorem fingerprint_names {path : Str} (listing : List Listed) {size : SizeT}
    (stripeSize : SizeT) (mmapDirectory : Bool) (hdot : filename path ≠ ['.'])
    (hdots : filename path ≠ ['.', '.']) (hfresh : stemIsFingerprinted (stem path) = false)
    (hsize : kVolumeHeaderSize ≤ size.toNat) :
    let named := fingerprintCachePath listing path size stripeSize mmapDirectory
    (stemIsFingerprinted (stem named) = true ∧ fingerprintBaseStem (stem named) = stem path ∧
        extension named = extension path ∧
        (∀ (listing' : List Listed) (size' stripeSize' : SizeT) (mmapDirectory' : Bool),
          kVolumeHeaderSize ≤ size'.toNat →
          fingerprintCachePath listing' named size' stripeSize' mmapDirectory' = named) ∧
        isCandidate path (filename named) = true) ∧
      ∀ s : Str, (stemIsFingerprinted s = true ↔ ∃ base digits hash, HasTail s base digits hash) ∧
          ∀ base digits hash, HasTail s base digits hash → fingerprintBaseStem s = base := by
  intro named
  refine ⟨?_, fun s => ⟨⟨hasTail_of_recognised, ?_⟩, fun _ _ _ h => h.base_eq⟩⟩
  · have hfloor : ∀ v : SizeT, kVolumeHeaderSize ≤ v.toNat → ¬ v < sizeT kVolumeHeaderSize := by
      intro v hv
      rw [BitVec.lt_def]
      exact Nat.not_lt_of_le hv
    have hnamed : named = _ := fingerprintCachePath_fresh (hfloor size hsize) hfresh
    obtain ⟨hfile, hsplit⟩ := fresh_filename ⟨hdot, hdots⟩
      (geohash (computeStripeGeometry size stripeSize) mmapDirectory)
    have hstem : stem named =
        stem path ++ tailOf (geohash (computeStripeGeometry size stripeSize) mmapDirectory) := by
      rw [stem, hnamed, hfile, hsplit]
    have htail := hasTail_tailOf (stem path)
      (geohash (computeStripeGeometry size stripeSize) mmapDirectory)
    rw [← hstem] at htail
    refine ⟨htail.recognised, htail.base_eq, ?_, ?_, ?_⟩
    · rw [extension, hnamed, hfile, hsplit]
    · intro listing' size' stripeSize' mmapDirectory' hsize'
      rw [fingerprintCachePath, if_neg (hfloor size' hsize'), if_pos htail.recognised]
    · rw [hnamed, hfile]
      exact fresh_candidate path _
  · rintro ⟨base, digits, hash, h⟩
    exact h.recognised

theorem fingerprint_names_dat : stemIsFingerprinted (stem "cyclone.dat".toList) = false ∧
      fingerprintBaseStem (stem (fingerprintCachePath [] "cyclone.dat".toList 268435456 0 true)) =
          "cyclone".toList := by
  have hfresh : stemIsFingerprinted (stem "cyclone.dat".toList) = false := by decide +kernel
  have hnames := fingerprint_names [] (0 : SizeT) true (show filename "cyclone.dat".toList ≠ ['.'] by
    decide +kernel) (by decide +kernel) hfresh (show kVolumeHeaderSize ≤ (268435456 : SizeT).toNat by
    decide +kernel)
  exact ⟨hfresh, hnames.1.2.1⟩

end CycloneCache.Ref.Fingerprint

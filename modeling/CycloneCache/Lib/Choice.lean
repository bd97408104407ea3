import Mathlib.Tactic

/-!
# The best offer

A fold keeps the best of the offers so far: one of a higher rank, or one of the
same rank and a higher quality. What it ends with is a best offer of the list,
and depends on nothing but which offers there are.
-/

namespace CycloneCache.Lib

universe u v

variable {R : Type u} {Q : Type v} [LinearOrder R] [LinearOrder Q]

def keepBest (best : Option (R × Q)) (x : R × Q) : Option (R × Q) :=
  match best with
  | none => some x
  | some b => if x.1 > b.1 ∨ x.1 = b.1 ∧ x.2 > b.2 then some x else some b

def IsBest (l : List (R × Q)) (b : R × Q) : Prop :=
  b ∈ l ∧ ∀ x ∈ l, x.1 < b.1 ∨ x.1 = b.1 ∧ x.2 ≤ b.2

variable {l l' : List (R × Q)} {b c : R × Q}

theorem IsBest.snoc (h : IsBest l b) (x : R × Q) :
    ∃ c, keepBest (some b) x = some c ∧ IsBest (l ++ [x]) c := by
  obtain ⟨hmem, hbest⟩ := h
  simp only [keepBest, IsBest, List.mem_append, List.mem_singleton]
  split
  · next hx =>
    refine ⟨x, rfl, .inr rfl, ?_⟩
    rintro y (hy | rfl)
    · have := hbest y hy
      grind
    · exact .inr ⟨rfl, le_rfl⟩
  · next hx =>
    refine ⟨b, rfl, .inl hmem, ?_⟩
    rintro y (hy | rfl)
    · exact hbest y hy
    · grind

theorem foldl_keepBest (l : List (R × Q)) :
    l = [] ∨ ∃ b, l.foldl keepBest none = some b ∧ IsBest l b := by
  induction l using List.reverseRecOn with
  | nil => exact .inl rfl
  | append_singleton l x ih =>
    right
    rw [List.foldl_append]
    rcases ih with rfl | ⟨b, hb, hbest⟩
    · exact ⟨x, rfl, List.mem_singleton_self x, by simp⟩
    · rw [hb]
      exact hbest.snoc x

theorem IsBest.unique (hb : IsBest l b) (hc : IsBest l' c) (h : ∀ x, x ∈ l ↔ x ∈ l') : b = c := by
  have hle := hc.2 b ((h b).mp hb.1)
  have hge := hb.2 c ((h c).mpr hc.1)
  refine Prod.ext ?_ ?_ <;> grind

/-- The order of the offers does not matter. -/
theorem foldl_keepBest_congr (h : ∀ x, x ∈ l ↔ x ∈ l') :
    l.foldl keepBest none = l'.foldl keepBest none := by
  rcases foldl_keepBest l with rfl | ⟨b, hb, hbest⟩
  · rw [List.eq_nil_iff_forall_not_mem.mpr fun x hx => List.not_mem_nil ((h x).mpr hx)]
  · rcases foldl_keepBest l' with rfl | ⟨c, hc, hbest'⟩
    · exact absurd ((h b).mp hbest.1) List.not_mem_nil
    · rw [hb, hc, hbest.unique hbest' h]

end CycloneCache.Lib

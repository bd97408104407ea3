import Mathlib.Tactic

/-!
# Extents that tile a range

A list of extents tiles a range if the first starts where the range does,
each next one starts where the last ended, and the last ends where the range
does. Order, disjointness, containment and the sum of the sizes are all read
off that.
-/

namespace CycloneCache.Lib

universe u

variable {α : Type u} {start size : α → Nat}

/-- The extents cover `lo` up to `hi` one after the other. -/
def Tiles (start size : α → Nat) : Nat → List α → Nat → Prop
  | lo, [], hi => lo = hi
  | lo, a :: l, hi => start a = lo ∧ Tiles start size (lo + size a) l hi

variable {l : List α} {lo hi : Nat}

section

variable (h : Tiles start size lo l hi)
include h

theorem Tiles.snoc {a : α} (ha : start a = hi) : Tiles start size lo (l ++ [a]) (hi + size a) := by
  induction l generalizing lo with
  | nil =>
    rw [show lo = hi from h]
    exact ⟨ha, rfl⟩
  | cons b l ih => exact ⟨h.1, ih h.2⟩

theorem Tiles.sum : lo + (l.map size).sum = hi := by
  induction l generalizing lo with
  | nil => exact h
  | cons a l ih =>
    rw [List.map_cons, List.sum_cons, ← Nat.add_assoc]
    exact ih h.2

theorem Tiles.within : ∀ a ∈ l, lo ≤ start a ∧ start a + size a ≤ hi := by
  induction l generalizing lo with
  | nil => nofun
  | cons a l ih =>
    have hrest := h.2.sum
    intro b hb
    rcases List.mem_cons.mp hb with rfl | hb
    · have hstart := h.1
      omega
    · have := ih h.2 b hb
      omega

theorem Tiles.pairwise : l.Pairwise fun a b => start a + size a ≤ start b := by
  induction l generalizing lo with
  | nil => exact .nil
  | cons a l ih =>
    refine List.pairwise_cons.mpr ⟨fun b hb => ?_, ih h.2⟩
    rw [h.1]
    exact (h.2.within b hb).1

end

end CycloneCache.Lib

import Mathlib.Tactic

/-!
# How many threads are in a phase

A counter that threads raise when they enter a phase and lower when they leave
it should be the number of threads in the phase. The number is that of a set,
so any number of threads may exist; a step changes the place of one thread,
and that moves the number by one or not at all.
-/

namespace CycloneCache.Lib

open Function

universe u v

variable {ι : Type u} {α : Type v}

/-- The number of threads whose place is in the phase. -/
noncomputable def headcount (phase : ι → α → Prop) (places : ι → α) : ℕ∞ :=
  {i | phase i (places i)}.encard

section

variable {phase : ι → α → Prop} {places : ι → α}

theorem headcount_eq_zero : headcount phase places = 0 ↔ ∀ i, ¬ phase i (places i) := by
  rw [headcount, Set.encard_eq_zero, Set.eq_empty_iff_forall_notMem]
  rfl

/-- One thread is in the larger phase and not in the smaller one. -/
theorem headcount_succ_le {phase' : ι → α → Prop} {i : ι}
    (h : ∀ j, phase j (places j) → phase' j (places j)) (hin : phase' i (places i))
    (hout : ¬ phase i (places i)) : headcount phase places + 1 ≤ headcount phase' places := by
  unfold headcount
  rw [← Set.encard_insert_of_notMem (show i ∉ {j | phase j (places j)} from hout)]
  apply Set.encard_le_encard
  rintro j (rfl | hj)
  · exact hin
  · exact h j hj

variable [DecidableEq ι] {i : ι} {a : α}

theorem headcount_stay (h : phase i a ↔ phase i (places i)) :
    headcount phase (update places i a) = headcount phase places := by
  unfold headcount
  congr 1
  ext j
  by_cases hj : j = i
  · subst hj
    simp [h]
  · simp [hj]

theorem headcount_enter (hold : ¬ phase i (places i)) (hnew : phase i a) :
    headcount phase (update places i a) = headcount phase places + 1 := by
  unfold headcount
  rw [← Set.encard_insert_of_notMem (show i ∉ {j | phase j (places j)} from hold)]
  congr 1
  ext j
  by_cases hj : j = i
  · subst hj
    simp [hnew]
  · simp [hj]

theorem headcount_leave (hold : phase i (places i)) (hnew : ¬ phase i a) :
    headcount phase (update places i a) + 1 = headcount phase places := by
  have hback := @headcount_enter ι α phase (update places i a) _ i (places i)
    (by simpa using hnew) hold
  rw [update_idem, update_eq_self] at hback
  exact hback.symm

/-- A counter goes along with a thread that moves from `old` to `new`. -/
def Tracks (phase : α → Prop) (old new : α) (n n' : Nat) : Prop :=
  ((phase old ↔ phase new) ∧ n' = n) ∨ (¬ phase old ∧ phase new ∧ n' = n + 1) ∨
    (phase old ∧ ¬ phase new ∧ n' = n - 1)

/-- A counter that goes along with every thread stays their number. -/
theorem Tracks.headcount_eq {n n' : Nat} (h : Tracks (phase i) (places i) a n n')
    (hn : (n : ℕ∞) = headcount phase places) :
    (n' : ℕ∞) = headcount phase (update places i a) := by
  obtain ⟨hiff, rfl⟩ | ⟨hold, hnew, rfl⟩ | ⟨hold, hnew, rfl⟩ := h
  · rw [headcount_stay hiff.symm]
    exact hn
  · rw [headcount_enter hold hnew, ← hn, Nat.cast_add, Nat.cast_one]
  · have hleave := headcount_leave hold hnew
    rw [← hn] at hleave
    cases n with
    | zero => exact absurd (add_eq_zero.mp hleave).2 one_ne_zero
    | succ m =>
      rw [Nat.cast_add, Nat.cast_one] at hleave
      exact (WithTop.add_right_cancel WithTop.one_ne_top hleave).symm

end

end CycloneCache.Lib

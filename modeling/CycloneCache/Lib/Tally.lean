import Mathlib.Tactic

/-!
# What many threads owe together

Each thread owes a whole number, and all but finitely many owe nothing. The sum
is followed along a run: a step changes what one thread owes, and the sum by as
much.
-/

namespace CycloneCache.Lib

universe u

variable {ι : Type u}

/-- The sum of what the threads owe is `n`. -/
def Tally (owed : ι → ℤ) (n : ℤ) : Prop :=
  ∃ book : ι →₀ ℤ, ⇑book = owed ∧ (book.sum fun _ x => x) = n

theorem Tally.zero : Tally (fun _ : ι => 0) 0 := ⟨0, rfl, Finsupp.sum_zero_index⟩

theorem Tally.update [DecidableEq ι] {owed : ι → ℤ} {n : ℤ} (h : Tally owed n) (i : ι) (x : ℤ) :
    Tally (Function.update owed i x) (n - owed i + x) := by
  obtain ⟨book, rfl, hsum⟩ := h
  refine ⟨book.update i x, ?_, ?_⟩
  · rw [Finsupp.coe_update]
  · have hadd := Finsupp.sum_update_add book i x (fun _ x => x) (fun _ => rfl) fun _ _ _ => rfl
    rw [hsum] at hadd
    omega

/-- When nobody owes anything, nothing is owed. -/
theorem Tally.settled {owed : ι → ℤ} {n : ℤ} (h : Tally owed n) (hall : ∀ i, owed i = 0) :
    n = 0 := by
  obtain ⟨book, rfl, hsum⟩ := h
  have hzero : book = 0 := Finsupp.ext hall
  rw [← hsum, hzero, Finsupp.sum_zero_index]

end CycloneCache.Lib

import Mathlib.Tactic

/-!
# What the threads of a list hold together

A number that is spread over threads, each holding a part: the sum over the
list of threads, and how it follows when one thread moves.
-/

namespace CycloneCache.Lib

universe u

variable {α : Type u} {f : α → Nat} {l : List α} {a b : α} {i : Nat}

def total (f : α → Nat) (l : List α) : Nat := (l.map f).sum

theorem total_set (h : l[i]? = some a) : total f (l.set i b) + f a = total f l + f b := by
  unfold total
  induction l generalizing i with
  | nil => simp at h
  | cons c l ih =>
    cases i with
    | zero =>
      obtain rfl : c = a := by simpa using h
      simp only [List.set_cons_zero, List.map_cons, List.sum_cons]
      omega
    | succ i =>
      have hrest := ih (i := i) (by simpa using h)
      simp only [List.set_cons_succ, List.map_cons, List.sum_cons]
      omega

theorem total_concat : total f (l ++ [a]) = total f l + f a := by simp [total]

end CycloneCache.Lib

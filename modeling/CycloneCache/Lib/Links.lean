import Mathlib.Tactic

/-!
# Singly linked lists in a shared memory

A memory of nodes is a partial function `next`: a node and the node its link
names. `Reach next a b` says that following links from `a` leads to `b`.
Links are followed one way, so the nodes reached from one node are ordered
along the list (`Reach.linear`), and where links only point down the list
ends.

Two stores are the subject. A shortcut stores into a node a link to
something the node reached already, and nothing becomes reachable by it
(`Reach.of_shortcut`). An unlink is the shortcut over one node, and if the
storing node is on the list, that node is gone from it
(`not_reach_of_unlink`). The hypothesis is needed: a predecessor that is no
longer on the list itself unlinks nothing.

`IsPath next o l` says that `l` is the whole list that starts at `o`, so that a
splice can be read off the list of nodes (`IsPath.splice`).
-/

namespace CycloneCache.Lib

open Function

universe u

section Reach

variable {α : Type u}

/-- Following links from `a` leads to `b`. -/
def Reach (next : α → Option α) : α → α → Prop :=
  Relation.ReflTransGen fun a b => next a = some b

variable {next : α → Option α} {a b c p t : α}

theorem Reach.refl (a : α) : Reach next a a := Relation.ReflTransGen.refl

theorem Reach.tail (h : Reach next a b) (hl : next b = some c) :
    Reach next a c := Relation.ReflTransGen.tail h hl

theorem Reach.head (hl : next a = some b) (h : Reach next b c) :
    Reach next a c := Relation.ReflTransGen.head hl h

theorem Reach.trans (h₁ : Reach next a b) (h₂ : Reach next b c) :
    Reach next a c := Relation.ReflTransGen.trans h₁ h₂

/-- A node is reached at once or through the first link. -/
theorem Reach.cases_link (h : Reach next a c) : a = c ∨ ∃ b, next a = some b ∧ Reach next b c := by
  rcases Relation.ReflTransGen.cases_head h with h | ⟨b, hl, hb⟩
  · exact .inl h
  · exact .inr ⟨b, hl, hb⟩

theorem Reach.linear (hb : Reach next a b) (hc : Reach next a c) :
    Reach next b c ∨ Reach next c b := by
  apply Relation.ReflTransGen.total_of_right_unique _ hb hc
  intro x y z hy hz
  rw [hy] at hz
  exact Option.some.inj hz

/-- What every link keeps, a walk keeps. -/
theorem Reach.keeps {P : α → Prop} (hlink : ∀ x y, P x → next x = some y → P y)
    (h : Reach next a b) (ha : P a) : P b := by
  induction h with
  | refl => exact ha
  | tail _ hl ih => exact hlink _ _ ih hl

section Store

variable [DecidableEq α] {v : Option α}

/-- Storing into `p` a link to a node `p` reached before, or no link, makes
nothing reachable. -/
theorem Reach.of_shortcut (hv : ∀ n, v = some n → Reach next p n) (h : Reach (update next p v) a b) :
    Reach next a b := by
  induction h with
  | refl => exact .refl a
  | @tail x y _ hl ih =>
    by_cases hx : x = p
    · rw [hx, update_self] at hl
      rw [hx] at ih
      exact ih.trans (hv y hl)
    · rw [update_of_ne hx] at hl
      exact ih.tail hl

/-- A store into `p` leaves the way to `p`. -/
theorem Reach.update_last (h : Reach next a p) : Reach (update next p v) a p := by
  induction h using Relation.ReflTransGen.head_induction_on with
  | refl => exact .refl p
  | @head x y hl _ ih =>
    by_cases hx : x = p
    · rw [hx]
      exact .refl p
    · exact Reach.head (by rw [update_of_ne hx]; exact hl) ih

/-- The store that unlinks `t` from its predecessor on the list. -/
theorem not_reach_of_unlink [Preorder α] (hdown : ∀ x y, next x = some y → y < x)
    (hlink : next p = some t) (hv : next t = v) (hp : Reach next a p) :
    ¬ Reach (update next p v) a t := by
  have hle : ∀ {x y}, Reach next x y → y ≤ x := by
    intro x y hxy
    induction hxy with
    | refl => exact le_refl x
    | tail _ hl ih => exact le_trans (le_of_lt (hdown _ _ hl)) ih
  have hshort : ∀ n, v = some n → Reach next p n := by
    intro n hn
    exact Reach.head hlink (Reach.head (hv.trans hn) (.refl n))
  have htp : t < p := hdown p t hlink
  intro h
  rcases Relation.ReflTransGen.cases_tail h with heq | ⟨x, hax, hxt⟩
  · rw [heq] at htp
    exact lt_irrefl _ (lt_of_lt_of_le htp (hle hp))
  · -- the last link into `t` was there before the store
    have hne : x ≠ p := by
      intro hx
      rw [hx, update_self] at hxt
      exact lt_irrefl _ (hdown t t (hv.trans hxt))
    have hold : next x = some t := by
      change update next p v x = some t at hxt
      rwa [update_of_ne hne] at hxt
    -- `x` and `p` both point at `t` and one comes after the other
    rcases Reach.linear (Reach.of_shortcut hshort hax) hp with hxp | hpx
    · rcases hxp.cases_link with heq | ⟨y, hy, hyp⟩
      · exact hne heq
      · rw [hold] at hy
        cases hy
        exact lt_irrefl _ (lt_of_lt_of_le htp (hle hyp))
    · rcases hpx.cases_link with heq | ⟨y, hy, hyx⟩
      · exact hne heq.symm
      · rw [hlink] at hy
        cases hy
        exact lt_irrefl _ (lt_of_lt_of_le (hdown x t hold) (hle hyx))

end Store

end Reach

section Path

variable {α : Type u} {next : α → Option α} {a b p : α} {o v : Option α} {l l₂ : List α}

/-- Following links from `o` visits exactly the nodes of `l`, in that order. -/
def IsPath (next : α → Option α) : Option α → List α → Prop
  | o, [] => o = none
  | o, a :: l => o = some a ∧ IsPath next (next a) l

theorem IsPath.head?_eq (h : IsPath next o l) : l.head? = o := by
  cases l with
  | nil => exact h.symm
  | cons a l => exact h.1.symm

/-- What follows on a list is the list from its first node. -/
theorem IsPath.suffix (l₁ : List α) (h : IsPath next o (l₁ ++ l₂)) : IsPath next l₂.head? l₂ := by
  induction l₁ generalizing o with
  | nil =>
    have hl : IsPath next o l₂ := h
    rw [hl.head?_eq]
    exact hl
  | cons a l₁ ih => exact ih h.2

theorem IsPath.mem_iff (h : IsPath next (some a) l) : b ∈ l ↔ Reach next a b := by
  induction l generalizing a with
  | nil => cases h
  | cons x l ih =>
    obtain ⟨hx, hl⟩ := h
    obtain rfl := Option.some.inj hx
    rw [List.mem_cons]
    constructor
    · rintro (rfl | hb)
      · exact .refl _
      · cases hn : next a with
        | none =>
          rw [hn] at hl
          cases l with
          | nil => cases hb
          | cons y l => cases hl.1
        | some c =>
          rw [hn] at hl
          exact Reach.head hn ((ih hl).mp hb)
    · intro hr
      rcases hr.cases_link with rfl | ⟨c, hc, hr⟩
      · exact .inl rfl
      · rw [hc] at hl
        exact .inr ((ih hl).mpr hr)

/-- Where links point down, a list is ordered. -/
theorem IsPath.lt_of_mem [Preorder α] (hdown : ∀ x y, next x = some y → y < x)
    (h : IsPath next (next a) l) (hb : b ∈ l) : b < a := by
  cases hn : next a with
  | none =>
    rw [hn] at h
    cases l with
    | nil => cases hb
    | cons x l => cases h.1
  | some c =>
    rw [hn] at h
    have hr : Reach next c b := h.mem_iff.mp hb
    have hle : b ≤ c := hr.keeps (P := fun x => x ≤ c)
      (fun x y hx hl => le_trans (le_of_lt (hdown x y hl)) hx) (le_refl c)
    exact lt_of_le_of_lt hle (hdown a c hn)

/-- A list depends on the links of its own nodes. -/
theorem IsPath.congr {next' : α → Option α} (h : IsPath next o l)
    (heq : ∀ a ∈ l, next' a = next a) : IsPath next' o l := by
  induction l generalizing o with
  | nil => exact h
  | cons a l ih =>
    refine ⟨h.1, ?_⟩
    rw [heq a List.mem_cons_self]
    exact ih h.2 fun b hb => heq b (List.mem_cons_of_mem a hb)

theorem isPath_update_of_not_mem [DecidableEq α] (hp : p ∉ l) :
    IsPath (update next p v) o l ↔ IsPath next o l := by
  induction l generalizing o with
  | nil => exact Iff.rfl
  | cons a l ih =>
    rw [List.mem_cons, not_or] at hp
    change o = some a ∧ IsPath (update next p v) (update next p v a) l ↔
      o = some a ∧ IsPath next (next a) l
    rw [update_of_ne (Ne.symm hp.1), ih hp.2]

/-- A store into `a` that skips `l₁` leaves `a` and what follows `l₁`. -/
theorem IsPath.splice [DecidableEq α] (l₁ : List α)
    (h : IsPath next (some a) (a :: (l₁ ++ l₂))) (ha : a ∉ l₂) : IsPath (update next a l₂.head?) (some a) (a :: l₂) := by
  refine ⟨rfl, ?_⟩
  rw [update_self, isPath_update_of_not_mem ha]
  exact IsPath.suffix (a :: l₁) h

/-- The same in the middle of a list. -/
theorem IsPath.splice_mid [DecidableEq α] {l₀ l₁ : List α}
    (h : IsPath next o (l₀ ++ a :: (l₁ ++ l₂))) (hfront : a ∉ l₀) (ha : a ∉ l₂) :
    IsPath (update next a l₂.head?) o (l₀ ++ a :: l₂) := by
  induction l₀ generalizing o with
  | nil =>
    obtain ⟨rfl, hl⟩ := h
    exact IsPath.splice l₁ ⟨rfl, hl⟩ ha
  | cons b l₀ ih =>
    rw [List.mem_cons, not_or] at hfront
    refine ⟨h.1, ?_⟩
    rw [update_of_ne (Ne.symm hfront.1)]
    exact ih h.2 hfront.2

end Path

/-- The first `fuel` nodes of the list that starts at `a`. -/
def walk {α : Type u} (next : α → Option α) : Nat → α → List α
  | 0, _ => []
  | fuel + 1, a =>
    a ::
      match next a with
      | none => []
      | some b => walk next fuel b

theorem reach_of_mem_walk {α : Type u} {next : α → Option α} {fuel : Nat}
    {a b : α} (h : b ∈ walk next fuel a) : Reach next a b := by
  induction fuel generalizing a with
  | zero => cases h
  | succ fuel ih =>
    rw [walk] at h
    rcases List.mem_cons.mp h with rfl | h
    · exact .refl _
    · cases hn : next a with
      | none =>
        rw [hn] at h
        cases h
      | some c =>
        rw [hn] at h
        exact Reach.head hn (ih h)

end CycloneCache.Lib

import CycloneCache.Proofs.StripeGeometry

namespace CycloneCache.Ref

open Lib

namespace Stripe

variable {st : Stripe}

def settled (st : Stripe) (cursor gen : Nat) : Words where
  intent := 0
  cursor := cursor
  phase := phaseOf (st.passOf gen)
  gen := gen

def wrapped (st : Stripe) (pass : Nat) : Words where
  intent := 0
  cursor := st.dataStart
  phase := phaseOf (pass + 1)
  gen := st.genOf (pass + 1) st.wrapFrontier

structure Unmarked (cursor gen : Nat) (w : Words) : Prop where
  intent : w.intent = 0 ∨ w.intent = kIntentStep
  cursor : w.cursor = cursor
  gen : w.gen = gen

variable {cursor gen pass : Nat} {w : Words}

section

variable (h : Unmarked cursor gen w)
include h

theorem Unmarked.plan : st.repairWrapState w = [.phase (phaseOf (st.passOf gen)), .intent 0] := by
  have hnot : ¬ (w.intent = kIntentWrapEven ∨ w.intent = kIntentWrapOdd) := by
    rcases h.intent with hi | hi <;> rw [hi] <;> decide
  simp only [repairWrapState, if_neg hnot, h.gen]

theorem Unmarked.recovered_eq :
    recovered Words.put st.repairWrapState w = st.settled cursor gen := by
  simp only [recovered, h.plan, settled, ← h.cursor, ← h.gen]
  rfl

theorem Unmarked.cut (j : Nat) :
    Unmarked cursor gen (cutRecovery Words.put st.repairWrapState w j) := by
  simp only [cutRecovery, h.plan]
  match j with
  | 0 => exact h
  | 1 => exact ⟨h.intent, h.cursor, h.gen⟩
  | j + 2 =>
    rw [List.take_of_length_le (by simp)]
    exact ⟨Or.inl rfl, h.cursor, h.gen⟩

theorem Unmarked.repair (js : List Nat) :
    recovered Words.put st.repairWrapState (cutRecoveries Words.put st.repairWrapState w js) =
      st.settled cursor gen :=
  Lib.recovered_eq (fun _ hs j => hs.cut j) (fun _ hs => hs.recovered_eq) h js

end

inductive Marked (st : Stripe) (pass : Nat) : Words → Prop where
  | old {w : Words} (hi : w.intent = committedIntent (pass + 1))
      (hg : st.passOf w.gen = pass) : Marked st pass w
  | new {w : Words} (hi : w.intent = committedIntent (pass + 1))
      (hg : w.gen = st.genOf (pass + 1) st.wrapFrontier) : Marked st pass w
  | done : Marked st pass (st.wrapped pass)

theorem committedIntent_parity (newPass : Nat) : (committedIntent newPass = kIntentWrapEven ∨
      committedIntent newPass = kIntentWrapOdd) ∧
    (if committedIntent newPass = kIntentWrapOdd then 1 else 0) = newPass % 2 := by
  simp only [committedIntent, kIntentWrapEven, kIntentWrapOdd]
  split <;> simp <;> omega

theorem plan_of_old (hi : w.intent = committedIntent (pass + 1)) (hg : st.passOf w.gen = pass) :
    st.repairWrapState w =
      [.cursor st.dataStart, .phase (phaseOf (pass + 1)),
        .gen (st.genOf (pass + 1) st.wrapFrontier),
        .phase (phaseOf (pass + 1)), .intent 0] := by
  obtain ⟨hwrap, hparity⟩ := committedIntent_parity (pass + 1)
  simp only [repairWrapState, hi, if_pos hwrap, hparity, hg]
  rw [if_pos (by omega)]

theorem plan_of_new (hi : w.intent = committedIntent (pass + 1))
    (hg : w.gen = st.genOf (pass + 1) st.wrapFrontier) :
    st.repairWrapState w =
      [.cursor st.dataStart, .phase (phaseOf (pass + 1)), .intent 0] := by
  obtain ⟨hwrap, hparity⟩ := committedIntent_parity (pass + 1)
  simp only [repairWrapState, hi, if_pos hwrap, hparity, hg,
    passOf_genOf st.wrapFrontier_le, ne_eq, not_true_eq_false, if_false]

theorem plan_of_done : st.repairWrapState (st.wrapped pass) =
      [.phase (phaseOf (pass + 1)), .intent 0] := by
  have h : Unmarked st.dataStart (st.genOf (pass + 1) st.wrapFrontier)
      (st.wrapped pass) := ⟨Or.inl rfl, rfl, rfl⟩
  rw [h.plan, passOf_genOf st.wrapFrontier_le]

theorem Marked.recovered_eq (h : Marked st pass w) :
    recovered Words.put st.repairWrapState w = st.wrapped pass := by
  cases h with
  | old hi hg =>
    rw [recovered, plan_of_old hi hg]
    rfl
  | new hi hg =>
    rw [recovered, plan_of_new hi hg, wrapped, ← hg]
    rfl
  | done =>
    rw [recovered, plan_of_done]
    rfl

theorem Marked.cut (h : Marked st pass w) (j : Nat) :
    Marked st pass (cutRecovery Words.put st.repairWrapState w j) := by
  have hall := h.recovered_eq
  simp only [recovered] at hall
  cases h with
  | old hi hg =>
    simp only [cutRecovery, plan_of_old hi hg] at hall ⊢
    match j with
    | 0 | 1 | 2 => exact .old hi hg
    | 3 | 4 => exact .new hi rfl
    | j + 5 =>
      rw [List.take_of_length_le (by simp), hall]
      exact .done
  | new hi hg =>
    simp only [cutRecovery, plan_of_new hi hg] at hall ⊢
    match j with
    | 0 | 1 | 2 => exact .new hi hg
    | j + 3 =>
      rw [List.take_of_length_le (by simp), hall]
      exact .done
  | done =>
    simp only [cutRecovery, plan_of_done] at hall ⊢
    match j with
    | 0 => exact .done
    | 1 =>
      -- the phase is already the new pass's
      have hsame : applyAll Words.put (st.wrapped pass)
          [.phase (phaseOf (pass + 1))] = st.wrapped pass := rfl
      rw [List.take_succ_cons, List.take_zero, hsame]
      exact .done
    | j + 2 =>
      rw [List.take_of_length_le (by simp), hall]
      exact .done

theorem Marked.repair (h : Marked st pass w) (js : List Nat) :
    recovered Words.put st.repairWrapState
        (cutRecoveries Words.put st.repairWrapState w js) = st.wrapped pass :=
  Lib.recovered_eq (fun _ hs j => hs.cut j) (fun _ hs => hs.recovered_eq) h js

theorem unmarked_of_clear (hidle : w.intent = 0) : Unmarked w.cursor w.gen w :=
  ⟨Or.inl hidle, rfl, rfl⟩

theorem unmarked_of_raised (w : Words) : Unmarked w.cursor w.gen (w.put (.intent kIntentStep)) :=
  ⟨Or.inr rfl, rfl, rfl⟩

theorem commitStores_marked (j : Nat) : Marked st (st.passOf w.gen)
      (applyAll Words.put w ((st.commitStores (st.passOf w.gen)).take (j + 1))) := by
  simp only [commitStores]
  match j with
  | 0 | 1 | 2 => exact .old rfl rfl
  | 3 => exact .new rfl rfl
  | j + 4 =>
    rw [List.take_of_length_le (by simp)]
    exact .done

def repairedAfter (st : Stripe) (w : Words) (stores : List Store) (k : Nat)
    (js : List Nat) : Words :=
  recovered Words.put st.repairWrapState (cutRecoveries Words.put st.repairWrapState
      (applyAll Words.put w (stores.take k)) js)

theorem repairedAfter_of_length_le {stores : List Store} {k : Nat} (h : stores.length ≤ k)
    (js : List Nat) :
    st.repairedAfter w stores k js = recovered Words.put st.repairWrapState
        (cutRecoveries Words.put st.repairWrapState (applyAll Words.put w stores) js) := by
  rw [repairedAfter, List.take_of_length_le h]

theorem repairedAfter_advance (hidle : w.intent = 0) {upTo : Nat} (hle : upTo ≤ st.chunks) (k : Nat)
    (js : List Nat) :
    st.repairedAfter w (st.advanceStores (st.passOf w.gen) upTo) k js =
      { st.settled w.cursor w.gen with
        gen := if k ≤ 1 then w.gen else st.genOf (st.passOf w.gen) upTo } := by
  have hnew : st.settled w.cursor (st.genOf (st.passOf w.gen) upTo) =
      { st.settled w.cursor w.gen with gen := st.genOf (st.passOf w.gen) upTo } := by
    rw [settled, passOf_genOf hle]
    rfl
  match k with
  | 0 => exact (unmarked_of_clear hidle).repair js
  | 1 => exact (unmarked_of_raised w).repair js
  | 2 => exact hnew ▸ (unmarked_of_raised { w with gen := _ }).repair js
  | k + 3 =>
    rw [repairedAfter_of_length_le (by simp [advanceStores]), if_neg (by omega), ← hnew]
    exact (unmarked_of_clear (w := { w with intent := 0, gen := _ }) rfl).repair js

theorem repairedAfter_deferred (hidle : w.intent = 0) (k : Nat) (js : List Nat) :
    st.repairedAfter w deferredStores k js = st.settled w.cursor w.gen := by
  match k with
  | 0 => exact (unmarked_of_clear hidle).repair js
  | 1 => exact (unmarked_of_raised w).repair js
  | k + 2 =>
    rw [repairedAfter_of_length_le (by simp [deferredStores])]
    exact (unmarked_of_clear (w := { w with intent := 0 }) rfl).repair js

/-- Crash recovery of a wrap. A writer that dies after `k` stores of a flush
wrap, a retention wrap, an advance or a deferred step leaves words from
which the repair, dying any number of times itself, ends with nothing
changed, or with the wrap completed once it was marked, or with the advance
made once its generation was stored. -/
theorem repair_wrap_completes {w : Words} (hidle : w.intent = 0) (k : Nat)
    (js : List Nat) (need : Nat) :
    st.repairedAfter w (st.flushWrapStores (st.passOf w.gen)) k js =
        (if k ≤ 1 then st.settled w.cursor w.gen
        else st.wrapped (st.passOf w.gen)) ∧
    st.repairedAfter w (st.retentionWrapStores (st.passOf w.gen)) k js =
        (if k = 0 then st.settled w.cursor w.gen
        else st.wrapped (st.passOf w.gen)) ∧
    st.repairedAfter w (st.advanceStores (st.passOf w.gen) (st.chunkIndexCeil need)) k js =
      { st.settled w.cursor w.gen with
        gen := if k ≤ 1 then w.gen
          else st.genOf (st.passOf w.gen) (st.chunkIndexCeil need) } ∧
    st.repairedAfter w deferredStores k js = st.settled w.cursor w.gen := by
  refine ⟨?_, ?_, repairedAfter_advance hidle (st.chunkIndexCeil_le _) k js,
    repairedAfter_deferred hidle k js⟩
  · match k with
    | 0 => exact (unmarked_of_clear hidle).repair js
    | 1 => exact (unmarked_of_raised w).repair js
    | k + 2 =>
      rw [if_neg (by omega)]
      exact (commitStores_marked (w := w.put (.intent kIntentStep)) k).repair js
  · match k with
    | 0 => exact (unmarked_of_clear hidle).repair js
    | k + 1 =>
      rw [if_neg (by omega)]
      exact (commitStores_marked k).repair js

end Stripe

/-- A writer that dies with the cursor dropped and the generation still the
old pass's, and a repair that dies after its own generation store. -/
theorem repair_wrap_completes_small : (smallStripe true).repairedAfter ⟨0, 900, true, 5⟩
      ((smallStripe true).retentionWrapStores 1) 2 [3] = ⟨0, 8, false, 6⟩ :=
  (@Stripe.repair_wrap_completes (smallStripe true) ⟨0, 900, true, 5⟩ rfl 2
    [3] 0).2.1

end CycloneCache.Ref

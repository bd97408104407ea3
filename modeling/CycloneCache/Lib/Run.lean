import Mathlib.Tactic

/-!
# Runs of a labelled step function

Every concurrent part of the cache is modelled the same way: a state, a
label that names whose atomic step comes next, and a partial function that
performs that step or refuses it. A run is a list of labels; all
interleavings are all lists. This file says once what such a run is and how
a property is carried along it, so that each protocol only has to say what
one of its steps does.

Nothing here knows about caches. `runs` executes a schedule, `StepsOk`
restricts one to steps that meet a side condition on the state before the
step, and `runs_inv` and `runs_inv_of_ok` are the two induction rules. What
a step can do is read off the text of its function: `Yields` says it of every
result, with one rule for each way the text branches.
-/

namespace CycloneCache.Lib

open Function

universe u v

variable {S : Type u} {L : Type v}

/-- Every result of a step has the property. -/
def Yields (o : Option S) (P : S → Prop) : Prop := ∀ s, o = some s → P s

section Yields

variable {P : S → Prop} {s : S} {x y : Option S} {c : Prop} [Decidable c]

theorem Yields.none : Yields none P := nofun

theorem Yields.some (h : P s) : Yields (some s) P := fun _ hs => Option.some.inj hs ▸ h

theorem Yields.ite (hyes : c → Yields x P) (hno : ¬ c → Yields y P) :
    Yields (if c then x else y) P := by
  split
  · next hc => exact hyes hc
  · next hc => exact hno hc

/-- A guarded step. -/
theorem Yields.guard (h : c → Yields x P) : Yields (if c then x else Option.none) P :=
  .ite h fun _ => .none

end Yields

/-- Execute a schedule; `none` as soon as one label is refused. -/
def runs (step : S → L → Option S) : S → List L → Option S
  | s, [] => some s
  | s, l :: ls => (step s l).bind fun s' => runs step s' ls

/-- Every step the schedule performs meets `ok`, read off the state the step
starts from. A refused label ends the schedule, so it asks for nothing. -/
def StepsOk (step : S → L → Option S) (ok : S → L → Prop) : S → List L → Prop
  | _, [] => True
  | s, l :: ls => ok s l ∧ ∀ s', step s l = some s' → StepsOk step ok s' ls

variable {step : S → L → Option S} {ok : S → L → Prop} {ls : List L} {s s' : S} {l : L}

@[simp] theorem runs_nil : runs step s [] = some s := rfl

theorem runs_cons : runs step s (l :: ls) = (step s l).bind fun s' => runs step s' ls := rfl

/-- The first step of a run that completes. -/
theorem runs_cons_some (h : runs step s (l :: ls) = some s') :
    ∃ mid, step s l = some mid ∧ runs step mid ls = some s' := by
  rw [runs_cons] at h
  exact Option.bind_eq_some_iff.mp h

theorem runs_append {ls₁ ls₂ : List L} :
    runs step s (ls₁ ++ ls₂) =
      (runs step s ls₁).bind fun mid => runs step mid ls₂ := by
  induction ls₁ generalizing s with
  | nil => rfl
  | cons l ls ih =>
    rw [List.cons_append, runs_cons, runs_cons, Option.bind_assoc]
    exact Option.bind_congr fun mid _ => ih

/-- The states that a schedule passes: the first, and those of the rest. -/
theorem runs_prefix_cons {P : S → Prop} :
    (∀ ls' s', ls' <+: l :: ls → runs step s ls' = some s' → P s') ↔
      P s ∧ ∀ mid, step s l = some mid →
        ∀ ls' s', ls' <+: ls → runs step mid ls' = some s' → P s' := by
  constructor
  · intro h
    refine ⟨h [] s List.nil_prefix rfl, fun mid hmid ls' s' hls' hrun => ?_⟩
    apply h (l :: ls') s' ((List.prefix_cons_inj l).mpr hls')
    rw [runs_cons, hmid]
    exact hrun
  · rintro ⟨hs, hrest⟩ ls' s' hls' hrun
    cases ls' with
    | nil =>
      cases hrun
      exact hs
    | cons l' ls' =>
      obtain ⟨rfl, htail⟩ := List.cons_prefix_cons.mp hls'
      obtain ⟨mid, hmid, hrun⟩ := runs_cons_some hrun
      exact hrest mid hmid ls' s' htail hrun

/-- A step appended to a run. -/
theorem runs_snoc {mid : S} (h : runs step s ls = some mid) (hl : step mid l = some s') :
    runs step s (ls ++ [l]) = some s' := by
  rw [runs_append, h, Option.bind_some, runs_cons, hl, Option.bind_some,
    runs_nil]

/-- What one step preserves, a run preserves. -/
theorem runs_inv {Inv : S → Prop} (hstep : ∀ s l s', Inv s → step s l = some s' → Inv s') :
    ∀ {ls : List L} {s s' : S}, runs step s ls = some s' → Inv s → Inv s' := by
  intro ls
  induction ls with
  | nil =>
    intro s s' h hi
    cases h
    exact hi
  | cons l ls ih =>
    intro s s' h hi
    obtain ⟨mid, hl, hrest⟩ := runs_cons_some h
    exact ih hrest (hstep s l mid hi hl)

/-- The same for the labels that occur in the run. -/
theorem runs_inv_mem {Inv : S → Prop}
    (hstep : ∀ l ∈ ls, ∀ s s', Inv s → step s l = some s' → Inv s') (h : runs step s ls = some s')
    (hi : Inv s) : Inv s' := by
  induction ls generalizing s with
  | nil =>
    cases h
    exact hi
  | cons l ls ih =>
    obtain ⟨mid, hl, hrest⟩ := runs_cons_some h
    exact ih (fun l' hl' => hstep l' (List.mem_cons_of_mem _ hl')) hrest
      (hstep l List.mem_cons_self s mid hi hl)

/-- The same for a property that survives only the steps meeting `ok`. -/
theorem runs_inv_of_ok {Inv : S → Prop}
    (hstep : ∀ s l s', Inv s → ok s l → step s l = some s' → Inv s') :
    ∀ {ls : List L} {s s' : S}, StepsOk step ok s ls →
      runs step s ls = some s' → Inv s → Inv s' := by
  intro ls
  induction ls with
  | nil =>
    intro s s' _ h hi
    cases h
    exact hi
  | cons l ls ih =>
    intro s s' hok h hi
    obtain ⟨mid, hl, hrest⟩ := runs_cons_some h
    exact ih (hok.2 mid hl) hrest (hstep s l mid hi hok.1 hl)

/-- The side condition of an appended schedule. -/
theorem stepsOk_append {ls₁ ls₂ : List L} :
    StepsOk step ok s (ls₁ ++ ls₂) ↔
      StepsOk step ok s ls₁ ∧
        ∀ mid, runs step s ls₁ = some mid → StepsOk step ok mid ls₂ := by
  induction ls₁ generalizing s with
  | nil => simp [StepsOk, runs]
  | cons l ls ih =>
    constructor
    · rintro ⟨hok, hrest⟩
      refine ⟨⟨hok, fun s' hs' => (ih.mp (hrest s' hs')).1⟩, ?_⟩
      intro mid hmid
      obtain ⟨s', hs', hrun⟩ := runs_cons_some hmid
      exact (ih.mp (hrest s' hs')).2 mid hrun
    · rintro ⟨⟨hok, hrest⟩, htail⟩
      refine ⟨hok, fun s' hs' => ih.mpr ⟨hrest s' hs', fun mid hmid => ?_⟩⟩
      apply htail mid
      rw [runs_cons, hs']
      exact hmid

theorem StepsOk.and {ok' : S → L → Prop} (h : StepsOk step ok s ls) (h' : StepsOk step ok' s ls) :
    StepsOk step (fun s l => ok s l ∧ ok' s l) s ls := by
  induction ls generalizing s with
  | nil => trivial
  | cons l ls ih =>
    exact ⟨⟨h.1, h'.1⟩, fun s' hs => ih (h.2 s' hs) (h'.2 s' hs)⟩

/-- Where a party is after one of them has moved. -/
theorem moved_cases {ι : Type u} {α : Type v} [DecidableEq ι] {f g : ι → α} {i j : ι} {x y : α}
    (h : g j = y) (hg : g = update f i x) : j = i ∧ x = y ∨ j ≠ i ∧ f j = y := by
  rw [hg] at h
  by_cases hj : j = i
  · rw [hj, update_self] at h
    exact .inl ⟨hj, h⟩
  · rw [update_of_ne hj] at h
    exact .inr ⟨hj, h⟩

/-- Some state that a run passes, from its `n`th step on, has the property. -/
def Passes (step : S → L → Option S) (s : S) (ls : List L) (n : Nat) (φ : S → Prop) : Prop :=
  ∃ ls' s', ls' <+: ls ∧ n ≤ ls'.length ∧ runs step s ls' = some s' ∧ φ s'

theorem Passes.snoc {n : Nat} {φ : S → Prop} (h : Passes step s ls n φ) (l : L) :
    Passes step s (ls ++ [l]) n φ := by
  obtain ⟨ls', s', hls', hrest⟩ := h
  exact ⟨ls', s', hls'.trans (List.prefix_append ls [l]), hrest⟩

theorem Passes.imp {n : Nat} {φ ψ : S → Prop} (h : Passes step s ls n φ) (himp : ∀ s', φ s' → ψ s') :
    Passes step s ls n ψ := by
  obtain ⟨ls', s', hls', hn, hrun, hs'⟩ := h
  exact ⟨ls', s', hls', hn, hrun, himp s' hs'⟩

theorem passes_last {n : Nat} {φ : S → Prop} (h : runs step s ls = some s')
    (hn : n ≤ ls.length) (hs' : φ s') : Passes step s ls n φ :=
  ⟨ls, s', List.prefix_refl ls, hn, h, hs'⟩

/-- An invariant that speaks about the schedule so far. -/
theorem runs_trace_inv {Inv : List L → S → Prop} {s₀ : S} (hinit : Inv [] s₀)
    (hstep : ∀ ls s l s', runs step s₀ ls = some s → Inv ls s → ok s l → step s l = some s' →
      Inv (ls ++ [l]) s') :
    ∀ {ls s}, StepsOk step ok s₀ ls → runs step s₀ ls = some s → Inv ls s := by
  intro ls
  induction ls using List.reverseRecOn with
  | nil =>
    intro s _ h
    cases h
    exact hinit
  | append_singleton ls l ih =>
    intro s hok h
    obtain ⟨hokLs, hokLast⟩ := stepsOk_append.mp hok
    rw [runs_append] at h
    obtain ⟨mid, hmid, hlast⟩ := Option.bind_eq_some_iff.mp h
    obtain ⟨s', hl, hnil⟩ := runs_cons_some hlast
    cases hnil
    exact hstep ls mid l s hmid (ih hokLs hmid) (hokLast mid hmid).1 hl

/-- A side condition that every state meets. -/
theorem stepsOk_of_forall (h : ∀ l ∈ ls, ∀ s, ok s l) : StepsOk step ok s ls := by
  induction ls generalizing s with
  | nil => trivial
  | cons l ls ih =>
    exact ⟨h l List.mem_cons_self s, fun _ _ =>
      ih fun l' hl' => h l' (List.mem_cons_of_mem _ hl')⟩

/-- A schedule whose side condition a program can test. -/
def stepsCheck (step : S → L → Option S) (okB : S → L → Bool) :
    S → List L → Bool
  | _, [] => true
  | s, l :: ls =>
    okB s l &&
      match step s l with
      | none => true
      | some s' => stepsCheck step okB s' ls

/-- A test that is sound under an invariant establishes the side condition of
a whole schedule. -/
theorem stepsOk_of_check {okB : S → L → Bool} {Inv : S → Prop}
    (hsound : ∀ s l, Inv s → okB s l = true → ok s l)
    (hstep : ∀ s l s', Inv s → okB s l = true → step s l = some s' → Inv s') :
    ∀ {ls : List L} {s : S}, Inv s → stepsCheck step okB s ls = true →
      StepsOk step ok s ls := by
  intro ls
  induction ls with
  | nil =>
    intro s _ _
    trivial
  | cons l ls ih =>
    intro s hi h
    simp only [stepsCheck, Bool.and_eq_true] at h
    refine ⟨hsound s l hi h.1, fun s' hs => ?_⟩
    have htail := h.2
    rw [hs] at htail
    exact ih (hstep s l s' hi h.1 hs) htail

theorem stepsOk_of_sound {okB : S → L → Bool} (hsound : ∀ s l, okB s l = true → ok s l)
    (h : stepsCheck step okB s ls = true) : StepsOk step ok s ls := by
  let whole : S → Prop := fun _ => True
  have hs : whole s := trivial
  exact stepsOk_of_check (fun s l _ => hsound s l)
    (fun _ _ s' _ _ _ => (trivial : whole s')) hs h

section Evaluate

variable {P : S → Prop} [DecidablePred P]

/-- Whether a run on a fixed schedule ends in such a state is found by running it. -/
instance decidableExistsSome : (o : Option S) → Decidable (∃ s, o = some s ∧ P s)
  | none => .isFalse nofun
  | some s => decidable_of_iff (P s) ⟨fun h => ⟨s, rfl, h⟩, fun ⟨_, hs, h⟩ => Option.some.inj hs ▸ h⟩

instance decidableExistsOk {E : Type v} : (e : Except E S) → Decidable (∃ s, e = .ok s ∧ P s)
  | .error _ => .isFalse nofun
  | .ok s => decidable_of_iff (P s) ⟨fun h => ⟨s, rfl, h⟩, fun ⟨_, hs, h⟩ => Except.ok.inj hs ▸ h⟩

instance decidableForallSome : (o : Option S) → Decidable (∀ s, o = some s → P s)
  | none => .isTrue nofun
  | some s => decidable_of_iff (P s) ⟨fun h _ hs => Option.some.inj hs ▸ h, fun h => h s rfl⟩

instance decidableStepsOk {step : S → L → Option S} {ok : S → L → Prop}
    [∀ s l, Decidable (ok s l)] : (s : S) → (ls : List L) → Decidable (StepsOk step ok s ls)
  | _, [] => .isTrue trivial
  | s, l :: ls =>
    have : DecidablePred (StepsOk step ok · ls) := fun s' => decidableStepsOk s' ls
    inferInstanceAs (Decidable (ok s l ∧ ∀ s', step s l = some s' → StepsOk step ok s' ls))

end Evaluate

end CycloneCache.Lib

import CycloneCache.Ref.GatheredWrites
import CycloneCache.Lib.Tiling

/-!
# A gathered write that returns true has written every byte

What is left of the parts, joined, is always the rest of the joined parts
behind what the log holds: either call consumes as many bytes of that rest as
it wrote, whichever parts they lie in. The first part left is never empty, so
every call asks for something; that is why each call that is not interrupted
shortens the rest or ends the loop.
-/

namespace CycloneCache.Ref.GatheredWrites

open Lib

variable {call : Call} {iov parts : List (List UInt8)} {n offset : Nat} {file : Memory}
  {s s' : State} {answer : Answer}

/-- The bytes of the writes that took place. -/
def State.written (s : State) : List UInt8 := (s.log.map Prod.snd).flatten

/-! ## Resuming in the middle of a part -/

theorem flatten_advance (n : Nat) (iov : List (List UInt8)) :
    (advance n iov).flatten = iov.flatten.drop n := by
  induction iov generalizing n with
  | nil => simp [advance]
  | cons part iov ih =>
    rw [advance, List.flatten_cons]
    split
    · next h => rw [ih, List.drop_append, List.drop_eq_nil_of_le h, List.nil_append]
    · next h => rw [List.flatten_cons, List.drop_append_of_le_length (by omega)]

theorem flatten_dropWhile (iov : List (List UInt8)) :
    (iov.dropWhile List.isEmpty).flatten = iov.flatten := by
  induction iov with
  | nil => rfl
  | cons part iov ih =>
    cases part with
    | nil => exact ih
    | cons b part => rfl

theorem flatten_trim (h : n ≤ (offered call iov).length) :
    (trim call n iov).flatten = iov.flatten.drop n := by
  cases call with
  | pwritev => exact flatten_advance n iov
  | pwrite =>
    cases iov with
    | nil => simp [trim, nextPart]
    | cons part iov =>
      have hpart : n ≤ part.length := h
      rw [trim, nextPart, flatten_dropWhile, List.flatten_cons, List.flatten_cons,
        List.drop_append_of_le_length hpart]

theorem take_offered (h : n ≤ (offered call iov).length) :
    (offered call iov).take n = iov.flatten.take n := by
  cases call with
  | pwritev => rfl
  | pwrite =>
    cases iov with
    | nil => simp [offered]
    | cons part iov => exact (List.take_append_of_le_length h).symm

/-- The first part left is not empty. -/
def Solid (iov : List (List UInt8)) : Prop := ∀ part rest, iov = part :: rest → part ≠ []

theorem solid_advance (n : Nat) (iov : List (List UInt8)) : Solid (advance n iov) := by
  induction iov generalizing n with
  | nil => nofun
  | cons part iov ih =>
    rw [advance]
    split
    · exact ih _
    · next h =>
      intro p rest heq
      cases heq
      rw [Ne, List.drop_eq_nil_iff]
      omega

theorem solid_dropWhile (iov : List (List UInt8)) : Solid (iov.dropWhile List.isEmpty) := by
  induction iov with
  | nil => nofun
  | cons part iov ih =>
    cases part with
    | nil => exact ih
    | cons b part =>
      intro p rest heq
      cases heq
      exact List.cons_ne_nil b part

theorem solid_trim : Solid (trim call n iov) := by
  cases call with
  | pwritev => exact solid_advance n iov
  | pwrite =>
    cases iov with
    | nil => nofun
    | cons part iov => exact solid_dropWhile _

theorem Solid.offered_ne_nil (h : Solid iov) (hne : iov ≠ []) : offered call iov ≠ [] := by
  cases iov with
  | nil => exact absurd rfl hne
  | cons part rest =>
    have hpart := h part rest rfl
    cases call with
    | pwrite => exact hpart
    | pwritev => simp [offered, hpart]

/-! ## The loop -/

/-- What is known of a call of the function on these parts. -/
structure Inv (parts : List (List UInt8)) (offset : Nat) (file : Memory) (s : State) : Prop where
  rest : s.written ++ s.iov.flatten = parts.flatten
  tiles : Tiles Prod.fst (fun w => w.2.length) offset s.log s.offset
  place : s.offset = offset + s.written.length
  disk : s.file = writeAt file offset s.written
  solid : Solid s.iov
  runs : s.result = none → s.iov ≠ []
  whole : s.result = some true → s.iov = []

theorem finished_ne {iov : List (List UInt8)} (h : finished iov = none) : iov ≠ [] := by
  rintro rfl
  cases h

theorem finished_true {iov : List (List UInt8)} (h : finished iov = some true) : iov = [] := by
  by_contra hne
  rw [finished, if_neg hne] at h
  cases h

theorem inv_start (call : Call) (parts : List (List UInt8)) (offset : Nat) (file : Memory) :
    Inv parts offset file (start call parts offset file) := by
  have hdisk : file = writeAt file offset [] := by
    funext x
    simp [writeAt]
  cases call with
  | pwrite =>
    exact ⟨flatten_dropWhile parts, rfl, rfl, hdisk, solid_dropWhile parts, finished_ne,
      finished_true⟩
  | pwritev =>
    have hflat : ∀ parts : List (List UInt8),
        (parts.filter fun part => !part.isEmpty).flatten = parts.flatten := by
      intro parts
      induction parts with
      | nil => rfl
      | cons part parts ih => cases part <;> simp [ih]
    refine ⟨hflat parts, rfl, rfl, hdisk, ?_, ?_, ?_⟩
    · intro part rest heq
      have hmem : part ∈ parts.filter fun part => !part.isEmpty := by
        rw [show parts.filter (fun part => !part.isEmpty) = _ from heq]
        exact List.mem_cons_self
      simpa using (List.mem_filter.mp hmem).2
    all_goals
      intro h
      simp only [start, pwritevParts] at h ⊢
      split at h
      · cases h
    · exact finished_ne h
    · exact finished_true h

/-- What one call can do. -/
theorem step_cases (h : step call s answer = some s') :
    s.result = none ∧ ((answer = .eintr ∧ s' = s) ∨
      (answer = .error ∧ s' = { s with result := some false }) ∨
      ∃ n, answer = .wrote n ∧ 0 < n ∧ n ≤ (offered call s.iov).length ∧
        s' = { iov := trim call n s.iov, offset := s.offset + n,
               file := writeAt s.file s.offset (s.iov.flatten.take n),
               log := s.log ++ [(s.offset, s.iov.flatten.take n)],
               result := finished (trim call n s.iov) }) := by
  unfold step at h
  split at h
  · cases h
  · next hrunning =>
    refine ⟨Decidable.not_not.mp hrunning, ?_⟩
    cases answer with
    | eintr =>
      cases h
      exact .inl ⟨rfl, rfl⟩
    | error =>
      cases h
      exact .inr (.inl ⟨rfl, rfl⟩)
    | wrote n =>
      dsimp only at h
      split at h <;> cases h
      next hn =>
      rw [take_offered hn.2]
      exact .inr (.inr ⟨n, rfl, hn.1, hn.2, rfl⟩)

theorem length_offered_le (call : Call) (iov : List (List UInt8)) :
    (offered call iov).length ≤ iov.flatten.length := by
  cases call with
  | pwritev => exact le_rfl
  | pwrite => cases iov <;> simp [offered]

theorem Inv.step (hi : Inv parts offset file s) (h : step call s answer = some s') :
    Inv parts offset file s' := by
  obtain ⟨-, ⟨-, rfl⟩ | ⟨-, rfl⟩ | ⟨n, -, -, hn, rfl⟩⟩ := step_cases h
  · exact hi
  · exact { hi with runs := nofun, whole := nofun }
  · have hlen : (s.iov.flatten.take n).length = n := by
      have := length_offered_le call s.iov
      rw [List.length_take]
      omega
    have hwritten : ((s.log ++ [(s.offset, s.iov.flatten.take n)]).map Prod.snd).flatten =
        s.written ++ s.iov.flatten.take n := by
      simp [State.written]
    constructor
    · rw [State.written, hwritten, flatten_trim hn, List.append_assoc, List.take_append_drop]
      exact hi.rest
    · have htiles := hi.tiles.snoc (a := (s.offset, s.iov.flatten.take n)) rfl
      rwa [hlen] at htiles
    · rw [State.written, hwritten, List.length_append, hlen, ← Nat.add_assoc, ← hi.place]
    · rw [State.written, hwritten, ← writeAt_append, ← hi.place, ← hi.disk]
    · exact solid_trim
    · exact finished_ne
    · exact finished_true

/-- What the loop still has to write, nothing once it has returned. -/
def State.left (s : State) : Nat := if s.result = none then s.iov.flatten.length else 0

/-- Every call but an interrupted one spends some of it. -/
theorem left_step (hi : Inv parts offset file s) (h : step call s answer = some s') :
    s'.left + (if answer.final then 1 else 0) ≤ s.left := by
  obtain ⟨hrunning, ⟨rfl, rfl⟩ | ⟨rfl, rfl⟩ | ⟨n, rfl, hpos, hn, rfl⟩⟩ := step_cases h
  · exact le_rfl
  · have hne := List.length_pos_iff.mpr (@Solid.offered_ne_nil call _ hi.solid (hi.runs hrunning))
    have hle := length_offered_le call s.iov
    simp only [State.left, hrunning, if_true, Answer.final, if_neg (show some false ≠ none by nofun)]
    omega
  · have hle := length_offered_le call s.iov
    have hflat := congrArg List.length (flatten_trim hn)
    rw [List.length_drop] at hflat
    simp only [State.left, hrunning, if_true, Answer.final]
    split <;> omega

/-- **A gathered write.** Whatever the system answers, a call that has
returned `true` has written the joined parts and nothing else: its writes lie
one behind the other from the offset on and their bytes are the joined parts,
so that every byte is written once, with its final value. Until it has
returned, it asks for at least one byte, and it makes at most as many calls
that are not interrupted as there are bytes. -/
theorem gathered_write (call : Call) (parts : List (List UInt8)) (offset : Nat) (file : Memory)
    (answers : List Answer) (s : State)
    (h : runs (step call) (start call parts offset file) answers = some s) :
    (s.result = some true →
      (∀ x, s.file x = if offset ≤ x then parts.flatten.getD (x - offset) (file x) else file x) ∧
        (s.log.map Prod.snd).flatten = parts.flatten ∧
        Tiles Prod.fst (fun w => w.2.length) offset s.log (offset + parts.flatten.length)) ∧
      (s.result = none → offered call s.iov ≠ []) ∧
      answers.countP Answer.final ≤ parts.flatten.length := by
  have hinit := inv_start call parts offset file
  have hrun : ∀ {answers s}, Inv parts offset file s → ∀ {s'}, runs (step call) s answers = some s' →
      Inv parts offset file s' ∧ s'.left + answers.countP Answer.final ≤ s.left := by
    intro answers
    induction answers with
    | nil =>
      intro s hi s' h
      cases h
      exact ⟨hi, le_rfl⟩
    | cons a answers ih =>
      intro s hi s' h
      obtain ⟨mid, hstep, hrest⟩ := runs_cons_some h
      obtain ⟨hi', hleft⟩ := ih (hi.step hstep) hrest
      have hspent := left_step hi hstep
      refine ⟨hi', ?_⟩
      rw [List.countP_cons]
      omega
  obtain ⟨hi, hcount⟩ := hrun hinit h
  refine ⟨fun htrue => ?_, fun hnone => hi.solid.offered_ne_nil (hi.runs hnone), ?_⟩
  · have hwritten : s.written = parts.flatten := by
      rw [← hi.rest, hi.whole htrue, List.flatten_nil, List.append_nil]
    refine ⟨fun x => ?_, hwritten, ?_⟩
    · rw [hi.disk, hwritten]
      rfl
    · rw [← hwritten, ← hi.place]
      exact hi.tiles
  · have hstart : (start call parts offset file).left ≤ parts.flatten.length := by
      rw [State.left]
      split
      · rw [← hinit.rest, List.length_append]
        omega
      · exact Nat.zero_le _
    omega

/-- A write that stops inside the first of three parts, one of them empty, and is interrupted once. -/
theorem gathered_write_resumed :
    ∃ s, runs (step .pwritev) (start .pwritev [[1, 2], [], [3]] 10 fun _ => 0)
        [.wrote 1, .eintr, .wrote 2] = some s ∧ (s.log.map Prod.snd).flatten = [1, 2, 3] := by
  obtain ⟨s, hrun, hs⟩ : ∃ s, runs (step .pwritev) (start .pwritev [[1, 2], [], [3]] 10 fun _ => 0)
      [.wrote 1, .eintr, .wrote 2] = some s ∧ s.result = some true := by decide +kernel
  have h := gathered_write .pwritev [[1, 2], [], [3]] 10 (fun _ => 0) _ s hrun
  exact ⟨s, hrun, (h.1 hs).2.1⟩

end CycloneCache.Ref.GatheredWrites

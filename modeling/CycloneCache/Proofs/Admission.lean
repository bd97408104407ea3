import CycloneCache.Proofs.BorrowSafety

namespace CycloneCache.Ref

open Lib

def Exposed (st : Stripe) (gen pass o : Nat) : Prop :=
  pass + 1 < st.passOf gen ∨ (st.passOf gen = pass + 1 ∧ st.chunkOf o < st.frontierOf gen)

theorem admitDocument_some {st : Stripe} {snap : StripeSnapshot} {cls : AdmitClass}
    {o writeSerial threshold : Nat} (hretain : st.retain = true)
    (h : st.admitDocument snap cls o writeSerial = some threshold) :
    cls ≠ .kReject ∧ writeSerial = Stripe.expectedPass cls snap % 2 ^ 32 ∧
      ¬ Exposed st snap.gen (Stripe.expectedPass cls snap) o := by
  obtain ⟨hcls, hstamp, hgen, rfl⟩ := Stripe.admitDocument_eq_some.mp h
  simp only [Stripe.stampAdmits, hretain, Bool.not_true, Bool.false_or, beq_iff_eq] at hstamp
  exact ⟨hcls, hstamp, fun hexp => Nat.not_lt.mpr hgen (Stripe.threshold_lt_iff.mpr hexp)⟩

def WithinStamp (snap : StripeSnapshot) (cls : AdmitClass) (pass : Nat) : Prop :=
  pass < Stripe.expectedPass cls snap + 2 ^ 32 ∧ Stripe.expectedPass cls snap < pass + 2 ^ 32

theorem WithinStamp.eq {snap : StripeSnapshot} {cls : AdmitClass} {pass : Nat}
    (h : WithinStamp snap cls pass) (hstamp : pass % 2 ^ 32 = Stripe.expectedPass cls snap % 2 ^ 32) :
    pass = Stripe.expectedPass cls snap := by
  have hlt := h.1
  have hgt := h.2
  omega

section

variable (st : Stripe) (cfg : LeaseConfig)

def GenLoaded (ls : List StripeAct) (gen : Nat) : Prop :=
  Passes (stripeStep st cfg) (StripeState.fresh st) ls 0 fun s => s.words.gen = gen

def FilledInPass (ls : List StripeAct) (d : Doc) : Prop :=
  Passes (stripeStep st cfg) (StripeState.fresh st) ls 0 fun s =>
    ∃ slot, s.writer = .filling slot ∧ slot.doc = d ∧ st.passOf s.words.gen = d.pass

def ReaderTraced (ls : List StripeAct) : ReaderPc → Prop
  | .snapGen gen => GenLoaded st cfg ls gen
  | .snapped snap => GenLoaded st cfg ls snap.gen
  | .located snap cls b =>
    GenLoaded st cfg ls snap.gen ∧
      st.admitDocument snap cls b.doc.start (b.doc.pass % 2 ^ 32) = some b.threshold
  | .idle | .counted .. | .stamped .. | .intentClear .. | .genOk .. | .valid ..
  | .discarding .. => True

structure Traced (ls : List StripeAct) (s : StripeState) : Prop where
  readers : ∀ r, ReaderTraced st cfg ls (s.readers r)
  docs : ∀ d ∈ s.docs, FilledInPass st cfg ls d

end

section

variable {st : Stripe} {cfg : LeaseConfig} {ls : List StripeAct} {s s' : StripeState}

theorem ReaderTraced.snoc {pc : ReaderPc} (h : ReaderTraced st cfg ls pc) (l : StripeAct) :
    ReaderTraced st cfg (ls ++ [l]) pc := by
  cases pc with
  | snapGen gen | snapped snap => exact Passes.snoc h l
  | located snap cls b => exact ⟨h.1.snoc l, h.2⟩
  | idle | counted | stamped | intentClear | genOk | valid | discarding => trivial

theorem readers_setReader (s : StripeState) (r : Nat) (pc : ReaderPc) :
    (s.setReader r pc).readers r = pc := Function.update_self ..

variable {l : StripeAct}

theorem ReadMove.traced {r : Nat} (hmove : ReadMove st cfg s r s')
    (hrun : runs (stripeStep st cfg) (StripeState.fresh st) ls = some s)
    (h : ReaderTraced st cfg ls (s.readers r)) :
    ReaderTraced st cfg (ls ++ [l]) (s'.readers r) := by
  cases hmove with
  | look hpc =>
    rw [readers_setReader]
    have hload : GenLoaded st cfg ls s.words.gen := passes_last hrun (Nat.zero_le _) rfl
    exact Passes.snoc hload l
  | snap gen hpc =>
    rw [readers_setReader]
    rw [hpc] at h
    exact Passes.snoc h l
  | map snap cls d threshold hpc _ _ _ hadmitted =>
    rw [readers_setReader]
    -- through an entry or over a link, the snapshot is the same
    have hgen : GenLoaded st cfg ls snap.gen := by
      rcases hpc with hpc | ⟨cls', b, hpc⟩
      · rw [hpc] at h
        exact h
      · rw [hpc] at h
        exact h.1
    exact ⟨hgen.snoc l, hadmitted⟩
  | acquire | stamp | clear | genOk | serve | fail | miss =>
    simp only [acquireBorrow, readers_setReader]
    trivial
  | release b tok hpc =>
    rw [readers_setReader]
    trivial

theorem stripeStep_docs (h : stripeStep st cfg s l = some s') :
    s'.docs = s.docs ∨ ∃ slot, s.writer = .filling slot ∧ s'.docs = slot.doc :: s.docs := by
  cases stripeStep_move h with
  | tick | refuse | alloc | fill | abandon => exact .inl rfl
  | writer _ h => exact .inl h.frame.2.2
  | commit slot hpc => exact .inr ⟨slot, hpc, rfl⟩
  | read r act _ h => exact .inl h.frame.docs

theorem Traced.step (hi : Traced st cfg ls s)
    (hrun : runs (stripeStep st cfg) (StripeState.fresh st) ls = some s)
    (h : stripeStep st cfg s l = some s') : Traced st cfg (ls ++ [l]) s' := by
  refine ⟨fun q => ?_, fun d hd => ?_⟩
  · rcases stripeStep_readers h with ⟨r, -, -, hmove⟩ | ⟨hreaders, -⟩
    · by_cases hq : q = r
      · subst hq
        exact hmove.traced hrun (hi.readers q)
      · rw [hmove.pc_other hq]
        exact (hi.readers q).snoc _
    · rw [hreaders]
      exact (hi.readers q).snoc _
  · rcases stripeStep_docs h with hdocs | ⟨slot, hpc, hdocs⟩
    · exact (hi.docs d (hdocs ▸ hd)).snoc _
    · rw [hdocs] at hd
      rcases List.mem_cons.mp hd with rfl | hd
      · -- the slot was granted in the pass the stripe is still in
        have hslot := (log_run (logInv_fresh st) hrun).pcAt hpc
        exact Passes.snoc (passes_last hrun (Nat.zero_le _) ⟨slot, hpc, rfl, hslot.2.pass.symm⟩) _
      · exact (hi.docs d hd).snoc _

theorem traced_run (hrun : runs (stripeStep st cfg) (StripeState.fresh st) ls = some s) :
    Traced st cfg ls s :=
  @runs_trace_inv _ _ (stripeStep st cfg) (fun _ _ => True) (Traced st cfg) (StripeState.fresh st)
    ⟨fun _ => trivial, fun _ hd => absurd hd List.not_mem_nil⟩
    (fun _ _ _ _ hpre hi _ hl => hi.step hpre hl) ls s
    (stepsOk_of_forall fun _ _ _ => trivial) hrun

end

def retainedRun : List StripeAct :=
  .alloc 536 :: List.replicate 12 .writer ++ [.fill 8 544, .commit true] ++
  .alloc 136 :: List.replicate 3 .writer ++ [.fill 544 680, .commit true] ++
  .alloc 480 :: List.replicate 6 .writer ++
  [.read 0 .snapshot, .read 0 .step, .read 0 (.probe ⟨2, 0, 544, 136⟩ false)]

end CycloneCache.Ref

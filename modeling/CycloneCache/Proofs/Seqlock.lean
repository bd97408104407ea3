import CycloneCache.Proofs.BucketLock

namespace CycloneCache.Ref.Seqlock

open Lib Directories Function

section Readers

variable {P : Type} [DecidableEq P] {k : Kind} {start : Start} {s s' : State P} {p : P}

def Sole (s : State P) : Prop :=
  s.recovered = [] → ∀ q token claim, s.pc q = .holding token claim → claim = s.steps

omit [DecidableEq P] in
theorem Counted.holder_unique {n : Nat} (h : Counted n s) {q q' : P} {token token' : BitVec 32}
    {claim : Nat} (hq : s.pc q = .holding token claim) (hq' : s.pc q' = .holding token' claim) :
    q = q' := by
  have heq := List.inj_on_of_nodup_map h.nodup (h.holding _ _ _ hq) (h.holding _ _ _ hq') rfl
  exact congrArg Acquisition.holder heq

variable {n : Nat}

theorem LockMove.sole (hc : Counted n s) (h : Sole s) (hm : LockMove k s p s') : Sole s' := by
  intro hrec q token claim hq
  cases hm with
  | stay pc hpc hok hold hmutex hversion hsteps hacq hrec' =>
    rw [hsteps]
    rw [hrec'] at hrec
    apply h hrec q token
    rcases moved_cases hq hpc with ⟨rfl, rfl⟩ | ⟨-, hq⟩
    · exact hold rfl
    · exact hq
  | claim even hpc hmutex hversion hsteps hacq hrec' =>
    rw [hsteps]
    rw [hrec'] at hrec
    rcases moved_cases hq hpc with ⟨-, hself⟩ | ⟨-, hq⟩
    · cases hself
      rfl
    · -- another holder would have an odd version
      have hcur := h hrec q token claim hq
      have hodd : claim % 2 = 1 := (hc.past _ (hc.holding _ _ _ hq)).2.1
      rw [hc.isOdd_version] at even
      have := of_decide_eq_false even
      omega
  | leave pc odd hpc hok hold hmutex hversion hsteps hacq hrec' =>
    obtain ⟨hsame, hholding⟩ | hmore := hrec'
    · rw [hsame] at hrec
      rcases moved_cases hq hpc with ⟨-, hself⟩ | ⟨hqp, hq⟩
      · rw [hself] at hold
        cases hold
      · cases hp : s.pc p with
        | holding token' claim' =>
          have hcur := h hrec q token claim hq
          have hcur' := h hrec p token' claim' hp
          rw [hcur] at hq
          rw [hcur'] at hp
          exact absurd (hc.holder_unique hq hp) hqp
        | _ =>
          rw [hp] at hholding
          cases hholding
    · rw [hmore] at hrec
      cases hrec

section

variable (hm : LockMove k s p s')
include hm

theorem LockMove.steps_le : s.steps ≤ s'.steps := by
  cases hm with
  | stay _ _ _ _ _ _ hsteps => exact hsteps.ge
  | claim _ _ _ _ hsteps | leave _ _ _ _ _ _ _ hsteps => omega

theorem LockMove.recovered_nil (h : s'.recovered = []) : s.recovered = [] := by
  cases hm with
  | stay _ _ _ _ _ _ _ _ hrec | claim _ _ _ _ _ _ hrec => rw [← hrec, h]
  | leave _ _ _ _ _ _ _ _ _ hrec =>
    obtain ⟨hsame, -⟩ | hmore := hrec
    · rw [← hsame, h]
    · rw [hmore] at h
      cases h

theorem LockMove.pc_of_ne {q : P} (hq : q ≠ p) : s'.pc q = s.pc q := by
  cases hm with
  | stay _ hpc | claim _ hpc | leave _ _ hpc => rw [hpc, update_of_ne hq]

theorem LockMove.bucket_length : s'.bucket.length = s.bucket.length := by
  cases hm with
  | stay _ _ _ _ _ _ _ _ _ hbucket =>
    obtain hsame | ⟨-, hlength⟩ := hbucket
    · rw [hsame]
    · exact hlength
  | claim _ _ _ _ _ _ _ hbucket | leave _ _ _ _ _ _ _ _ _ _ hbucket => rw [hbucket]

end

theorem LockMove.bucket_eq (hc : Counted n s) (hsole : Sole s) (hrec : s.recovered = [])
    (hm : LockMove k s p s') (heven : s.steps % 2 = 0) (hsteps : s'.steps = s.steps) :
    s'.bucket = s.bucket := by
  cases hm with
  | stay _ _ _ _ _ _ _ _ _ hbucket =>
    obtain hsame | ⟨hholding, -⟩ := hbucket
    · exact hsame
    · cases hp : s.pc p with
      | holding token claim =>
        have hodd : claim % 2 = 1 := (hc.past _ (hc.holding _ _ _ hp)).2.1
        have := hsole hrec p token claim hp
        omega
      | _ =>
        rw [hp] at hholding
        cases hholding
  | claim _ _ _ _ hmore | leave _ _ _ _ _ _ _ hmore =>
    exact absurd (hsteps.symm.trans hmore) (by omega)

structure Snapshot (k : Kind) (start : Start) (ls : List (P × Act)) (s : State P) (q : Probe)
    (before : BitVec 32) (n : Nat) (b : Directories.Bucket) : Prop where
  version : before = BitVec.ofNat 32 n
  even : n % 2 = 0
  late : start.version.toNat + 2 * q.startClaims ≤ n
  le : n ≤ s.steps
  slots : b.length = kEntriesPerBucket
  passed : Passes (step k) (.fresh P start) ls q.start fun t =>
    isOdd t.version = false ∧ t.bucket = b
  still : s.steps = n → s.bucket = b

def Handled (q : Probe) (curPhase : Bool) (b : Directories.Bucket) (m : Nat) : Prop :=
  ∀ j < m, q.wants curPhase (b.getD j .cleared) = true → b.getD j .cleared ∈ q.handed

def TookPhase (k : Kind) (start : Start) (ls : List (P × Act)) (q : Probe) (curPhase : Bool) :
    Prop :=
  Passes (step k) (.fresh P start) ls q.start fun t => t.phase = curPhase

def ReadPc.Ok (k : Kind) (start : Start) (ls : List (P × Act)) (s : State P) (q : Probe) :
    ReadPc → Prop
  | .phase | .retry => True
  | .version curPhase => TookPhase k start ls q curPhase
  | .copy curPhase before i words => TookPhase k start ls q curPhase ∧
      ∃ n b, Snapshot k start ls s q before n b ∧ i < kEntriesPerBucket ∧ words.length < 5 ∧
        (s.steps = n → words <+: (b.getD i .cleared).words ∧ Handled q curPhase b i)
  | .check curPhase before i entry => TookPhase k start ls q curPhase ∧
      ∃ n b, Snapshot k start ls s q before n b ∧ i < kEntriesPerBucket ∧
        (s.steps = n → entry = b.getD i .cleared ∧ Handled q curPhase b i)
  | .last before => ∃ curPhase, TookPhase k start ls q curPhase ∧
      ∃ n b, Snapshot k start ls s q before n b ∧
        (s.steps = n → Handled q curPhase b kEntriesPerBucket)

structure CallOk (k : Kind) (start : Start) (ls : List (P × Act)) (s : State P) (q : Probe) :
    Prop where
  begun : q.start ≤ ls.length
  claims : q.startClaims ≤ s.acquisitions.length
  handed : ∀ e ∈ q.handed, Passes (step k) (.fresh P start) ls q.start fun t =>
    isOdd t.version = false ∧ e ∈ t.bucket

def FoundNothing (k : Kind) (start : Start) (ls : List (P × Act)) (q : Probe) : Prop :=
  ∃ curPhase, TookPhase k start ls q curPhase ∧ Passes (step k) (.fresh P start) ls q.start fun t =>
      ∀ e ∈ t.bucket, q.wants curPhase e = false

def Reads (k : Kind) (start : Start) (p : P) (ls : List (P × Act)) (s : State P) : Prop :=
  match s.pc p with
  | .probing q pc => CallOk k start ls s q ∧ pc.Ok k start ls s q
  | .probed q result => CallOk k start ls s q ∧
      (result = true → q.handed = [] → FoundNothing k start ls q)
  | _ => True

variable {b : Directories.Bucket} {before : BitVec 32} {pc : ReadPc}

section Frame

variable {ls : List (P × Act)} {l : P × Act} {q : Probe}

structure QuietStep (k : Kind) (start : Start) (s s' : State P) (l : P × Act) : Prop where
  counted : Counted start.version.toNat s
  sole : Sole s
  recovered : s.recovered = []
  move : LockMove k s l.1 s'

section

variable (hq : QuietStep k start s s' l)
include hq

theorem Snapshot.step (h : Snapshot k start ls s q before n b) :
    Snapshot k start (ls ++ [l]) s' q before n b := by
  have hle := hq.move.steps_le
  refine ⟨h.version, h.even, h.late, h.le.trans hle, h.slots, h.passed.snoc l, fun hn => ?_⟩
  have hs : s.steps = n := by
    have := h.le
    omega
  rw [hq.move.bucket_eq hq.counted hq.sole hq.recovered (hs ▸ h.even) (hn.trans hs.symm)]
  exact h.still hs

theorem Snapshot.unless {φ : Prop} (h : Snapshot k start ls s q before n b) (hφ : s.steps = n → φ) :
    s'.steps = n → φ := by
  intro hn
  have hle := hq.move.steps_le
  have := h.le
  exact hφ (by omega)

theorem ReadPc.Ok.step (h : pc.Ok k start ls s q) : pc.Ok k start (ls ++ [l]) s' q := by
  cases pc with
  | phase | retry => trivial
  | version curPhase => exact h.snoc l
  | copy curPhase before i words =>
    obtain ⟨hphase, n, b, hsnap, hi, hwords, hread⟩ := h
    exact ⟨hphase.snoc l, n, b, hsnap.step hq, hi, hwords, hsnap.unless hq hread⟩
  | check curPhase before i entry =>
    obtain ⟨hphase, n, b, hsnap, hi, hread⟩ := h
    exact ⟨hphase.snoc l, n, b, hsnap.step hq, hi, hsnap.unless hq hread⟩
  | last before =>
    obtain ⟨curPhase, hphase, n, b, hsnap, hread⟩ := h
    exact ⟨curPhase, hphase.snoc l, n, b, hsnap.step hq, hsnap.unless hq hread⟩

theorem CallOk.step (h : CallOk k start ls s q) : CallOk k start (ls ++ [l]) s' q := by
  refine ⟨?_, h.claims.trans ?_, fun e he => (h.handed e he).snoc l⟩
  · rw [List.length_append]
    exact h.begun.trans (Nat.le_add_right ..)
  · cases hq.move with
    | stay _ _ _ _ _ _ _ hacq | leave _ _ _ _ _ _ _ _ hacq => rw [hacq]
    | claim _ _ _ _ _ hacq =>
      rw [hacq, List.length_cons]
      exact Nat.le_succ _

end

theorem FoundNothing.step (h : FoundNothing k start ls q) : FoundNothing k start (ls ++ [l]) q := by
  obtain ⟨curPhase, hphase, hnone⟩ := h
  exact ⟨curPhase, hphase.snoc l, hnone.snoc l⟩

theorem Reads.step (hq : QuietStep k start s s' l) (hpc : s'.pc p = s.pc p)
    (h : Reads k start p ls s) : Reads k start p (ls ++ [l]) s' := by
  unfold Reads at h ⊢
  rw [hpc]
  cases hp : s.pc p with
  | probing q pc =>
    rw [hp] at h
    exact ⟨h.1.step hq, h.2.step hq⟩
  | probed q result =>
    rw [hp] at h
    exact ⟨h.1.step hq, fun hr hnone => (h.2 hr hnone).step⟩
  | _ => trivial

end Frame

inductive ReadMove (s : State P) (q : Probe) : ReadPc → Pc → Prop where
  | phase : ReadMove s q .phase (.probing q (.version s.phase))
  | odd (curPhase : Bool) (h : isOdd s.version = true) :
      ReadMove s q (.version curPhase) (.probing { q with lastVersion := s.version } .retry)
  | even (curPhase : Bool) (h : isOdd s.version = false) : ReadMove s q (.version curPhase)
        (.probing { q with lastVersion := s.version } (.copy curPhase s.version 0 []))
  | copy (curPhase : Bool) (before : BitVec 32) (i : Nat) (words : List (BitVec 16)) :
      ReadMove s q (.copy curPhase before i words)
        (.probing q (scanned q curPhase before i (words ++ [s.word i words.length])))
  | stale (curPhase : Bool) (before : BitVec 32) (i : Nat) (entry : PackedEntry)
      (h : before ≠ s.version) :
      ReadMove s q (.check curPhase before i entry) (.probing q (.last before))
  | hand (curPhase : Bool) (i : Nat) (entry : PackedEntry) :
      ReadMove s q (.check curPhase s.version i entry)
        (.probing { q with handed := q.handed ++ [entry] } (nextEntry curPhase s.version i))
  | stop (curPhase : Bool) (i : Nat) (entry : PackedEntry) :
      ReadMove s q (.check curPhase s.version i entry)
        (.probed { q with handed := q.handed ++ [entry] } true)
  | done : ReadMove s q (.last s.version) (.probed q true)
  | changed (before : BitVec 32) : ReadMove s q (.last before) (.probing q .retry)
  | retry : ReadMove s q .retry (.probing q .phase)
  | giveUp : ReadMove s q .retry (.probed q false)
  | recent : ReadMove s q .retry (.probed { q with recoveryTried := true } false)
  | recover : ReadMove s q .retry (.probing { q with recoveryTried := true } .phase)

inductive CallMove (s : State P) (p : P) (pc : Pc) : Prop where
  | same (h : pc = s.pc p)
  | none (hprobing : ∀ q pc', pc ≠ .probing q pc') (hprobed : ∀ q result, pc ≠ .probed q result)
  | start (tag : Nat) (filterPhase : Bool) (h : pc = .probing
      ⟨tag, filterPhase, 0, false, [], s.clock, s.acquisitions.length⟩ .phase)
  | read (q : Probe) (pc' : ReadPc) (h : s.pc p = .probing q pc') (hm : ReadMove s q pc' pc)

theorem goto_pc (pc : Pc) : (s.goto p pc).pc p = pc := update_self ..

theorem probeRead_readMove {q : Probe} (hs : probeRead s p q pc = some s') :
    ReadMove s q pc (s'.pc p) := by
  cases pc with
  | phase =>
    cases hs
    rw [goto_pc]
    exact .phase
  | version curPhase =>
    cases hs
    rw [goto_pc]
    cases hodd : isOdd s.version with
    | false => exact .even curPhase hodd
    | true => exact .odd curPhase hodd
  | copy curPhase before i words =>
    cases hs
    rw [goto_pc]
    exact .copy ..
  | last before =>
    cases hs
    rw [goto_pc]
    split
    · next heq => exact heq ▸ .done
    · exact .changed before
  | check | retry => cases hs

theorem probeRecheck_readMove (q : Probe) (curPhase : Bool) (before : BitVec 32) (i : Nat)
    (entry : PackedEntry) (more : Bool) :
    ReadMove s q (.check curPhase before i entry)
      ((probeRecheck s p q curPhase before i entry more).pc p) := by
  unfold probeRecheck
  split
  · next hne =>
    rw [goto_pc]
    exact .stale curPhase before i entry hne
  · next heq =>
    obtain rfl := not_not.mp heq
    split <;> rw [goto_pc]
    · exact .hand ..
    · exact .stop ..

theorem probeRecover_readMove {q : Probe} {old : Bool} (hs : probeRecover s p q old = some s') :
    ReadMove s q .retry (s'.pc p) := by
  unfold probeRecover at hs
  split at hs
  · cases hs
  · split at hs
    · cases hs
      rw [goto_pc]
      exact .recent
    · split at hs <;> cases hs
      · show ReadMove s q .retry ((s.goto p _).pc p)
        rw [goto_pc]
        exact .recover
      · rw [goto_pc]
        exact .recover

theorem CallMove.goto {pc : Pc} (hprobing : ∀ q pc', pc ≠ .probing q pc' := by simp)
    (hprobed : ∀ q result, pc ≠ .probed q result := by simp) :
    CallMove s p ((s.goto p pc).pc p) := by
  rw [goto_pc]
  exact .none hprobing hprobed

theorem move_callMove {a : Act} (hs : move k s p a = some s') : CallMove s p (s'.pc p) := by
  cases a with simp only [move] at hs
  | acquire | load =>
    split at hs <;> cases hs
    split <;> exact .goto
  | wait | expire | finish | beginBucketWrite | endBucketWrite | die =>
    split at hs <;> cases hs
    exact .goto
  | giveUp =>
    split at hs <;> cases hs
    · exact .goto
    · next q hq =>
      rw [goto_pc]
      exact .read q .retry hq .giveUp
  | cas spurious =>
    split at hs
    · unfold writerCas at hs
      split at hs <;> cases hs <;> (split <;> exact .goto)
    · cases hs
  | write i j w =>
    split at hs <;> cases hs
    exact .same rfl
  | release =>
    split at hs <;> cases hs
    unfold releaseWriter
    split <;> exact .goto
  | probe tag filterPhase =>
    split at hs <;> cases hs
    rw [goto_pc]
    exact .start tag filterPhase rfl
  | read =>
    split at hs
    · next q pc hq => exact .read q pc hq (probeRead_readMove hs)
    · cases hs
  | recheck more =>
    split at hs <;> cases hs
    next hq =>
    exact .read _ _ hq (probeRecheck_readMove ..)
  | retry =>
    split at hs <;> cases hs
    next q hq =>
    rw [goto_pc]
    exact .read q .retry hq .retry
  | recover old =>
    split at hs
    · next q hq => exact .read q .retry hq (probeRecover_readMove hs)
    · cases hs
  | togglePhase =>
    cases hs
    exact .same rfl

section Own

variable {ls : List (P × Act)} {l : P × Act} {q : Probe}

theorem Snapshot.steps_eq (h : Snapshot k start ls s q s.version n b)
    (hc : Counted start.version.toNat s) (hfew : s.acquisitions.length < q.startClaims + 2 ^ 31) :
    s.steps = n := by
  have hversion := h.version
  rw [hc.version] at hversion
  have hcount := hc.count
  have hlate := h.late
  exact (ofNat_eq_of_near hversion.symm h.le (by omega)).symm

variable {curPhase : Bool}

theorem nextEntry_ok {i : Nat} (hphase : TookPhase k start ls q curPhase)
    (h : Snapshot k start ls s q before n b) (hi : i < kEntriesPerBucket)
    (hread : s.steps = n → Handled q curPhase b (i + 1)) :
    (nextEntry curPhase before i).Ok k start ls s q := by
  unfold nextEntry
  split
  · next hnext =>
    exact ⟨hphase, n, b, h, hnext, by decide, fun hn => ⟨List.nil_prefix, hread hn⟩⟩
  · next hend =>
    have hall : i + 1 = kEntriesPerBucket := by omega
    exact ⟨curPhase, hphase, n, b, h, hall ▸ hread⟩

theorem Handled.succ {i : Nat} (h : Handled q curPhase b i)
    (hi : q.wants curPhase (b.getD i .cleared) = true → b.getD i .cleared ∈ q.handed) :
    Handled q curPhase b (i + 1) := by
  intro j hj
  obtain hlt | rfl := Nat.lt_succ_iff_lt_or_eq.mp hj
  · exact h j hlt
  · exact hi

theorem ofWords_words (e : PackedEntry) : PackedEntry.ofWords e.words = e := rfl

theorem prefix_words_succ {e : PackedEntry} {words : List (BitVec 16)} (hlt : words.length < 5)
    (h : words <+: e.words) : words ++ [e.words.getD words.length 0] <+: e.words := by
  obtain ⟨rest, hrest⟩ := h
  cases rest with
  | nil =>
    rw [List.append_nil] at hrest
    rw [hrest] at hlt
    exact absurd hlt (by show ¬5 < 5; decide)
  | cons w rest =>
    refine ⟨rest, ?_⟩
    rw [← hrest]
    simp

theorem scanned_ok {i : Nat} {words : List (BitVec 16)}
    (h : (ReadPc.copy curPhase before i words).Ok k start ls s q) :
    (scanned q curPhase before i (words ++ [s.word i words.length])).Ok k start ls s q := by
  obtain ⟨hphase, n, b, hsnap, hi, hwords, hread⟩ := h
  have hnext : s.steps = n → words ++ [s.word i words.length] <+: (b.getD i .cleared).words := by
    intro hn
    rw [State.word, hsnap.still hn]
    exact prefix_words_succ hwords (hread hn).1
  unfold scanned
  split
  · next hmore => exact ⟨hphase, n, b, hsnap, hi, hmore, fun hn => ⟨hnext hn, (hread hn).2⟩⟩
  · next hfull =>
    have hentry : s.steps = n →
        PackedEntry.ofWords (words ++ [s.word i words.length]) = b.getD i .cleared := by
      intro hn
      have hlen : (words ++ [s.word i words.length]).length = 5 := by
        have := (hnext hn).length_le
        have hfive : (b.getD i .cleared).words.length = 5 := rfl
        omega
      rw [(hnext hn).eq_of_length hlen, ofWords_words]
    split
    · exact ⟨hphase, n, b, hsnap, hi, fun hn => ⟨hentry hn, (hread hn).2⟩⟩
    · next hunwanted =>
      refine nextEntry_ok hphase hsnap hi fun hn => (hread hn).2.succ fun hw => ?_
      rw [← hentry hn] at hw
      exact absurd hw hunwanted

section

variable (hc : Counted start.version.toNat s)
include hc

theorem begin_ok (hrun : runs (step k) (.fresh P start) ls = some s) (hcall : CallOk k start ls s q)
    (hslots : s.bucket.length = kEntriesPerBucket) (heven : isOdd s.version = false)
    (hphase : TookPhase k start ls q curPhase) :
    (ReadPc.copy curPhase s.version 0 []).Ok k start ls s q := by
  have hparity : s.steps % 2 = 0 := by
    have hodd := heven
    rw [hc.isOdd_version] at hodd
    have := of_decide_eq_false hodd
    omega
  have hcount := hc.count
  have hclaims := hcall.claims
  have hsnap : Snapshot k start ls s q s.version s.steps s.bucket :=
    ⟨hc.version, hparity, by omega, le_refl _, hslots,
      passes_last hrun hcall.begun ⟨heven, rfl⟩, fun _ => rfl⟩
  exact ⟨hphase, s.steps, s.bucket, hsnap, by decide, by decide,
    fun _ => ⟨List.nil_prefix, fun j hj => absurd hj (Nat.not_lt_zero j)⟩⟩

theorem hand_ok {i : Nat} {entry : PackedEntry} (hcall : CallOk k start ls s q)
    (hfew : s.acquisitions.length < q.startClaims + 2 ^ 31)
    (h : (ReadPc.check curPhase s.version i entry).Ok k start ls s q) :
    let q' := { q with handed := q.handed ++ [entry] }
    CallOk k start ls s q' ∧ (nextEntry curPhase s.version i).Ok k start ls s q' := by
  obtain ⟨hphase, n, b, hsnap, hi, hread⟩ := h
  have hn := hsnap.steps_eq hc hfew
  obtain ⟨hentry, hbefore⟩ := hread hn
  refine ⟨⟨hcall.begun, hcall.claims, fun e he => ?_⟩, ?_⟩
  · obtain he | he := List.mem_append.mp he
    · exact hcall.handed e he
    · cases List.mem_singleton.mp he
      refine hsnap.passed.imp fun t ht => ⟨ht.1, ?_⟩
      rw [ht.2, hentry, List.getD_eq_getElem?_getD, List.getElem?_eq_getElem (hsnap.slots ▸ hi)]
      exact List.getElem_mem _
  · have hsnap' : Snapshot k start ls s { q with handed := q.handed ++ [entry] } s.version n b :=
      ⟨hsnap.1, hsnap.2, hsnap.3, hsnap.4, hsnap.5, hsnap.6, hsnap.7⟩
    refine nextEntry_ok hphase hsnap' hi fun _ => Handled.succ (fun j hj hw => ?_) fun _ => ?_
    · exact List.mem_append_left _ (hbefore j hj hw)
    · rw [← hentry]
      exact List.mem_append_right _ (List.mem_singleton_self _)

theorem done_ok (hfew : s.acquisitions.length < q.startClaims + 2 ^ 31)
    (h : (ReadPc.last s.version).Ok k start ls s q) (hnone : q.handed = []) :
    FoundNothing k start ls q := by
  obtain ⟨curPhase, hphase, n, b, hsnap, hread⟩ := h
  have hall := hread (hsnap.steps_eq hc hfew)
  refine ⟨curPhase, hphase, hsnap.passed.imp fun t ht e he => ?_⟩
  rw [ht.2] at he
  obtain ⟨j, hj, rfl⟩ := List.mem_iff_getElem.mp he
  have hentry : b.getD j .cleared = b[j] := by
    rw [List.getD_eq_getElem?_getD, List.getElem?_eq_getElem hj, Option.getD_some]
  have hhandled := hall j (hsnap.slots ▸ hj)
  rw [hentry, hnone] at hhandled
  exact Bool.eq_false_iff.mpr fun hw => nomatch hhandled hw

end

section

variable (hq : QuietStep k start s s' l)
include hq

theorem Reads.of_probing (hpc : s'.pc p = .probing q pc) (hcall : CallOk k start ls s q)
    (hok : pc.Ok k start ls s q) : Reads k start p (ls ++ [l]) s' := by
  unfold Reads
  rw [hpc]
  exact ⟨hcall.step hq, hok.step hq⟩

theorem Reads.of_probed {result : Bool} (hpc : s'.pc p = .probed q result)
    (hcall : CallOk k start ls s q)
    (hok : result = true → q.handed = [] → FoundNothing k start ls q) :
    Reads k start p (ls ++ [l]) s' := by
  unfold Reads
  rw [hpc]
  exact ⟨hcall.step hq, fun hr hnone => (hok hr hnone).step⟩

theorem Reads.read (hrun : runs (Seqlock.step k) (.fresh P start) ls = some s)
    (hslots : s.bucket.length = kEntriesPerBucket)
    (hfew : s.acquisitions.length < q.startClaims + 2 ^ 31) (hcall : CallOk k start ls s q)
    (hok : pc.Ok k start ls s q) (hm : ReadMove s q pc (s'.pc p)) :
    Reads k start p (ls ++ [l]) s' := by
  generalize hpc : s'.pc p = pc' at hm
  cases hm with
  | phase => exact .of_probing hq hpc hcall (passes_last hrun hcall.begun rfl)
  | odd curPhase h | recover => exact .of_probing hq hpc ⟨hcall.1, hcall.2, hcall.3⟩ trivial
  | even curPhase h =>
    have hcall' : CallOk k start ls s { q with lastVersion := s.version } :=
      ⟨hcall.1, hcall.2, hcall.3⟩
    exact .of_probing hq hpc hcall' (begin_ok hq.counted hrun hcall' hslots h hok)
  | copy curPhase before i words => exact .of_probing hq hpc hcall (scanned_ok hok)
  | stale curPhase before i entry hne =>
    obtain ⟨hphase, n, b, hsnap, -, -⟩ := hok
    refine .of_probing hq hpc hcall ⟨curPhase, hphase, n, b, hsnap, fun hn => ?_⟩
    rw [hsnap.version, ← hn, ← hq.counted.version] at hne
    exact absurd rfl hne
  | hand curPhase i entry =>
    obtain ⟨hcall', hok'⟩ := hand_ok hq.counted hcall hfew hok
    exact .of_probing hq hpc hcall' hok'
  | stop curPhase i entry =>
    obtain ⟨hcall', -⟩ := hand_ok hq.counted hcall hfew hok
    exact .of_probed hq hpc hcall' fun _ hnone => absurd hnone (by simp)
  | done => exact .of_probed hq hpc hcall fun _ => done_ok hq.counted hfew hok
  | changed before | retry => exact .of_probing hq hpc hcall trivial
  | giveUp => exact .of_probed hq hpc hcall nofun
  | recent => exact .of_probed hq hpc ⟨hcall.1, hcall.2, hcall.3⟩ nofun

end

end Own

structure SeqInv (k : Kind) (start : Start) (p : P) (ls : List (P × Act)) (s : State P) : Prop where
  lock : LockInv k start s
  sole : Sole s
  clock : s.clock = ls.length
  slots : s.bucket.length = kEntriesPerBucket
  reads : s.recovered = [] → Reads k start p ls s

theorem seqInv_fresh (k : Kind) (start : Start) (p : P) : SeqInv k start p [] (.fresh P start) where
  lock := lockInv_fresh k start
  sole := nofun
  clock := rfl
  slots := start.slots
  reads := fun _ => trivial

theorem seqInv_step {ls : List (P × Act)} {l : P × Act}
    (hrun : runs (step k) (.fresh P start) ls = some s) (h : SeqInv k start p ls s)
    (hfew : FewBrackets p s l) (hs : step k s l = some s') : SeqInv k start p (ls ++ [l]) s' := by
  have hm := step_lockMove h.lock.ordered hs
  refine ⟨lockInv_step h.lock hs, hm.sole h.lock.counted h.sole, ?_,
    hm.bucket_length.trans h.slots, fun hrec' => ?_⟩
  · obtain ⟨mid, -, rfl⟩ := step_move hs
    rw [List.length_append, List.length_singleton, ← h.clock]
  · have hrec := hm.recovered_nil hrec'
    have hquiet : QuietStep k start s s' l := ⟨h.lock.counted, h.sole, hrec, hm⟩
    have hreads := h.reads hrec
    by_cases hp : p = l.1
    · obtain ⟨mid, hmid, hclock⟩ := step_move hs
      have hpc : s'.pc p = mid.pc p := by rw [hclock]
      rw [← hp] at hmid
      cases move_callMove hmid with
      | same hsame => exact hreads.step hquiet (hpc.trans hsame)
      | none hprobing hprobed =>
        unfold Reads
        rw [hpc]
        split
        · next hcall => exact absurd hcall (hprobing _ _)
        · next hcall => exact absurd hcall (hprobed _ _)
        · trivial
      | start tag filterPhase hcall =>
        refine .of_probing hquiet (hpc.trans hcall) ⟨?_, le_refl _, nofun⟩ trivial
        exact h.clock.le
      | read q pc hcall hmove =>
        unfold Reads at hreads
        rw [hcall] at hreads
        exact .read hquiet hrun h.slots (hfew q pc hcall) hreads.1 hreads.2 (hpc ▸ hmove)
    · exact hreads.step hquiet (hm.pc_of_ne hp)

/-- Seqlock reads are consistent, in either directory. Whatever a probe hands to
its callback was in the bucket at an instant of the call when the version was
even. A probe that returns true and handed over nothing saw a bucket, at an
instant of the call, without an entry of the tag. If it filters by phase this
means the entries of the phase it found current. -/
theorem probe_consistent {ls : List (P × Act)} {q : Probe} {result : Option Bool}
    (h : runs (step k) (.fresh P start) ls = some s) (hrec : s.recovered = [])
    (hfew : StepsOk (step k) (FewBrackets p) (.fresh P start) ls)
    (hcall : s.callOf p = some (q, result)) :
    (∀ e ∈ q.handed, Passes (step k) (.fresh P start) ls q.start fun t =>
      isOdd t.version = false ∧ e ∈ t.bucket) ∧
    (result = some true → q.handed = [] → ∃ curPhase,
      (Passes (step k) (.fresh P start) ls q.start fun t => t.phase = curPhase) ∧
      Passes (step k) (.fresh P start) ls q.start fun t => ∀ e ∈ t.bucket,
        e.isEmpty = true ∨ e.tag ≠ q.tag ∨ (q.filterPhase = true ∧ e.phase ≠ curPhase)) := by
  have hinv : SeqInv k start p ls s := runs_trace_inv (seqInv_fresh k start p)
    (fun ls s l s' hrun hi hok hs => seqInv_step hrun hi hok hs) hfew h
  have hreads := hinv.reads hrec
  unfold Reads at hreads
  unfold State.callOf at hcall
  split at hcall
  · next hpc =>
    rw [hpc] at hreads
    cases hcall
    exact ⟨hreads.1.handed, nofun⟩
  · next hpc =>
    rw [hpc] at hreads
    cases hcall
    refine ⟨hreads.1.handed, fun hr hnone => ?_⟩
    obtain ⟨curPhase, hphase, habsent⟩ := hreads.2 (Option.some.inj hr) hnone
    refine ⟨curPhase, hphase, habsent.imp fun t ht e he => ?_⟩
    have := ht e he
    simp only [Probe.wants, Bool.and_eq_false_iff, Bool.not_eq_false', beq_eq_false_iff_ne,
      Bool.and_eq_true, bne_iff_ne] at this
    tauto
  · cases hcall

theorem fewBrackets_of_lt {ls : List (P × Act)}
    (h : stepsCheck (step k) (fun s _ => s.acquisitions.length < 2 ^ 31) (.fresh P start) ls = true) :
    StepsOk (step k) (FewBrackets p) (.fresh P start) ls :=
  stepsOk_of_sound (fun _ _ hlt _ _ _ => (of_decide_eq_true hlt).trans_le (Nat.le_add_left ..)) h

end Readers

def entryFive : PackedEntry := ⟨8, 0, 5, 0, 0⟩

def interrupted : List (Fin 2 × Act) :=
  let w : Fin 2 := ⟨0, Nat.two_pos⟩
  let r : Fin 2 := ⟨1, Nat.one_lt_two⟩
  [(r, .probe 5 false), (r, .read), (r, .read), (r, .read), (w, .acquire), (w, .cas false),
    (w, .write 0 0 8), (w, .write 0 2 5), (r, .read), (r, .read), (r, .read), (r, .read),
    (w, .release)] ++ List.replicate 15 (r, .read) ++ [(r, .read), (r, .retry), (r, .read),
    (r, .read)] ++ List.replicate 5 (r, .read) ++ [(r, .recheck true)] ++
    List.replicate 16 (r, .read)

theorem probe_consistent_interrupted :
    ∃ s q, runs (step .mmap) (.fresh (Fin 2) emptyBucket) interrupted = some s ∧
      s.callOf 1 = some (q, some true) ∧ q.handed = [entryFive] ∧
      Passes (step .mmap) (.fresh (Fin 2) emptyBucket) interrupted q.start fun t =>
        isOdd t.version = false ∧ entryFive ∈ t.bucket := by
  obtain ⟨s, hrun, hrec, ⟨q, _⟩, hq, rfl, hhanded⟩ : ∃ s, runs (step .mmap)
      (.fresh (Fin 2) emptyBucket) interrupted = some s ∧ s.recovered = [] ∧
      ∃ c, s.callOf 1 = some c ∧ c.2 = some true ∧ c.1.handed = [entryFive] := by decide +kernel
  have hfew : StepsOk (step .mmap) (FewBrackets 1) (.fresh (Fin 2) emptyBucket) interrupted :=
    fewBrackets_of_lt (by decide +kernel)
  refine ⟨s, q, hrun, hq, hhanded, (probe_consistent hrun hrec hfew hq).1 entryFive ?_⟩
  rw [hhanded]
  exact List.mem_singleton_self _

def holdsFive : Start := ⟨0, emptyBucket.even, [entryFive, .cleared, .cleared, .cleared], rfl⟩

def filtered : List (Unit × Act) :=
  [((), .togglePhase), ((), .probe 5 true)] ++ List.replicate 23 ((), .read)

/-- The filter skips an entry of the tag that is there all the time. -/
theorem filtered_probe_skips :
    ∃ s q, runs (step .mmap) (.fresh Unit holdsFive) filtered = some s ∧ s.recovered = [] ∧
      StepsOk (step .mmap) (FewBrackets ()) (.fresh Unit holdsFive) filtered ∧
      s.callOf () = some (q, some true) ∧ q.handed = [] ∧
      ¬Passes (step .mmap) (.fresh Unit holdsFive) filtered q.start fun t =>
        ∀ e ∈ t.bucket, e.isEmpty = true ∨ e.tag ≠ q.tag := by
  obtain ⟨s, hrun, hrec, ⟨q, _⟩, hq, rfl, hhanded, htag⟩ : ∃ s, runs (step .mmap)
      (.fresh Unit holdsFive) filtered = some s ∧ s.recovered = [] ∧
      ∃ c, s.callOf () = some c ∧ c.2 = some true ∧ c.1.handed = [] ∧ c.1.tag = 5 := by
    decide +kernel
  have hstays : filtered.inits.all (fun ls =>
      (runs (step .mmap) (.fresh Unit holdsFive) ls).all fun t =>
        decide (entryFive ∈ t.bucket)) = true := by decide +kernel
  refine ⟨s, q, hrun, hrec, fewBrackets_of_lt (by decide +kernel), hq, hhanded, ?_⟩
  rintro ⟨ls, t, hls, -, ht, hnone⟩
  have hmem := List.all_eq_true.mp hstays ls ((List.mem_inits ls filtered).mpr hls)
  rw [ht] at hmem
  have hfive := hnone entryFive (of_decide_eq_true hmem)
  rw [htag] at hfive
  exact absurd hfive (by decide)

end CycloneCache.Ref.Seqlock

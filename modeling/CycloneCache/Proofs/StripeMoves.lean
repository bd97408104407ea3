import CycloneCache.Ref.StripeRun
import CycloneCache.Proofs.StripeGeometry

namespace CycloneCache.Ref

def Fits (st : Stripe) (cursor gen len : Nat) : Stage → Prop
  | .mandatory => st.retain = true ∧ cursor + roundUp8 len ≤ st.size
  | .early => st.retain = true ∧ cursor + roundUp8 len ≤ st.frontierRelOf (st.frontierOf gen)
  | .reserve =>
    cursor + roundUp8 len ≤ st.size ∧ (st.retain = true →
        cursor + roundUp8 len ≤ st.frontierRelOf (st.frontierOf gen))

structure GateOk (st : Stripe) (w : Words) (g : Gate) : Prop where
  pass : g.pass = st.passOf w.gen
  hi : g.hi ≤ st.chunks
  flush : g.kind = .flushWrap → st.retain = false ∧ g.lo = 0 ∧ g.hi = st.chunks ∧
      st.dataStart + roundUp8 g.len ≤ st.size
  advance : g.kind ≠ .flushWrap → st.retain = true ∧ g.lo = st.frontierOf w.gen ∧ g.lo < g.hi
  mandatory : g.kind = .mandatory → w.cursor + roundUp8 g.len ≤ st.frontierRelOf g.hi
  early : g.kind = .early → w.cursor + roundUp8 g.len ≤ st.frontierRelOf g.lo

def ReaderPc.held : ReaderPc → Option (Borrow × BorrowToken)
  | .counted b tok | .stamped b tok | .intentClear b tok | .genOk b tok
  | .valid b tok | .discarding b tok => some (b, tok)
  | .idle | .snapGen _ | .snapped _ | .located .. => none

def ClassOk (st : Stripe) (snap : StripeSnapshot) (o : Nat) : AdmitClass → Prop
  | .kReject => False
  | .kCurrent => o < snap.cursorRel
  | .kRetained => st.retain = true ∧ 0 < snap.pass

variable {s s' : StripeState} {st : Stripe} {g : Gate} {len r : Nat} {cfg : LeaseConfig}
  {cls : AdmitClass} {snap : StripeSnapshot} {d : Doc}

def gateForces (cfg : LeaseConfig) (s : StripeState) (g : Gate) (expiry sum : Nat) : Bool :=
  leaseActive cfg expiry s.now && sum ≠ 0 && g.kind ≠ .early && ceilingReached cfg s

/-- What one access of the writer does. `ask` and `skip` are the two ways an
advance of `retention_prepare` goes on. -/
inductive WriterMove (st : Stripe) (cfg : LeaseConfig) (s : StripeState) : StripeState → Prop where
  | raise (g : Gate) (hpc : s.writer = .raise g) :
      WriterMove st cfg s { s.store (.intent kIntentStep) [] with writer := .gateExpiry g }
  | expiry (g : Gate) (hpc : s.writer = .gateExpiry g) :
      WriterMove st cfg s { s with writer := .gateCounts g s.expiry (gateSlots cfg g) 0 }
  | count (g : Gate) (expiry sh c sum : Nat) (todo : List (Nat × Nat))
      (hpc : s.writer = .gateCounts g expiry ((sh, c) :: todo) sum) :
      WriterMove st cfg s
        { s with writer := .gateCounts g expiry todo (sum + (s.slots sh c).count) }
  | counted (g : Gate) (expiry sum : Nat) (hpc : s.writer = .gateCounts g expiry [] sum) :
      WriterMove st cfg s { s with writer := .gateClock g expiry sum }
  | pass (g : Gate) (expiry sum : Nat) (slots : Nat → Nat → BorrowSlot)
      (hpc : s.writer = .gateClock g expiry sum)
      (hwhy : gateForces cfg s g expiry sum = false →
        slots = s.slots ∧ (leaseActive cfg expiry s.now = false ∨ sum = 0)) :
      WriterMove st cfg s { s with deferredSince := 0, slots := slots, writer := gatePassed st g }
  | defer (g : Gate) (expiry sum since : Nat) (hpc : s.writer = .gateClock g expiry sum) :
      WriterMove st cfg s { s with deferredSince := since, writer := .lower g }
  | lower (g : Gate) (hpc : s.writer = .lower g) :
      WriterMove st cfg s { s.store (.intent 0) [] with writer := gateDeferred g }
  | store (len : Nat) (w : Store) (todo : List Store) (next : Stage)
      (hpc : s.writer = .stores len (w :: todo) next) :
      WriterMove st cfg s { s.store w todo with writer := .stores len todo next }
  | stored (len : Nat) (next : Stage) (hpc : s.writer = .stores len [] next) :
      WriterMove st cfg s { s with writer := .stage len next }
  | ask (g : Gate) (stage : Stage) (hpc : s.writer = .stage g.len stage)
      (hk : g.kind ≠ .flushWrap) (hpass : g.pass = st.passOf s.words.gen) (hhi : g.hi ≤ st.chunks)
      (hgate : Fits st s.words.cursor s.words.gen g.len stage → GateOk st s.words g) :
      WriterMove st cfg s { s with writer := .raise g }
  | skip (len : Nat) (stage next : Stage) (hpc : s.writer = .stage len stage)
      (hfits : Fits st s.words.cursor s.words.gen len stage →
        Fits st s.words.cursor s.words.gen len next) :
      WriterMove st cfg s { s with writer := .stage len next }
  | reserve (len : Nat) (hpc : s.writer = .stage len .reserve) :
      WriterMove st cfg s (reserveSlot st cfg s len)

theorem leaseGate_move {expiry sum : Nat} (hpc : s.writer = .gateClock g expiry sum) :
    WriterMove st cfg s (leaseGate st cfg s g expiry sum) := by
  unfold leaseGate
  split
  · next h => exact .pass g expiry sum _ hpc fun _ => ⟨rfl, by simpa using h⟩
  next h =>
  split
  · exact .defer g expiry sum _ hpc
  next hk =>
  split
  · next hceil =>
    refine .pass g expiry sum _ hpc fun hforce => ?_
    simp only [Bool.or_eq_true, Bool.not_eq_true', decide_eq_true_eq, not_or] at h
    simp only [gateForces, hceil, Bool.and_true] at hforce
    simp [h.1, h.2, hk] at hforce
  · exact .defer g expiry sum _ hpc

theorem advanceFrontier_move {stage next : Stage} (hpc : s.writer = .stage g.len stage)
    (hk : g.kind ≠ .flushWrap) (hpass : g.pass = st.passOf s.words.gen) (hhi : g.hi ≤ st.chunks)
    (hgate : g.lo < g.hi → Fits st s.words.cursor s.words.gen g.len stage → GateOk st s.words g)
    (hskip : g.hi ≤ g.lo → Fits st s.words.cursor s.words.gen g.len stage →
      Fits st s.words.cursor s.words.gen g.len next) :
    WriterMove st cfg s (advanceFrontier s g next) := by
  unfold advanceFrontier
  split
  · next h => exact .skip g.len stage next hpc (hskip h)
  · next h => exact .ask g stage hpc hk hpass hhi (hgate (Nat.lt_of_not_le h))

theorem mandatoryAdvance_move (hpc : s.writer = .stage len .mandatory) :
    WriterMove st cfg s (mandatoryAdvance st s len) := by
  unfold mandatoryAdvance
  simp only []
  split
  · refine advanceFrontier_move hpc (fun h => by cases h) rfl (st.chunkIndexCeil_le _)
      (fun hlt hfits => ?_) (fun hle hfits => ?_)
    · have hceil := Stripe.le_frontierRelOf_ceil hfits.2
      refine ⟨rfl, st.chunkIndexCeil_le _, ?_, ?_, ?_, ?_⟩
      · intro h; cases h
      · intro _; exact ⟨hfits.1, rfl, hlt⟩
      · intro _; exact hceil
      · intro h; cases h
    · have hceil := Stripe.le_frontierRelOf_ceil hfits.2
      exact ⟨hfits.1, Nat.le_trans hceil (Stripe.frontierRelOf_mono hle)⟩
  · next hneed =>
    exact .skip len _ _ hpc fun hfits => ⟨hfits.1, Nat.le_of_not_lt hneed⟩

theorem earlyAdvance_move (hpc : s.writer = .stage len .early) :
    WriterMove st cfg s (earlyAdvance st s len) := by
  have hskip : Fits st s.words.cursor s.words.gen len .early →
      Fits st s.words.cursor s.words.gen len .reserve :=
    fun hfits => ⟨Nat.le_trans hfits.2 (st.frontierRelOf_le_size _), fun _ => hfits.2⟩
  unfold earlyAdvance
  simp only []
  split
  · refine advanceFrontier_move hpc (fun h => by cases h) rfl (st.chunkIndexCeil_le _)
      (fun hlt hfits => ?_) (fun _ => hskip)
    refine ⟨rfl, st.chunkIndexCeil_le _, ?_, ?_, ?_, ?_⟩
    · intro h; cases h
    · intro _; exact ⟨hfits.1, rfl, hlt⟩
    · intro h; cases h
    · intro _; exact hfits.2
  · exact .skip len _ _ hpc hskip

theorem writerStep_move (h : writerStep st cfg s = some s') : WriterMove st cfg s s' := by
  unfold writerStep at h
  split at h <;> (try cases h) <;> rename_i hpc
  case h_1 g => exact .raise g hpc
  case h_2 g => exact .expiry g hpc
  case h_3 g expiry sh c todo sum => exact .count g expiry sh c sum todo hpc
  case h_4 g expiry sum => exact .counted g expiry sum hpc
  case h_5 g expiry sum => exact leaseGate_move hpc
  case h_6 g => exact .lower g hpc
  case h_7 len w todo next => exact .store len w todo next hpc
  case h_8 len next => exact .stored len next hpc
  case h_9 len => exact mandatoryAdvance_move hpc
  case h_10 len => exact earlyAdvance_move hpc
  case h_11 len => exact .reserve len hpc

/-- Where an allocation takes the writer. -/
inductive AllocTo (st : Stripe) (w : Words) (len : Nat) : WriterPc → Prop where
  | wrap (hroom : st.dataStart + roundUp8 len ≤ st.size)
      (hfull : st.size < w.cursor + roundUp8 len) (hretain : st.retain = true) :
      AllocTo st w len (.stores len (st.retentionWrapStores (st.passOf w.gen)) .mandatory)
  | flush (hroom : st.dataStart + roundUp8 len ≤ st.size)
      (hfull : st.size < w.cursor + roundUp8 len) (hflush : st.retain = false) :
      AllocTo st w len (.raise ⟨.flushWrap, len, st.passOf w.gen, 0, st.chunks⟩)
  | here (stage : Stage) (hfits : w.cursor ≤ st.size → Fits st w.cursor w.gen len stage) :
      AllocTo st w len (.stage len stage)

theorem admitPosition_ok {o : Nat} {entryPhase : Bool}
    (h : st.admitPosition o entryPhase snap = cls) (hne : cls ≠ .kReject) :
    ClassOk st snap o cls := by
  cases cls with
  | kReject => exact absurd rfl hne
  | kCurrent => exact (Stripe.admitPosition_kCurrent.mp h).2.2
  | kRetained =>
    obtain ⟨-, -, hretain, hpass, -⟩ := Stripe.admitPosition_kRetained.mp h
    exact ⟨hretain, hpass⟩

theorem admitHop_ok {target source : Nat} {sourceCls : AdmitClass}
    (hsource : ClassOk st snap source sourceCls)
    (h : st.admitHop target source sourceCls snap = cls) (hne : cls ≠ .kReject) :
    ClassOk st snap target cls := by
  cases cls with
  | kReject => exact absurd rfl hne
  | kCurrent => exact (Stripe.admitHop_kCurrent.mp h).2.2.2.2
  | kRetained =>
    rw [(Stripe.admitHop_kRetained.mp h).2.2.2.1] at hsource
    exact hsource

inductive ReadMove (st : Stripe) (cfg : LeaseConfig) (s : StripeState) (r : Nat) :
    StripeState → Prop where
  | look (hpc : s.readers r = .idle) : ReadMove st cfg s r (s.setReader r (.snapGen s.words.gen))
  | snap (gen : Nat) (hpc : s.readers r = .snapGen gen) : ReadMove st cfg s r
        (s.setReader r (.snapped (st.snapshot gen s.words.cursor)))
  /-- A document is mapped through a directory entry or a link. -/
  | map (snap : StripeSnapshot) (cls : AdmitClass) (d : Doc) (threshold : Nat)
      (hpc : s.readers r = .snapped snap ∨ ∃ cls' b, s.readers r = .located snap cls' b)
      (hcls : (∀ cls' b, s.readers r = .located snap cls' b →
        ClassOk st snap b.doc.start cls') → ClassOk st snap d.start cls)
      (hdoc : d ∈ s.docs) (hheader : headerIntact s d = true)
      (hadmitted : st.admitDocument snap cls d.start (d.pass % 2 ^ 32) = some threshold) :
      ReadMove st cfg s r (s.setReader r (.located snap cls ⟨d, threshold⟩))
  | acquire (snap : StripeSnapshot) (cls : AdmitClass) (b : Borrow) (sh : Nat)
      (hpc : s.readers r = .located snap cls b) (hsh : sh < cfg.shards) :
      ReadMove st cfg s r (acquireBorrow st s r sh b)
  | stamp (b : Borrow) (tok : BorrowToken) (expiry : Nat) (hpc : s.readers r = .counted b tok) :
      ReadMove st cfg s r { s.setReader r (.stamped b tok) with expiry := expiry }
  | clear (b : Borrow) (tok : BorrowToken) (hpc : s.readers r = .stamped b tok)
      (hintent : s.words.intent = 0) :
      ReadMove st cfg s r (s.setReader r (.intentClear b tok))
  | genOk (b : Borrow) (tok : BorrowToken) (hpc : s.readers r = .intentClear b tok)
      (hgen : s.words.gen ≤ b.threshold) :
      ReadMove st cfg s r (s.setReader r (.genOk b tok))
  | serve (b : Borrow) (tok : BorrowToken) (hpc : s.readers r = .genOk b tok) : ReadMove st cfg s r
        { s.setReader r (.valid b tok) with served := b :: s.served }
  | fail (b : Borrow) (tok : BorrowToken) (hpc : (s.readers r).held = some (b, tok)) :
      ReadMove st cfg s r (s.setReader r (.discarding b tok))
  | release (b : Borrow) (tok : BorrowToken) (hpc : (s.readers r).held = some (b, tok)) :
      ReadMove st cfg s r ((releaseBorrow s tok).setReader r .idle)
  | miss (hpc : (s.readers r).held = none) : ReadMove st cfg s r (s.setReader r .idle)

theorem mapDocument_move
    (hpc : s.readers r = .snapped snap ∨ ∃ cls' b, s.readers r = .located snap cls' b)
    (hcls : (∀ cls' b, s.readers r = .located snap cls' b →
      ClassOk st snap b.doc.start cls') → cls ≠ .kReject →
      ClassOk st snap d.start cls) (h : mapDocument st s r snap cls d = some s') :
    ReadMove st cfg s r s' := by
  unfold mapDocument at h
  split at h
  · next hd =>
    split at h <;> cases h
    next threshold hadmitted =>
    have hne : cls ≠ .kReject := by
      rintro rfl
      simp [Stripe.admitDocument] at hadmitted
    exact .map snap cls d threshold hpc (fun hl => hcls hl hne) hd.1 hd.2 hadmitted
  · cases h

theorem readStep_move {act : ReadAct} (h : readStep st cfg s r act = some s') :
    ReadMove st cfg s r s' := by
  unfold readStep at h
  split at h
  case h_1 hpc => cases h; exact .look hpc
  case h_2 d entryPhase snap hpc =>
    exact mapDocument_move (.inl hpc) (fun _ hne => admitPosition_ok rfl hne) h
  case h_3 d snap cls b hpc =>
    exact mapDocument_move (.inr ⟨cls, b, hpc⟩)
      (fun hl hne => admitHop_ok (hl cls b hpc) rfl hne) h
  case h_4 sh snap cls b hpc =>
    split at h <;> cases h
    next hsh => exact .acquire snap cls b sh hpc hsh
  case h_5 b tok hpc => cases h; exact .release b tok (by rw [hpc]; rfl)
  case h_6 hpc => cases h; exact .miss (by rw [hpc]; rfl)
  case h_7 hpc => cases h; exact .miss (by rw [hpc]; rfl)
  case h_8 =>
    unfold readerStep at h
    split at h
    case h_1 gen hpc => cases h; exact .snap gen hpc
    case h_2 b tok hpc => cases h; exact .stamp b tok _ hpc
    case h_3 b tok hpc =>
      split at h <;> cases h
      · next hintent => exact .clear b tok hpc hintent
      · exact .fail b tok (by rw [hpc]; rfl)
    case h_4 b tok hpc =>
      split at h <;> cases h
      · next hgen => exact .genOk b tok hpc hgen
      · exact .fail b tok (by rw [hpc]; rfl)
    case h_5 b tok hpc =>
      split at h <;> cases h
      · exact .serve b tok hpc
      · exact .fail b tok (by rw [hpc]; rfl)
    case h_6 b tok hpc => cases h; exact .release b tok (by rw [hpc]; rfl)
    all_goals cases h
  case h_9 => cases h

/-- What one step of the stripe does. -/
inductive StripeMove (st : Stripe) (cfg : LeaseConfig) (s : StripeState) :
    StripeAct → StripeState → Prop where
  | tick (d : Nat) : StripeMove st cfg s (.tick d) { s with now := s.now + d }
  | refuse (len : Nat) : StripeMove st cfg s (.alloc len) s
  | alloc (len : Nat) (pc : WriterPc) (hrest : s.writer = .rest) (hlen : kHeaderSize ≤ len)
      (hto : AllocTo st s.words len pc) : StripeMove st cfg s (.alloc len) { s with writer := pc }
  | writer (s' : StripeState) (h : WriterMove st cfg s s') : StripeMove st cfg s .writer s'
  | fill (slot : WriteSlot) (a b : Nat) (hpc : s.writer = .filling slot)
      (hlo : slot.writeOffset ≤ a) (hhi : b ≤ slot.fillLimit) :
      StripeMove st cfg s (.fill a b) (fillBytes s slot a b)
  | commit (slot : WriteSlot) (hpc : s.writer = .filling slot) (hfilled : filled s slot = true) :
      StripeMove st cfg s (.commit true) (commitWriteSlot s slot true)
  | abandon (slot : WriteSlot) (hpc : s.writer = .filling slot) :
      StripeMove st cfg s (.commit false) (commitWriteSlot s slot false)
  | read (r : Nat) (act : ReadAct) (s' : StripeState) (h : ReadMove st cfg s r s') :
      StripeMove st cfg s (.read r act) s'

theorem allocateWriteSlot_move (hrest : s.writer = .rest) (hlen : kHeaderSize ≤ len) :
    StripeMove st cfg s (.alloc len) (allocateWriteSlot st s len) := by
  have hlt := st.start_lt
  unfold allocateWriteSlot
  simp only []
  split
  · exact .refuse len
  next hfit =>
  have hroom : st.dataStart + roundUp8 len ≤ st.size := by omega
  split
  · next hfull =>
    have hfull' : st.size < s.words.cursor + roundUp8 len := by omega
    split
    · next hretain => exact .alloc len _ hrest hlen (.wrap hroom hfull' hretain)
    · next hflush => exact .alloc len _ hrest hlen (.flush hroom hfull' (by simpa using hflush))
  · split
    · next hretain => exact .alloc len _ hrest hlen (.here _ fun _ => ⟨hretain, by omega⟩)
    · next hflush =>
      exact .alloc len _ hrest hlen (.here _ fun _ => ⟨by omega, fun h => absurd h hflush⟩)

theorem stripeStep_move {l : StripeAct} (h : stripeStep st cfg s l = some s') :
    StripeMove st cfg s l s' := by
  cases l with simp only [stripeStep] at h
  | tick d => cases h; exact .tick d
  | alloc len =>
    split at h <;> cases h
    next hcond => exact allocateWriteSlot_move hcond.1 hcond.2
  | writer => exact .writer s' (writerStep_move h)
  | fill a b =>
    split at h
    · next slot hpc =>
      split at h <;> cases h
      next hrange => exact .fill slot a b hpc hrange.1 hrange.2
    · cases h
  | commit fillOk =>
    split at h
    · next slot hpc =>
      split at h <;> cases h
      next hcond =>
      cases fillOk with
      | true => exact .commit slot hpc (hcond rfl)
      | false => exact .abandon slot hpc
    · cases h
  | read r act => exact .read r act s' (readStep_move h)

structure ReadFrame (s s' : StripeState) : Prop where
  words : s'.words = s.words
  due : s'.due = s.due
  bytes : s'.bytes = s.bytes
  docs : s'.docs = s.docs
  writer : s'.writer = s.writer

theorem releaseBorrow_frame (s : StripeState) (tok : BorrowToken) :
    ReadFrame s (releaseBorrow s tok) := by
  unfold releaseBorrow
  split <;> exact ⟨rfl, rfl, rfl, rfl, rfl⟩

theorem ReadFrame.setReader (h : ReadFrame s s') (r : Nat) (pc : ReaderPc) :
    ReadFrame s (s'.setReader r pc) :=
  ⟨h.words, h.due, h.bytes, h.docs, h.writer⟩

theorem ReadMove.frame (h : ReadMove st cfg s r s') : ReadFrame s s' := by
  cases h with
  | release b tok hpc => exact (releaseBorrow_frame s tok).setReader r _
  | look | snap | map | acquire | stamp | clear | genOk | serve | fail | miss =>
    exact ⟨rfl, rfl, rfl, rfl, rfl⟩

end CycloneCache.Ref

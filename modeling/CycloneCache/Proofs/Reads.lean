import CycloneCache.Proofs.AlternateWrites

namespace CycloneCache.Ref

open Lib

theorem DirEntry.header_le_approxSize (e : DirEntry) : kHeaderSize ≤ e.approxSize := by
  have hblock : kBlockSize ≤ e.approxSize := by
    rw [approxSize, Nat.succ_mul, Nat.add_mul]
    exact le_trans (Nat.le_mul_of_pos_right _ (Nat.two_pow_pos _)) (Nat.le_add_left _ _)
  simp only [kBlockSize] at hblock
  simp only [kHeaderSize]
  omega

namespace Volume

variable {env : Env} {m : Memory} {cls : AdmitClass} {snap : StripeSnapshot} {e : DirEntry}
  {h : ReadHandle} {key : CacheKey} {r : Record} {s : State}

theorem mapDocument_some {rel initialSize size : Nat}
    (h : env.mapDocument m rel initialSize = some size) :
    env.mapRegion rel initialSize = true ∧ env.readerValid m rel initialSize = true := by
  unfold Env.mapDocument at h
  split at h
  · cases h
  · next hlook =>
    simp only [Bool.or_eq_true, Bool.not_eq_true', not_or, Bool.not_eq_false] at hlook
    exact hlook

theorem readCandidate_leads (hserved : env.readCandidate m snap key e cls = .served h) :
    Leads env m snap key e cls ∧ h.placement = some e.offset ∧
      env.mapRegion e.offset e.approxSize = true := by
  unfold Env.readCandidate at hserved
  split at hserved
  · cases hserved
  · next size hmap =>
    simp only [] at hserved
    split at hserved
    · cases hserved
    · next hdoc =>
      rw [not_or, not_or, not_not] at hdoc
      obtain ⟨hkey, -, hbinds⟩ := hdoc
      split at hserved
      · cases hserved
      · next hadm =>
        split at hserved <;> cases hserved
        refine ⟨⟨readerValid_header (mapDocument_some hmap).2, ?_, by simpa using hbinds,
          hkey⟩, rfl, (mapDocument_some hmap).1⟩
        rw [Bool.not_eq_true, Option.isNone_eq_false_iff, Option.isSome_iff_exists] at hadm
        obtain ⟨threshold, hadm⟩ := hadm
        exact (Stripe.admitDocument_eq_some.mp hadm).2.1

theorem readCandidate_intact (hr : RecordOk r) (h : Intact m r) (haligned : r.start % 8 = 0)
    (hin : Record.stop r ≤ env.stripe.size) (hoff : e.offset = r.start)
    (hbinds : e.fillSerial = r.doc.fillSerial)
    (hadm : (env.stripe.admitDocument snap cls r.start r.doc.writeSerial).isSome = true) :
    env.readCandidate m snap r.key e cls = if env.mapRegion r.start e.approxSize then
        .served ⟨some r.start, Document.deserialize m r.start, r.header, r.content⟩
      else .skipped := by
  have hheader := e.header_le_approxSize
  have hfields := h.header.fields
  rw [Env.readCandidate, hoff, mapDocument_intact hr h haligned hin hheader]
  cases hmap : env.mapRegion r.start e.approxSize with
  | false => rfl
  | true =>
    have hkey : (Document.deserialize m r.start).firstKey = r.key.toNat :=
      hfields.2.2.1.trans hr.key
    have hbound : entryBinds e (Document.deserialize m r.start) = true := by
      rw [entryBinds, hfields.2.2.2.1, hbinds]
      exact beq_self_eq_true _
    have hshape : (Document.deserialize m r.start).hasVolumeShape = true :=
      h.header.checks.2.1.trans hr.shape
    have hlen : r.doc.len ≤ max e.approxSize r.doc.len := Nat.le_max_right _ _
    simp only [if_true]
    rw [if_neg (by simp [hkey, hshape, hbound]), hfields.2.2.2.2.1,
      if_neg (by rw [Option.isNone_iff_eq_none]; intro hnone; rw [hnone] at hadm; cases hadm),
      if_neg (by rw [verifyChecksum_intact hr h hlen]; simp), serve_intact hr h hlen]

theorem mem_of_firstServed {cs : List Candidate} {damage : Bool}
    (hserved : firstServed damage cs = .ok h) : .served h ∈ cs := by
  induction cs generalizing damage with
  | nil => cases hserved
  | cons c cs ih =>
    cases c with
    | skipped | damaged => exact List.mem_cons_of_mem _ (ih hserved)
    | served h' =>
      cases hserved
      exact List.mem_cons_self

theorem firstServed_append {pre post : List Candidate} {damage : Bool}
    (hpre : ∀ h', .served h' ∉ pre) : firstServed damage (pre ++ .served h :: post) = .ok h := by
  induction pre generalizing damage with
  | nil => rfl
  | cons c cs ih =>
    have hcs : ∀ h', .served h' ∉ cs := fun h' hm => hpre h' (List.mem_cons_of_mem _ hm)
    cases c with
    | skipped | damaged => exact ih hcs
    | served h' => exact absurd List.mem_cons_self (hpre h')

theorem readDisk_served (hread : env.readDisk s key = .ok h) : ∃ c ∈ env.probe s key,
      env.readCandidate s.bytes (env.snapshot s) key c.1 c.2 = .served h := by
  obtain ⟨c, hc, heq⟩ := List.mem_map.mp (mem_of_firstServed hread)
  exact ⟨c, hc, heq⟩

theorem isHead_leads (h : env.isHead m snap key e cls = true) :
    Leads env m snap key e cls ∧ env.mapRegion e.offset e.approxSize = true := by
  simp only [Env.isHead, Bool.and_eq_true, beq_iff_eq] at h
  obtain ⟨⟨⟨hmap, hkey⟩, hstamp⟩, hbinds⟩ := h
  obtain ⟨size, hsize⟩ := Option.isSome_iff_exists.mp hmap
  exact ⟨⟨readerValid_header (mapDocument_some hsize).2, hstamp, hbinds, hkey⟩,
    (mapDocument_some hsize).1⟩

theorem admitDocument_kept (hcls : cls ≠ .kReject)
    (hpass : r.pass = Stripe.expectedPass cls (env.snapshot s))
    (hstamp : r.doc.writeSerial = r.pass % 2 ^ 32) (hk : Kept env s r) :
    (env.stripe.admitDocument (env.snapshot s) cls r.start r.doc.writeSerial).isSome = true := by
  have hadmits : env.stripe.stampAdmits (env.snapshot s) cls r.doc.writeSerial = true := by
    rw [Stripe.stampAdmits, hstamp, hpass, beq_self_eq_true, Bool.or_true]
  rw [Option.isSome_iff_exists]
  exact ⟨_, Stripe.admitDocument_eq_some.mpr ⟨hcls, hadmits, hpass ▸ hk, rfl⟩⟩

section

variable {env : Env} {s : State} {r : Record} {e : DirEntry}

theorem inDataArea_record (hok : RecordOk r) (hstart : env.stripe.dataStart ≤ r.start)
    (hstop : Record.stop r ≤ env.stripe.size) : env.stripe.inDataArea r.start = true := by
  have hlen := hok.header_le
  simp only [Record.stop, kHeaderSize] at hstop hlen
  rw [Stripe.inDataArea, Bool.and_eq_true, Bool.and_eq_true]
  exact ⟨⟨decide_eq_true hstart, decide_eq_true (by omega)⟩,
    decide_eq_true (by simp only [kHeaderSize]; omega)⟩

theorem admitPosition_current (hok : RecordOk r) (hstart : env.stripe.dataStart ≤ r.start)
    (hstop : Record.stop r ≤ env.stripe.size) (hpass : r.pass = env.stripe.passOf s.gen)
    (hbehind : Record.stop r ≤ s.cursor) :
    env.stripe.admitPosition r.start (phaseOf r.pass) (env.snapshot s) = .kCurrent := by
  have hlen := hok.header_le
  have harea := inDataArea_record hok hstart hstop
  simp only [Record.stop, kHeaderSize] at hstop hlen hbehind
  have hcursor : r.start < (env.snapshot s).cursorRel := by
    show r.start < min s.cursor env.stripe.size
    omega
  have hphase : phaseOf r.pass = (env.snapshot s).phase := by
    rw [hpass]
    rfl
  exact Stripe.admitPosition_kCurrent.mpr ⟨harea, hphase, hcursor⟩

theorem admitted_of_kept (h : LogOk env s) (hr : r ∈ s.laid) (hk : Kept env s r) :
    ∃ cls, env.stripe.admitPosition r.start (phaseOf r.pass) (env.snapshot s) = cls ∧
      cls ≠ .kReject ∧ r.pass = Stripe.expectedPass cls (env.snapshot s) := by
  have hp := h.placed r hr
  rcases h.kept_cases hr hk with hpass | ⟨hretain, hpass, hfront⟩
  · exact ⟨.kCurrent, admitPosition_current hp.ok hp.start_le hp.stop_le hpass
      (hp.behind hpass), by decide, hpass⟩
  · refine ⟨.kRetained, ?_, by decide, ?_⟩
    · have harea := inDataArea_record hp.ok hp.start_le hp.stop_le
      have hphase : phaseOf r.pass ≠ (env.snapshot s).phase := by
        show phaseOf r.pass ≠ phaseOf (env.stripe.passOf s.gen)
        rw [← hpass, ne_eq, phaseOf_eq]
        omega
      have hpos : (env.snapshot s).pass > 0 := by
        show env.stripe.passOf s.gen > 0
        omega
      have hrel : (env.snapshot s).frontierRel = _ := env.stripe.snapshot_frontierRel s.gen s.cursor
      exact Stripe.admitPosition_kRetained.mpr ⟨harea, hphase, hretain, hpos, by omega⟩
    · show r.pass = env.stripe.passOf s.gen - 1
      omega

theorem leads_of_kept (h : LogOk env s) (hr : r ∈ s.laid) (hk : Kept env s r)
    (hentry : EntryOf e r) (hoff : r.start = e.offset) (hmem : e ∈ s.bucket r.key) :
    ∃ cls, (e, cls) ∈ env.probe s r.key ∧ r.pass = Stripe.expectedPass cls (env.snapshot s) ∧
      Leads env s.bytes (env.snapshot s) r.key e cls := by
  have hp := h.placed r hr
  have hintact := hp.intact hk
  have hfields := hintact.header.fields
  obtain ⟨cls, hadm, hcls, hpass⟩ := admitted_of_kept h hr hk
  have hne : e.isEmpty = false := by
    have hpos := env.start_pos
    have hstart := hp.start_le
    rw [DirEntry.isEmpty, ← hoff]
    exact beq_false_of_ne (by omega)
  refine ⟨cls, mem_probeEach.mpr ⟨hmem, hne, hentry.tag, ?_, hcls⟩, hpass, ?_⟩
  · rw [← hoff, hentry.phase]
    exact hadm
  · rw [hoff] at hfields
    refine ⟨?_, ?_, ?_, ?_⟩
    · rw [← hoff]
      exact readerValid_intact hp.ok hintact hp.aligned le_rfl
    · rw [hfields.2.2.2.2.1, Stripe.stampAdmits, hp.stamp, hpass, beq_self_eq_true, Bool.or_true]
    · rw [entryBinds, hfields.2.2.2.1, hentry.fillSerial]
      exact beq_self_eq_true _
    · exact hfields.2.2.1.trans hp.ok.key

end

theorem walkAlternates_nodes (h : VolumeOk env s) {fuel current : Nat} {followed : Option Nat}
    (hon : OnLog env s cls current) :
    ∀ n ∈ env.walkAlternates s.bytes (env.snapshot s) key fuel current cls followed,
      OnLog env s cls n.offset ∧ n.offset ≤ current ∧
        n.contentLength = (Document.deserialize s.bytes n.offset).totalLen := by
  induction fuel generalizing current followed with
  | zero => exact fun _ hn => absurd hn List.not_mem_nil
  | succ fuel ih =>
    unfold Env.walkAlternates
    simp only []
    split
    · exact fun _ hn => absurd hn List.not_mem_nil
    · refine List.forall_mem_cons.mpr ⟨⟨hon, le_rfl, rfl⟩, ?_⟩
      split
      · exact fun _ hn => absurd hn List.not_mem_nil
      · next hgo =>
        rw [not_or] at hgo
        obtain ⟨hcls, hnext, hlt⟩ := onLog_hop h hon rfl hgo.2
        rw [hcls]
        intro n hn
        obtain ⟨hon', hle, hlen⟩ := ih hnext n hn
        exact ⟨hon', by omega, hlen⟩

theorem serveAlternate_maps {n : AltInfo} {size : Nat}
    (h : env.serveAlternate m snap key n = .ok size) :
    env.mapRegion n.offset (n.contentLength + kMapOverhead) = true := by
  by_contra hmap
  rw [Bool.not_eq_true] at hmap
  -- Unmapped, the call ends before it looks at the document.
  simp only [Env.serveAlternate, hmap, Bool.not_false, if_true] at h
  split at h <;> cases h

theorem serveAlternate_intact (hr : RecordOk r) (h : Intact m r) (haligned : r.start % 8 = 0)
    (hin : Record.stop r ≤ env.stripe.size) {n : AltInfo} (hoff : n.offset = r.start)
    (hserial : n.fillSerial = r.doc.fillSerial) (hlen : n.contentLength = r.content.length)
    (hadm : (env.stripe.admitDocument snap n.cls r.start r.doc.writeSerial).isSome = true) :
    env.serveAlternate m snap r.key n =
      if env.mapRegion r.start (r.content.length + kMapOverhead) then
        .ok (max (r.content.length + kMapOverhead) r.doc.len)
      else .error .ioError := by
  have hfields := h.header.fields
  have hheader : kHeaderSize ≤ r.content.length + kMapOverhead :=
    le_trans (Nat.le_add_right _ _) (Nat.le_add_left _ _)
  have hsmall : r.doc.len < 256 ^ 4 := hr.inRange (4, r.doc.len) (by simp [Document.fields])
  have hsum := hr.len
  have hmapLen : env.mapRegion r.start r.doc.len = true := by
    have hfile := env.in_file
    simp only [Record.stop] at hin
    simp only [Env.mapRegion, decide_eq_true_eq]
    omega
  have hshape : (Document.deserialize m r.start).hasVolumeShape = true :=
    h.header.checks.2.1.trans hr.shape
  have hkey : (Document.deserialize m r.start).firstKey = r.key.toNat := hfields.2.2.1.trans hr.key
  have hfits : ¬ r.content.length > 2 ^ 64 - 1 - kMapOverhead := by
    have hover : kMapOverhead ≤ 2 ^ 17 := by decide
    omega
  unfold Env.serveAlternate
  simp only [hoff, hlen]
  rw [if_neg hfits]
  generalize r.content.length + kMapOverhead = mapSize at hheader ⊢
  cases hmap : env.mapRegion r.start mapSize with
  | false => rfl
  | true =>
    have hsize : r.doc.len ≤ (if r.doc.len > mapSize then r.doc.len else mapSize) := by
      split <;> omega
    have hmax : (if r.doc.len > mapSize then r.doc.len else mapSize) = max mapSize r.doc.len := by
      split <;> omega
    simp only [Record.stop] at hin
    rw [readerValid_intact hr h haligned hheader, hfields.1, hmapLen, hshape, hkey,
      hfields.2.2.2.1, hserial, hfields.2.2.2.2.1, verifyChecksum_intact hr h hsize,
      if_neg (by simp), if_neg (by simp), if_neg (by omega), if_neg (by simp),
      if_neg (by simp), if_neg (by simp), if_neg (by simp),
      if_neg (by rw [Option.isNone_iff_eq_none]; intro hnone; rw [hnone] at hadm; cases hadm),
      hmax]
    rfl

theorem isHead_intact (hr : RecordOk r) (h : Intact m r) (haligned : r.start % 8 = 0)
    (hin : Record.stop r ≤ env.stripe.size) (hoff : e.offset = r.start)
    (hbinds : e.fillSerial = r.doc.fillSerial)
    (hstamp : env.stripe.stampAdmits snap cls r.doc.writeSerial = true)
    (hmap : env.mapRegion r.start e.approxSize = true) : env.isHead m snap r.key e cls = true := by
  have hfields := h.header.fields
  rw [Env.isHead, hoff, mapDocument_intact hr h haligned hin e.header_le_approxSize, if_pos hmap,
    hfields.2.2.1, hr.key, hfields.2.2.2.2.1, hstamp, entryBinds, hfields.2.2.2.1, hbinds]
  simp

end Volume

end CycloneCache.Ref

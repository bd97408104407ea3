import CycloneCache.Proofs.ChainPlans

namespace CycloneCache.Ref

open Lib

namespace Document

theorem InRange.restamp {d : Document} (h : d.InRange) {fillSerial writeSerial link : Nat}
    (hfill : fillSerial < 2 ^ 16) (hwrite : writeSerial < 2 ^ 32) (hlink : link < 2 ^ 64) :
    InRange { d with
      fillSerial := fillSerial, writeSerial := writeSerial, nextAlternateOffset := link } := by
  simp only [InRange, fields, List.forall_mem_cons] at h ⊢
  obtain ⟨h1, h2, h3, h4, h5, h6, h7, h8, h9, h10, -, -, h13, h14, h15, h16, -, h18, h19, h20,
    hnil⟩ := h
  exact ⟨h1, h2, h3, h4, h5, h6, h7, h8, h9, h10, by omega, by omega, h13, h14, h15, h16,
    by omega, h18, h19, h20, hnil⟩

end Document

namespace Volume

variable {r : Record} {env : Env} {key : CacheKey} {s s' : State} {slot : Slot} {plan : AltPlan}
  {w : AlternateWrite} {pass : Nat} {lockFree : Nat → Bool}

theorem RecordOk.relink (h : RecordOk r) (hfill : r.doc.fillSerial < 2 ^ 16)
    (hwrite : r.doc.writeSerial < 2 ^ 32) {link : Nat} (hlink : link < 2 ^ 64) (start : Nat) :
    RecordOk { r with
      start := start, doc := { r.doc with nextAlternateOffset := link } } :=
  ⟨h.inRange.restamp hfill hwrite hlink, h.valid, h.shape, h.key, h.checksum, h.len, h.headerLen⟩

theorem header_append_content {m : Memory} {rel : Nat} {d : Document}
    (hshape : d.hasVolumeShape = true) :
    headerBytes m rel d.len d ++ contentBytes m rel d.len d = payload m rel d.len d ∧
      (headerBytes m rel d.len d).length = d.headerLen ∧
      kHeaderSize + d.headerLen + (contentBytes m rel d.len d).length = d.len := by
  simp only [Document.hasVolumeShape, Bool.and_eq_true, decide_eq_true_eq] at hshape
  obtain ⟨⟨⟨-, hlen⟩, hheader⟩, -⟩ := hshape
  rw [headerBytes, contentBytes, if_neg (by omega), if_neg (by omega), payload]
  rw [length_readAt, length_readAt, Nat.min_self, Nat.min_self]
  refine ⟨?_, rfl, by omega⟩
  have hsplit := readAt_add m (rel + kHeaderSize) d.headerLen (d.len - (kHeaderSize + d.headerLen))
  rw [show d.headerLen + (d.len - (kHeaderSize + d.headerLen)) = d.len - kHeaderSize by omega,
    Nat.add_assoc rel] at hsplit
  exact hsplit.symm

def copyOf (m : Memory) (key : CacheKey) (slot : Slot) (start below : Nat) (n : AltNode) :
    Record :=
  let d := Document.deserialize m n.node.relOffset
  ⟨key, start, slot.pass,
    { stamped d slot with nextAlternateOffset := Document.makeLink below slot.fillSerial },
    headerBytes m n.node.relOffset n.node.len d, contentBytes m n.node.relOffset n.node.len d⟩

theorem copyOf_ok {n : AltNode} (hcarry : env.carryOk s key n = true)
    (hserial : slot.fillSerial < 2 ^ 16) (start below : Nat) :
    RecordOk (copyOf s.bytes key slot start below n) ∧
      (copyOf s.bytes key slot start below n).doc.len = n.node.len := by
  simp only [Env.carryOk, Bool.and_eq_true, beq_iff_eq] at hcarry
  obtain ⟨⟨⟨⟨⟨⟨⟨⟨⟨-, hvalid⟩, hshape⟩, hlen⟩, -⟩, -⟩, -⟩, hkey⟩, hsum⟩, -⟩ := hcarry
  have hparts := @header_append_content s.bytes n.node.relOffset _ hshape
  rw [hlen] at hparts
  obtain ⟨happend, hheader, hcontent⟩ := hparts
  refine ⟨⟨?_, hvalid, hshape, hkey, ?_, ?_, hheader.symm⟩, hlen⟩
  · exact (Document.deserialize_inRange _ _).restamp hserial (Nat.mod_lt _ (by decide))
      (makeLink_lt _ _)
  · show Document.verifyChecksum _ (headerBytes _ _ _ _ ++ contentBytes _ _ _ _) = true
    rw [happend]
    exact hsum
  · show (Document.deserialize s.bytes n.node.relOffset).len =
      kHeaderSize + (headerBytes _ _ _ _).length + (contentBytes _ _ _ _).length
    rw [hlen, hheader]
    exact hcontent.symm

theorem length_paddedImage (h : RecordOk r) : (paddedImage r).length = roundUp8 r.doc.len := by
  have hle := le_roundUp8 (Record.image r).length
  simp only [paddedImage, List.length_append, List.length_replicate]
  rw [← h.length_image]
  omega

structure Copies (slot : Slot) (start below : Nat) (ns : List AltNode) (rs : List Record) :
    Prop where
  ok : ∀ r ∈ rs, RecordOk r
  pass : ∀ r ∈ rs, r.pass = slot.pass ∧ r.doc.writeSerial = r.pass % 2 ^ 32
  within : ∀ r ∈ rs, start ≤ r.start ∧ Record.stop r ≤ start + carriedBytes ns ∧
    r.start % 8 = start % 8
  apart : ∀ r ∈ rs, ∀ r' ∈ rs, r = r' ∨ Apart r r'
  link : ∀ r ∈ rs, ∃ q, r.doc.nextAlternateOffset = Document.makeLink q slot.fillSerial ∧
    (q = below ∨ ∃ r' ∈ rs, r'.start = q)
  length : (rs.map paddedImage).flatten.length = carriedBytes ns
  holds : ∀ m, Holds m start (rs.map paddedImage).flatten →
    ∀ r ∈ rs, Holds m r.start (Record.image r)

theorem Copies.cons {start below : Nat} {n : AltNode} {ns : List AltNode} {c : Record}
    {rs : List Record} (hok : RecordOk c) (hstart : c.start = start) (hpass : c.pass = slot.pass)
    (hstamp : c.doc.writeSerial = c.pass % 2 ^ 32)
    (hlink : c.doc.nextAlternateOffset = Document.makeLink below slot.fillSerial)
    (hlen : c.doc.len = n.node.len) (h : Copies slot (start + roundUp8 n.node.len) start ns rs) :
    Copies slot start below (n :: ns) (c :: rs) := by
  have hle := le_roundUp8 n.node.len
  have hmod := roundUp8_mod n.node.len
  have hbytes : carriedBytes (n :: ns) = roundUp8 n.node.len + carriedBytes ns := rfl
  have hstop : Record.stop c = start + n.node.len := by rw [Record.stop, hstart, hlen]
  have hapart : ∀ r ∈ rs, Apart c r := by
    intro r hr
    have := (h.within r hr).1
    exact .inl (by omega)
  have hpadded : (paddedImage c).length = roundUp8 n.node.len := by
    rw [length_paddedImage hok, hlen]
  refine ⟨List.forall_mem_cons.mpr ⟨hok, h.ok⟩,
    List.forall_mem_cons.mpr ⟨⟨hpass, hstamp⟩, h.pass⟩, ?_, ?_, ?_, ?_, ?_⟩
  · refine List.forall_mem_cons.mpr ⟨⟨Nat.le_of_eq hstart.symm, by omega, by rw [hstart]⟩, ?_⟩
    intro r hr
    obtain ⟨hlow, hhigh, halign⟩ := h.within r hr
    exact ⟨by omega, by omega, by omega⟩
  · intro r hr r' hr'
    rcases List.mem_cons.mp hr with hrc | hrs <;> rcases List.mem_cons.mp hr' with hrc' | hrs'
    · exact .inl (hrc.trans hrc'.symm)
    · exact .inr (hrc ▸ hapart r' hrs')
    · exact .inr (hrc' ▸ hapart r hrs).symm
    · exact h.apart r hrs r' hrs'
  · refine List.forall_mem_cons.mpr ⟨⟨below, hlink, .inl rfl⟩, ?_⟩
    intro r hr
    obtain ⟨q, hq, rfl | ⟨r', hr', hstart'⟩⟩ := h.link r hr
    · exact ⟨q, hq, .inr ⟨c, List.mem_cons_self, hstart⟩⟩
    · exact ⟨q, hq, .inr ⟨r', List.mem_cons_of_mem _ hr', hstart'⟩⟩
  · rw [List.map_cons, List.flatten_cons, List.length_append, hpadded, h.length, hbytes]
  · intro m hm
    rw [List.map_cons, List.flatten_cons, holds_append, hpadded] at hm
    have hc := hm.1
    rw [paddedImage, holds_append, ← hstart] at hc
    exact List.forall_mem_cons.mpr ⟨hc.1, h.holds m hm.2⟩

theorem copies_ok {ns : List AltNode} (hcarry : ∀ n ∈ ns, env.carryOk s key n = true)
    (hserial : slot.fillSerial < 2 ^ 16) (start below : Nat) :
    Copies slot start below ns (carriedRecords s.bytes key slot start below ns) := by
  induction ns generalizing start below with
  | nil =>
    have hnil : ∀ r, r ∉ carriedRecords s.bytes key slot start below [] := fun _ => List.not_mem_nil
    exact ⟨fun r hr => absurd hr (hnil r), fun r hr => absurd hr (hnil r),
      fun r hr => absurd hr (hnil r), fun r hr => absurd hr (hnil r),
      fun r hr => absurd hr (hnil r), rfl, fun _ _ r hr => absurd hr (hnil r)⟩
  | cons n ns ih =>
    obtain ⟨hok, hlen⟩ := copyOf_ok (hcarry n List.mem_cons_self) hserial start below
    refine Copies.cons hok rfl rfl rfl rfl hlen (ih ?_ _ start)
    exact fun n' hn' => hcarry n' (List.mem_cons_of_mem _ hn')

theorem carriedBytes_mod (ns : List AltNode) : carriedBytes ns % 8 = 0 := by
  induction ns with
  | nil => rfl
  | cons n ns ih =>
    have hmod := roundUp8_mod n.node.len
    have hbytes : carriedBytes (n :: ns) = roundUp8 n.node.len + carriedBytes ns := rfl
    omega

structure RoundFill (env : Env) (s : State) (w : AlternateWrite) (now : Nat) (plan : AltPlan)
    (d : Document) (slot : Slot) (s₁ : State) : Prop where
  planned : env.planAlternate s w (kHeaderSize + w.header.length + w.content.length) = .ok plan
  built : DocumentBuilder.build ⟨w.key, w.header, w.content, w.id, plan.nextLink, now⟩ = some d
  moved : Moved env s s₁
  granted : Granted env s₁ (carriedBytes plan.carried + d.len) slot

structure SlotFill (env : Env) (s : State) (w : AlternateWrite) (now : Nat) (plan : AltPlan)
    (d : Document) (slot : Slot) (s₁ : State) : Prop where
  built : DocumentBuilder.build ⟨w.key, w.header, w.content, w.id, plan.nextLink, now⟩ = some d
  granted : Granted env s₁ (carriedBytes plan.carried + d.len) slot
  laid : ∀ r ∈ s.laid, r ∈ s₁.laid

theorem RoundFill.slotFill {s₁ : State} {now : Nat} {d : Document}
    (h : RoundFill env s w now plan d slot s₁) : SlotFill env s w now plan d slot s₁ := by
  refine ⟨h.built, h.granted, fun r hr => ?_⟩
  rw [h.moved.frame]
  exact hr

def raced (env : Env) (s s₁ : State) (plan : AltPlan) : Bool :=
  Env.wrapRaced plan (env.stripe.passOf s₁.gen != env.stripe.passOf s.gen)

def filledRound (env : Env) (s : State) (w : AlternateWrite) (plan : AltPlan) (d : Document)
    (slot : Slot) (s₁ : State) : State :=
  let rs := Env.slotRecords s.bytes w d slot plan (raced env s s₁ plan)
  { fillSlot s₁ slot (Env.slotImage rs) none with laid := rs.2 :: rs.1 ++ s₁.laid }

theorem round_cases {allowRestart : Bool} {a : Attempt} {out : AltOutcome}
    (h : env.commitAlternateWriteOnce s w allowRestart a = (s', out)) (hc : CursorOk env s) :
    (Moved env s s' ∧ ∀ r, out ≠ .published r) ∨
      ∃ plan d slot s₁, RoundFill env s w a.now plan d slot s₁ ∧
        ((∃ n, s' = fillSlot s₁ slot (Env.slotImage
              (Env.slotRecords s.bytes w d slot plan (raced env s s₁ plan))) (some n) ∧
            ∀ r, out ≠ .published r) ∨
          env.publishAlternate (filledRound env s w plan d slot s₁) w plan
            (Env.slotRecords s.bytes w d slot plan (raced env s s₁ plan)).2
            (if raced env s s₁ plan then [] else plan.repoints) (env.stripe.passOf s.gen)
            a.lockFree = (s', out)) := by
  unfold Env.commitAlternateWriteOnce at h
  simp only [] at h
  split at h
  · cases h
    exact .inl ⟨.refl env s, nofun⟩
  · next plan hplan =>
    split at h
    · cases h
      exact .inl ⟨.refl env s, nofun⟩
    · next d hbuild =>
      cases hslot : env.allocateWriteSlot s (carriedBytes plan.carried + d.len) a.gates with
      | mk s₁ granted =>
        obtain ⟨hmoved, hgrant⟩ := allocateWriteSlot_ok hslot hc
        rw [hslot] at h
        cases granted with
        | error e =>
          cases h
          exact .inl ⟨hmoved, nofun⟩
        | ok slot =>
          simp only [] at h
          split at h
          · cases h
            exact .inl ⟨hmoved, nofun⟩
          · split at h
            · cases h
              exact .inl ⟨hmoved, nofun⟩
            · refine .inr ⟨plan, d, slot, s₁, ⟨hplan, hbuild, hmoved, hgrant slot rfl⟩, ?_⟩
              cases hshort : a.short with rw [hshort] at h
              | some n =>
                cases h
                exact .inl ⟨n, rfl, nofun⟩
              | none =>
                exact .inr h

theorem not_raced {s₁ : State} (h : raced env s s₁ plan = false) :
    plan.carryForward = true ∨ env.stripe.passOf s₁.gen = env.stripe.passOf s.gen := by
  simp only [raced, Env.wrapRaced, Bool.and_eq_false_iff, Bool.not_eq_false',
    Bool.or_eq_false_iff, bne_eq_false_iff_eq] at h
  exact h.imp id And.left

section

variable {env : Env} {s s₁ : State} {w : AlternateWrite} {now : Nat} {plan : AltPlan}
  {d : Document} {slot : Slot}

structure RoundSlot (env : Env) (s : State) (w : AlternateWrite) (plan : AltPlan)
    (d : Document) (slot : Slot) (s₁ : State) : Prop where
  copies : Copies slot slot.writeOffset 0 plan.carried
    (Env.slotRecords s.bytes w d slot plan (raced env s s₁ plan)).1
  head : RecordOk (Env.slotRecords s.bytes w d slot plan (raced env s s₁ plan)).2
  headLen : (Env.slotRecords s.bytes w d slot plan (raced env s s₁ plan)).2.doc.len = d.len
  length : (Env.slotImage (Env.slotRecords s.bytes w d slot plan (raced env s s₁ plan))).length
    ≤ roundUp8 (carriedBytes plan.carried + d.len)

theorem roundSlot_ok (hplan : PlanOk env s w.key plan)
    (hfill : SlotFill env s w now plan d slot s₁) : RoundSlot env s w plan d slot s₁ := by
  have hcopies := copies_ok hplan.carried hfill.granted.serial slot.writeOffset 0
  have hbase := recordOf_ok hfill.built hplan.next.lt hfill.granted.serial
  generalize hraced : raced env s s₁ plan = race
  have hlink : Env.headLink plan slot race
      (carriedRecords s.bytes w.key slot slot.writeOffset 0 plan.carried) < 2 ^ 64 := by
    unfold Env.headLink
    split
    · exact makeLink_lt _ _
    · split
      · exact Nat.two_pow_pos 64
      · exact hplan.next.lt
  have hserial := hfill.granted.serial
  have hhead : RecordOk (Env.slotRecords s.bytes w d slot plan race).2 :=
    hbase.relink hserial (Nat.mod_lt _ (by decide)) hlink _
  refine ⟨hraced ▸ hcopies, hraced ▸ hhead, rfl, ?_⟩
  rw [hraced, Env.slotImage, List.length_append, hhead.length_image]
  show (List.map paddedImage (carriedRecords _ _ _ _ _ _)).flatten.length + d.len ≤ _
  rw [hcopies.length]
  exact le_roundUp8 _

section

variable (h : RoundSlot env s w plan d slot s₁)
include h

theorem RoundSlot.holds :
    let rs := Env.slotRecords s.bytes w d slot plan (raced env s s₁ plan)
    ∀ r ∈ rs.2 :: rs.1,
      Holds (fillSlot s₁ slot (Env.slotImage rs) none).bytes r.start (Record.image r) := by
  intro rs
  refine List.forall_mem_cons.mpr ⟨?_, ?_⟩
  · have hhead := @holds_fill s₁ slot (rs.1.map paddedImage).flatten (Record.image rs.2) []
    rw [List.append_nil, h.copies.length] at hhead
    exact hhead
  · refine h.copies.holds _ ?_
    have hcopies := @holds_fill s₁ slot [] (rs.1.map paddedImage).flatten (Record.image rs.2)
    exact hcopies

theorem RoundSlot.inSlot (hfill : SlotFill env s w now plan d slot s₁) (hc : CursorOk env s₁) :
    let rs := Env.slotRecords s.bytes w d slot plan (raced env s s₁ plan)
    ∀ r ∈ rs.2 :: rs.1, InSlot slot (fillSlot s₁ slot (Env.slotImage rs) none).bytes r := by
  intro rs
  have hholds := List.forall_mem_cons.mp h.holds
  have hmod := carriedBytes_mod plan.carried
  have halign : slot.writeOffset % 8 = 0 := hfill.granted.writeOffset ▸ hc.aligned
  have hround := le_roundUp8 (carriedBytes plan.carried + d.len)
  have hnew : slot.newWritePos = slot.writeOffset +
      roundUp8 (carriedBytes plan.carried + d.len) := by
    rw [hfill.granted.newWritePos, hfill.granted.writeOffset]
  have hstart : rs.2.start = slot.writeOffset + carriedBytes plan.carried := rfl
  refine List.forall_mem_cons.mpr ⟨⟨h.head, by omega, ?_, by omega, rfl, rfl,
    intact_of_holds h.head hholds.1⟩, ?_⟩
  · have hlen : rs.2.doc.len = d.len := h.headLen
    rw [Record.stop]
    omega
  · intro r hr
    obtain ⟨hlow, hhigh, hmod'⟩ := h.copies.within r hr
    exact ⟨h.copies.ok r hr, hlow, by omega, by omega, (h.copies.pass r hr).1,
      (h.copies.pass r hr).2, intact_of_holds (h.copies.ok r hr) (hholds.2 r hr)⟩

theorem RoundSlot.apart :
    let rs := Env.slotRecords s.bytes w d slot plan (raced env s s₁ plan)
    ∀ r ∈ rs.2 :: rs.1, ∀ r' ∈ rs.2 :: rs.1, r = r' ∨ Apart r r' := by
  intro rs
  have hbelow : ∀ r ∈ rs.1, Apart r rs.2 := fun r hr => .inl (h.copies.within r hr).2.1
  intro r hr r' hr'
  rcases List.mem_cons.mp hr with hrh | hrc <;> rcases List.mem_cons.mp hr' with hrh' | hrc'
  · exact .inl (hrh.trans hrh'.symm)
  · exact .inr (hrh ▸ (hbelow r' hrc').symm)
  · exact .inr (hrh' ▸ hbelow r hrc)
  · exact h.copies.apart r hrc r' hrc'

end

theorem RoundSlot.linkNames (hsize : env.stripe.size ≤ 2 ^ 48)
    (hgrant : Granted env s₁ (carriedBytes plan.carried + d.len) slot) {m : Memory}
    {rs : List Record} {q : Record} (hq : q ∈ rs) (hin : InSlot slot m q) :
    LinkNames { s₁ with laid := rs ++ s₁.laid } slot.pass
      (Document.makeLink q.start slot.fillSerial) := by
  refine .inr ⟨q, List.mem_append_left _ hq, hin.pass, ?_⟩
  have hfits := hgrant.room.fits
  have hnew := hgrant.newWritePos
  have hstop := hin.stop_le
  have hlen := hin.ok.header_le
  simp only [Record.stop, kHeaderSize] at hstop hlen
  rw [linkOffset_makeLink (by omega)]

theorem RoundSlot.links (h : RoundSlot env s w plan d slot s₁)
    (hfill : SlotFill env s w now plan d slot s₁) (hc : CursorOk env s₁)
    (hsize : env.stripe.size ≤ 2 ^ 48) (hplan : PlanOk env s w.key plan) :
    let rs := Env.slotRecords s.bytes w d slot plan (raced env s s₁ plan)
    ∀ r ∈ rs.2 :: rs.1, LinkNames { s₁ with laid := (rs.2 :: rs.1) ++ s₁.laid } r.pass
      (Document.deserialize (fillSlot s₁ slot (Env.slotImage rs) none).bytes
        r.start).nextAlternateOffset := by
  intro rs r hr
  have hin := h.inSlot hfill hc
  have hmem : ∀ q ∈ rs.1, q ∈ rs.2 :: rs.1 := fun q hq => List.mem_cons_of_mem _ hq
  rw [deserialize_image (hin r hr).ok (h.holds r hr), (hin r hr).pass]
  rcases List.mem_cons.mp hr with rfl | hrc
  · show LinkNames _ _ (Env.headLink plan slot (raced env s s₁ plan) rs.1)
    unfold Env.headLink
    split
    · next c hlast =>
      have hc := hmem c (List.mem_of_getLast? hlast)
      exact RoundSlot.linkNames hsize hfill.granted hc (hin c hc)
    · split
      · exact .inl rfl
      · next hrace =>
        rcases not_raced (Bool.not_eq_true _ ▸ hrace) with hcarry | hpass
        · rw [(hplan.carry hcarry).1]
          exact .inl rfl
        · rw [hfill.granted.pass, hpass]
          exact hplan.next.names.mono fun q hq => List.mem_append_right _ (hfill.laid q hq)
  · obtain ⟨q, hq, rfl | ⟨r', hr', rfl⟩⟩ := h.copies.link r hrc
    · rw [hq]
      exact .inl rfl
    · rw [hq]
      exact RoundSlot.linkNames hsize hfill.granted (hmem r' hr') (hin r' (hmem r' hr'))

theorem filledRound_ok (h₁ : VolumeOk env s₁) (hsize : env.stripe.size ≤ 2 ^ 48)
    (hplan : PlanOk env s w.key plan) (hfill : SlotFill env s w now plan d slot s₁) :
    VolumeOk env (filledRound env s w plan d slot s₁) := by
  have hslot := roundSlot_ok hplan hfill
  exact h₁.fill hfill.granted hslot.length _ [] (hslot.inSlot hfill h₁.log.cursor)
    hslot.apart (hslot.links hfill h₁.log.cursor hsize hplan) fun _ hr => absurd hr List.not_mem_nil

end

theorem repointChainLink_ok (h : VolumeOk env s) {p : PendingRepoint × Nat}
    (hp : env.stripe.passOf s.gen = pass → RepointOk env s p) (lockFree : Bool) :
    VolumeOk env (env.repointChainLink s key pass p.1 p.2 lockFree) ∧
      (env.repointChainLink s key pass p.1 p.2 lockFree).laid = s.laid ∧
      (env.repointChainLink s key pass p.1 p.2 lockFree).gen = s.gen := by
  unfold Env.repointChainLink
  obtain ⟨lockGen, heq | ⟨heq, hsame⟩⟩ := @commitHeaderRmw_cases env s p.1.predRel key p.1.predId
    pass lockFree fun m => writeAt m (p.1.predRel + Document.kNextAlternateOffsetPos)
      (leBytes 8 p.2)
  · rw [heq]
    exact ⟨h.frame s.versions lockGen s.ram, rfl, rfl⟩
  · obtain ⟨⟨q, hq, hstart, hpass⟩, hlink⟩ := hp hsame
    have hk : Kept env s q := kept_of_current hpass
    rw [heq, ← hstart]
    refine ⟨VolumeOk.frame (h.inPlace hq hk (m := writeAt s.bytes
      (q.start + Document.kNextAlternateOffsetPos) (leBytes 8 p.2)) ?_ ?_) s.versions lockGen
      s.ram, rfl, rfl⟩
    · intro x hx
      simp only [Document.kHitCountOffset, Document.kLastAccessOffset] at hx
      apply writeAt_outside
      simp only [length_leBytes, Document.kNextAlternateOffsetPos]
      omega
    · have hfits : p.2 < 256 ^ 8 := hlink.lt
      rw [nextAlternateOffset_eq, leAt_of_holds (holds_writeAt _ _ _), hpass,
        Nat.mod_eq_of_lt hfits]
      exact hlink.names

theorem splice_ok {ps : List (PendingRepoint × Nat)} {i : Nat} (h : VolumeOk env s)
    (hps : ∀ p ∈ ps, RepointOk env s p) : VolumeOk env (env.splice key pass lockFree i s ps) := by
  induction ps generalizing i s with
  | nil => exact h
  | cons p ps ih =>
    obtain ⟨hok, hlaid, hgen⟩ := @repointChainLink_ok env key s pass h p
      (fun _ => hps p List.mem_cons_self) (lockFree i)
    refine ih hok fun p' hp' => ?_
    obtain ⟨⟨q, hq, hstart, hpass⟩, hlink⟩ := hps p' (List.mem_cons_of_mem _ hp')
    refine ⟨⟨q, hlaid ▸ hq, hstart, hgen ▸ hpass⟩, ?_⟩
    rw [hgen]
    exact hlink.mono fun r hr => hlaid ▸ hr

theorem splice_frame (ps : List (PendingRepoint × Nat)) (i : Nat) (s : State) :
    ∃ lockGen bytes, env.splice key pass lockFree i s ps =
      { s with lockGen := lockGen, bytes := bytes } := by
  induction ps generalizing i s with
  | nil => exact ⟨s.lockGen, s.bytes, rfl⟩
  | cons p ps ih =>
    obtain ⟨lockGen, bytes, hrest⟩ :=
      ih (i + 1) (env.repointChainLink s key pass p.1 p.2 (lockFree i))
    refine ⟨lockGen, bytes, ?_⟩
    rw [Env.splice, hrest, Env.repointChainLink]
    obtain ⟨_, heq | ⟨heq, -⟩⟩ := @commitHeaderRmw_cases env s p.1.predRel key p.1.predId
      pass (lockFree i) fun m =>
        writeAt m (p.1.predRel + Document.kNextAlternateOffsetPos) (leBytes 8 p.2)
    · rw [heq]
    · rw [heq]

theorem publishAlternate_cases {repoints : List (PendingRepoint × Nat)} {out : AltOutcome}
    (h : env.publishAlternate s w plan r repoints pass lockFree = (s', out)) :
    (s' = s ∧ ∀ q, out ≠ .published q) ∨
      (out = .published r ∧ ∃ b slot, Inserted (s.bucket w.key) b (env.publication s r)
          (plan.head.map HeadCandidate.rel) plan.clears slot ∧
        ∃ ram, (∀ c ∈ ram, c ∈ s.ram) ∧ s' = { env.splice w.key pass lockFree 0
          { s.setBucket w.key b with published := r :: s.published } repoints with
            ram := ram } ∧ ∃ lockGen bytes, s' =
          { s.setBucket w.key b with published := r :: s.published, lockGen, bytes, ram }) := by
  unfold Env.publishAlternate at h
  split at h <;> cases h
  · exact .inl ⟨rfl, nofun⟩
  · exact .inl ⟨rfl, nofun⟩
  · next b hinsert =>
    obtain ⟨c, -, hins⟩ := insert_ok hinsert
    obtain ⟨lockGen, bytes, hsplice⟩ := @splice_frame env w.key pass lockFree repoints 0
      { s.setBucket w.key b with published := r :: s.published }
    refine .inr ⟨rfl, b, c.slot, hins, _, ?_, rfl, lockGen, bytes, by rw [hsplice]⟩
    rw [hsplice]
    intro c hc
    split at hc
    · exact hc
    · split at hc <;> exact (List.mem_filter.mp hc).1

section

variable {env : Env} {s : State}

theorem repoints_ok {w : AlternateWrite} {now : Nat} {plan : AltPlan} {d : Document} {slot : Slot}
    {s₁ t : State} (hplan : PlanOk env s w.key plan) (hfill : SlotFill env s w now plan d slot s₁)
    (hgen : t.gen = s₁.gen) (hlaid : ∀ r ∈ s₁.laid, r ∈ t.laid) :
    ∀ p ∈ (if raced env s s₁ plan then [] else plan.repoints), RepointOk env t p := by
  have hsub : ∀ r ∈ s.laid, r ∈ t.laid := fun r hr => hlaid r (hfill.laid r hr)
  intro p hp
  cases hrace : raced env s s₁ plan with
  | true =>
    rw [hrace, if_pos rfl] at hp
    cases hp
  | false =>
    rw [hrace, if_neg Bool.false_ne_true] at hp
    rcases not_raced hrace with hcarry | hpass
    · rw [(hplan.carry hcarry).2] at hp
      cases hp
    · obtain ⟨⟨q, hq, hstart, hqpass⟩, hlink⟩ := hplan.repoints p hp
      rw [← hpass] at hqpass hlink
      refine ⟨⟨q, hsub q hq, hstart, ?_⟩, ?_⟩
      · rw [hgen]
        exact hqpass
      · rw [hgen]
        exact hlink.mono hsub

theorem commitAlternateWriteOnce_ok (h : VolumeOk env s) (hsize : env.stripe.size ≤ 2 ^ 48)
    {w : AlternateWrite} (hno : NoImpostor env s w.key) (allowRestart : Bool) (a : Attempt) :
    VolumeOk env (env.commitAlternateWriteOnce s w allowRestart a).1 := by
  cases hround : env.commitAlternateWriteOnce s w allowRestart a with
  | mk s' out =>
    rcases round_cases hround h.log.cursor with ⟨hmoved, -⟩ | ⟨plan, d, slot, s₁, hfill,
      ⟨n, rfl, -⟩ | hpub⟩
    · exact h.moved hmoved
    · have hplan := planAlternate_ok h hsize hno hfill.planned
      exact (h.moved hfill.moved).fillShort hfill.granted
        (roundSlot_ok hplan hfill.slotFill).length n
    · have hplan := planAlternate_ok h hsize hno hfill.planned
      have hfilled := filledRound_ok (h.moved hfill.moved) hsize hplan hfill.slotFill
      rcases publishAlternate_cases hpub with ⟨rfl, -⟩ | ⟨-, b, idx, hins, ram, -, rfl, -⟩
      · exact hfilled
      · refine VolumeOk.frame (splice_ok ?_ ?_) _ _ ram
        · exact hfilled.publish (List.mem_append_left _ List.mem_cons_self) hins fun _ hq => hq
        · exact repoints_ok hplan hfill.slotFill rfl fun _ hr => List.mem_append_right _ hr

end

theorem updateHitCountSync_frame (env : Env) (s : State) (key : CacheKey)
    (id delta lastAccess : Nat) (lockFree : Bool) :
    ∃ lockGen bytes, env.updateHitCountSync s key id delta lastAccess lockFree =
      { s with lockGen := lockGen, bytes := bytes } := by
  unfold Env.updateHitCountSync
  simp only []
  split
  · exact ⟨s.lockGen, s.bytes, rfl⟩
  · split
    · exact ⟨s.lockGen, s.bytes, rfl⟩
    · next rel _ =>
      obtain ⟨lockGen, heq | ⟨heq, -⟩⟩ := @commitHeaderRmw_cases env s rel key id
        (env.stripe.passOf s.gen) lockFree (Env.storeHit rel delta lastAccess)
      · exact ⟨lockGen, s.bytes, heq⟩
      · exact ⟨lockGen, _, heq⟩

theorem removeSync_frame (env : Env) (s : State) (key : CacheKey) :
    ∃ buckets versions ram, (env.removeSync s key).1 =
      { s with buckets := buckets, versions := versions, ram := ram } := by
  unfold Env.removeSync
  simp only []
  split <;> split <;> exact ⟨_, _, _, rfl⟩

theorem step_cursorOk {op : VolumeOp} (h : CursorOk env s) (hstep : env.step s op = some s') :
    CursorOk env s' := by
  cases op with
  | fill key header content gates short =>
    cases hstep
    cases hfill : env.fillWrite s (plainBuilder key header content) gates short with
    | mk s' res =>
      rcases fillWrite_cases hfill h with ⟨hmoved, -⟩ | ⟨d, slot, s₁, -, hmoved, hg,
        ⟨n, rfl, -⟩ | ⟨rfl, -⟩⟩
      · exact hmoved.cursorOk h
      · exact (hmoved.cursorOk h).frame rfl
      · exact hg.cursorOk (hmoved.cursorOk h) rfl
  | publish i =>
    obtain ⟨r, -, rfl⟩ := Option.map_eq_some_iff.mp hstep
    cases hpub : env.publishWrite s r with
    | mk s' res =>
      rcases publishWrite_cases hpub with ⟨rfl, -⟩ | ⟨-, -, b, slot, -, rfl⟩
      · exact h
      · exact h.frame rfl
  | writeAlternate w allowRestart a =>
    cases hstep
    cases hround : env.commitAlternateWriteOnce s w allowRestart a with
    | mk s' out =>
      rcases round_cases hround h with ⟨hmoved, -⟩ | ⟨plan, d, slot, s₁, hfill, ⟨n, rfl, -⟩ | hpub⟩
      · exact hmoved.cursorOk h
      · exact (hfill.moved.cursorOk h).frame rfl
      · have hfilled : CursorOk env (filledRound env s w plan d slot s₁) :=
          hfill.granted.cursorOk (hfill.moved.cursorOk h) rfl
        rcases publishAlternate_cases hpub with ⟨rfl, -⟩ | ⟨-, b, idx, -, ram, -, -, _, _, rfl⟩
        · exact hfilled
        · exact hfilled.frame rfl
  | remove key =>
    cases hstep
    obtain ⟨_, _, _, hframe⟩ := removeSync_frame env s key
    exact h.frame (by rw [hframe])
  | read key =>
    cases hstep
    obtain ⟨_, hframe⟩ := readSync_frame env s key
    exact h.frame (by rw [hframe])
  | readAlternate key id =>
    cases hstep
    obtain ⟨_, hframe⟩ := readAlternateSync_frame env s key id
    exact h.frame (by rw [hframe])
  | hit key id delta lastAccess lockFree =>
    cases hstep
    obtain ⟨_, _, hframe⟩ := updateHitCountSync_frame env s key id delta lastAccess lockFree
    exact h.frame (by rw [hframe])
  | ramEvict key id =>
    cases hstep
    exact h.frame rfl

theorem cursorOk_fresh (env : Env) (bytes : Memory) : CursorOk env (State.fresh env bytes) :=
  (logOk_fresh env bytes).cursor

def CallOk (env : Env) (s : State) : VolumeOp → Prop
  | .writeAlternate w _ _ => NoImpostor env s w.key ∧ env.stripe.size ≤ 2 ^ 48
  | .hit key _ _ _ _ => NoImpostor env s key
  | _ => True

def VolumeOp.storesAlong : VolumeOp → Bool
  | .writeAlternate .. => true
  | .hit .. => true
  | _ => false

theorem callOk_of_not_storesAlong {op : VolumeOp} (h : op.storesAlong = false) (s : State) :
    CallOk env s op := by
  cases op with
  | writeAlternate | hit => cases h
  | _ => trivial

theorem step_volumeOk (s : State) (op : VolumeOp) (s' : State) (h : VolumeOk env s)
    (hok : CallOk env s op) (hstep : env.step s op = some s') : VolumeOk env s' := by
  cases op with
  | fill key header content gates short =>
    cases hstep
    exact fillWrite_ok h rfl gates short
  | publish i =>
    obtain ⟨r, hr, rfl⟩ := Option.map_eq_some_iff.mp hstep
    exact publishWrite_ok h (List.mem_of_getElem? hr)
  | writeAlternate w allowRestart a =>
    cases hstep
    exact commitAlternateWriteOnce_ok h hok.2 hok.1 allowRestart a
  | remove key =>
    cases hstep
    exact removeSync_ok h key
  | read key =>
    cases hstep
    obtain ⟨ram, hframe⟩ := readSync_frame env s key
    rw [hframe]
    exact h.frame s.versions s.lockGen ram
  | readAlternate key id =>
    cases hstep
    obtain ⟨ram, hframe⟩ := readAlternateSync_frame env s key id
    rw [hframe]
    exact h.frame s.versions s.lockGen ram
  | hit key id delta lastAccess lockFree =>
    cases hstep
    exact updateHitCountSync_ok h hok id delta lastAccess lockFree
  | ramEvict key id =>
    cases hstep
    exact h.frame s.versions s.lockGen _

theorem volumeOk_run {bytes : Memory} {ops : List VolumeOp}
    (hok : StepsOk env.step (CallOk env) (State.fresh env bytes) ops)
    (hrun : runs env.step (State.fresh env bytes) ops = some s) : VolumeOk env s :=
  runs_inv_of_ok step_volumeOk hok hrun (volumeOk_fresh env bytes)

end Volume

end CycloneCache.Ref

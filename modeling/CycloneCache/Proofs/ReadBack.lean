import CycloneCache.Proofs.Authentic

namespace CycloneCache.Ref.Volume

open Lib

variable {env : Env} {s : State}

theorem probe_split {key : CacheKey} {i : Nat} {e : DirEntry} {cls : AdmitClass}
    (hi : (s.bucket key)[i]? = some e)
    (hadm : (e, cls) ∈ probeEach env.stripe [e] key.tag (env.snapshot s)) :
    ∃ pre post, env.probe s key = pre ++ (e, cls) :: post ∧
      ∀ c ∈ pre, c ∈ env.probe s key ∧ ∃ j < i, (s.bucket key)[j]? = some c.1 := by
  obtain ⟨hlt, hget⟩ := List.getElem?_eq_some_iff.mp hi
  have hbucket : s.bucket key = (s.bucket key).take i ++ [e] ++ (s.bucket key).drop (i + 1) := by
    rw [List.append_assoc, ← hget, List.singleton_append, ← List.drop_eq_getElem_cons hlt,
      List.take_append_drop]
  have hone : probeEach env.stripe [e] key.tag (env.snapshot s) = [(e, cls)] := by
    have hlen : (probeEach env.stripe [e] key.tag (env.snapshot s)).length ≤ 1 :=
      List.length_filterMap_le _ _
    match hl : probeEach env.stripe [e] key.tag (env.snapshot s) with
    | [] => rw [hl] at hadm; cases hadm
    | [c] => rw [hl] at hadm; rw [List.mem_singleton.mp hadm]
    | _ :: _ :: _ => rw [hl] at hlen; simp at hlen
  have hsplit : env.probe s key =
      probeEach env.stripe ((s.bucket key).take i) key.tag (env.snapshot s) ++
        (e, cls) :: probeEach env.stripe ((s.bucket key).drop (i + 1)) key.tag
          (env.snapshot s) := by
    rw [Env.probe, hbucket]
    simp only [probeEach, List.filterMap_append]
    rw [← probeEach.eq_def env.stripe [e], hone, List.append_assoc, List.singleton_append,
      ← hbucket]
  refine ⟨_, _, hsplit, ?_⟩
  rintro ⟨e', cls'⟩ hc
  refine ⟨hsplit ▸ List.mem_append_left _ hc, ?_⟩
  obtain ⟨hmem, -⟩ := mem_probeEach.mp hc
  obtain ⟨j, hj⟩ := List.mem_iff_getElem?.mp hmem
  obtain ⟨hjlt, -⟩ := List.getElem?_eq_some_iff.mp hj
  rw [List.length_take] at hjlt
  rw [List.getElem?_take_of_lt (by omega)] at hj
  exact ⟨j, by omega, hj⟩

theorem bucket_setBucket (s : State) (key : CacheKey) (b : Bucket) :
    (s.setBucket key b).bucket key = b := by
  rw [State.bucket, State.setBucket]
  exact Function.update_self ..

structure Landed (env : Env) (s : State) (r : Record) (i : Nat) (e : DirEntry) : Prop where
  ok : RecordOk r
  intact : Intact s.bytes r
  start_le : env.stripe.dataStart ≤ r.start
  stop_le : Record.stop r ≤ env.stripe.size
  aligned : r.start % 8 = 0
  pass : r.pass = env.stripe.passOf s.gen
  stamp : r.doc.writeSerial = r.pass % 2 ^ 32
  behind : Record.stop r ≤ s.cursor
  slot : (s.bucket r.key)[i]? = some e
  entry : EntryOf e r
  others : ∀ j ≠ i, ∀ e', (s.bucket r.key)[j]? = some e' → e'.isEmpty = false →
    e'.tag = r.key.tag → e'.offset ≠ r.start
  ahead : ∀ j < i, ∀ e' cls, (s.bucket r.key)[j]? = some e' → (e', cls) ∈ env.probe s r.key →
    ¬ Leads env s.bytes (env.snapshot s) r.key e' cls

theorem commitWrite_landed {s' : State} {b : DocumentBuilder} {gates : Gates} {short : Option Nat}
    {r : Record} (hc : CursorOk env s) (hnext : b.nextAlternateOffset < 2 ^ 64)
    (h : env.commitWrite s b gates short = (s', .ok r)) :
    (r.key = b.key ∧ r.header = b.header ∧ r.content = b.content ∧
      Document.deserialize s'.bytes r.start = r.doc) ∧ ∃ i e, Landed env s' r i e := by
  unfold Env.commitWrite at h
  cases hfill : env.fillWrite s b gates short with
  | mk t filled =>
    rw [hfill] at h
    rcases fillWrite_cases hfill hc with ⟨-, e, rfl⟩ | ⟨d, slot, s₁, hbuild, hmoved, hg,
      ⟨n, -, rfl⟩ | ⟨ht, rfl, -⟩⟩
    · cases h
    · cases h
    · simp only [] at h
      cases hpub : env.publishWrite t (recordOf b d slot) with
      | mk t' res =>
        rw [hpub] at h
        rcases publishWrite_cases hpub with ⟨-, e, rfl⟩ | ⟨hpass, rfl, bkt, i, hins, ht'⟩
        · cases h
        · cases h
          have hc₁ := hmoved.cursorOk hc
          obtain ⟨hin, -⟩ := recordOf_filled hbuild hg hc₁ hnext
          have hholds : Holds t.bytes slot.writeOffset (Record.image (recordOf b d slot)) := by
            have hfilled := @holds_fill s₁ slot [] (Record.image (recordOf b d slot)) []
            rw [List.nil_append, List.append_nil] at hfilled
            rw [ht]
            exact hfilled
          have hbytes : s'.bytes = t.bytes := by rw [ht']; rfl
          have hsnap : env.snapshot s' = env.snapshot t := by rw [ht']; rfl
          have hbucket : s'.bucket b.key = bkt := by
            rw [ht']
            exact bucket_setBucket t b.key bkt
          have hcursor : s'.cursor = slot.newWritePos := by rw [ht', ht]; rfl
          have hgen : s'.gen = t.gen := by rw [ht']; rfl
          obtain ⟨e, he, hstored⟩ := hins.new
          have hstart := hin.start_le
          have hstop := hin.stop_le
          have hdata := hc₁.start_le
          have hfits := hg.room.fits
          have hwrite := hg.writeOffset
          have hnew := hg.newWritePos
          refine ⟨⟨rfl, rfl, rfl, hbytes ▸ deserialize_image hin.ok hholds⟩, i, e, hin.ok,
            hbytes ▸ intact_of_holds hin.ok hholds, by omega, by omega,
            hin.aligned, hgen ▸ hpass.symm, hin.stamp, hcursor ▸ hstop, hbucket ▸ he,
            entryOf_stored hstored hpass, ?_, ?_⟩
          · intro j hj e' he' hne htag
            exact ((hins.others j hj e' (hbucket ▸ he') hne).2 htag).1
          · -- the election has decided about every entry that leads to the key
            intro j hj e' cls he' hprobe hleads
            obtain ⟨-, hne, htag, hadm, hcls⟩ := mem_probeEach.mp hprobe
            obtain ⟨hold, hkeep⟩ := hins.others j (Nat.ne_of_lt hj) e' (hbucket ▸ he') hne
            rw [hbytes, hsnap] at hleads
            rw [hsnap] at hadm
            have hshown : (e', cls) ∈ env.probe t b.key :=
              mem_probeEach.mpr ⟨List.mem_of_getElem? hold, hne, htag, hadm, hcls⟩
            rcases (elect_ok env t b.key).leads _ hshown hleads with hver | hclear
            · exact hins.first _ hver j hj e' hold ⟨hne, htag, rfl⟩
            · exact (hkeep htag).2 hclear

section

variable {env : Env} {s : State} {r : Record} {i : Nat} {e : DirEntry}

section

variable (h : Landed env s r i e)
include h

theorem Landed.kept : Kept env s r := kept_of_current h.pass

theorem Landed.shown (hwhole : r.start < 2 ^ 40) :
    e.offset = r.start ∧ (e, .kCurrent) ∈ probeEach env.stripe [e] r.key.tag (env.snapshot s) := by
  have hoff : e.offset = r.start := by rw [h.entry.offset, Nat.mod_eq_of_lt hwhole]
  have hpos := env.start_pos
  have hstart := h.start_le
  refine ⟨hoff, mem_probeEach.mpr ⟨List.mem_singleton.mpr rfl, ?_, h.entry.tag, ?_, by decide⟩⟩
  · rw [DirEntry.isEmpty, hoff]
    exact beq_false_of_ne (by omega)
  · rw [hoff, h.entry.phase]
    exact admitPosition_current h.ok h.start_le h.stop_le h.pass h.behind

theorem Landed.of_offset {e' : DirEntry} {cls : AdmitClass} (hc : (e', cls) ∈ env.probe s r.key)
    (hoff : e'.offset = r.start) : e' = e ∧ r.start < 2 ^ 40 := by
  obtain ⟨hmem, hne, htag, -, -⟩ := mem_probeEach.mp hc
  obtain ⟨j, hj⟩ := List.mem_iff_getElem?.mp hmem
  by_cases hji : j = i
  · rw [hji, h.slot] at hj
    cases hj
    have hlt : r.start % 2 ^ 40 < 2 ^ 40 := Nat.mod_lt _ (Nat.two_pow_pos 40)
    rw [← h.entry.offset, hoff] at hlt
    exact ⟨rfl, hlt⟩
  · exact absurd hoff (h.others j hji e' hj hne htag)

theorem Landed.readDisk_iff : env.readDisk s r.key =
        .ok ⟨some r.start, Document.deserialize s.bytes r.start, r.header, r.content⟩ ↔
      r.start < 2 ^ 40 ∧ env.mapRegion r.start (approxSizeOf r.doc.len) = true := by
  constructor
  · intro hread
    obtain ⟨⟨e', cls⟩, hc, hserved⟩ := readDisk_served hread
    obtain ⟨-, hplace, hmap⟩ := readCandidate_leads hserved
    have hoff : e'.offset = r.start := (Option.some.inj hplace).symm
    obtain ⟨rfl, hwhole⟩ := h.of_offset hc hoff
    rw [hoff, h.entry.approxSize] at hmap
    exact ⟨hwhole, hmap⟩
  · rintro ⟨hwhole, hmap⟩
    obtain ⟨hoff, hshown⟩ := h.shown hwhole
    obtain ⟨pre, post, hsplit, hpre⟩ := probe_split h.slot hshown
    have hserved := readCandidate_intact h.ok h.intact h.aligned h.stop_le hoff
      h.entry.fillSerial (@admitDocument_kept env .kCurrent r s (by decide) h.pass h.stamp h.kept)
    rw [h.entry.approxSize, if_pos hmap] at hserved
    rw [Env.readDisk, hsplit, List.map_append, List.map_cons, hserved]
    refine firstServed_append fun h' hmem => ?_
    obtain ⟨⟨e', cls⟩, hc, hserved'⟩ := List.mem_map.mp hmem
    obtain ⟨hprobe, j, hj, he'⟩ := hpre _ hc
    exact h.ahead j hj e' cls he' hprobe (readCandidate_leads hserved').1

end

end

theorem build_fields {b : DocumentBuilder} {d : Document} (h : b.build = some d) :
    d.alternateId = b.alternateId.toNat ∧ d.totalLen = b.content.length := by
  unfold DocumentBuilder.build at h
  split at h <;> cases h
  exact ⟨rfl, rfl⟩

structure Topmost (s : State) (r : Record) : Prop where
  mem : r ∈ s.laid
  near : s.cursor < Record.stop r + 8

theorem round_landed {s' : State} (hv : VolumeOk env s) (hsize : env.stripe.size ≤ 2 ^ 48)
    {w : AlternateWrite} (hno : NoImpostor env s w.key) (hno' : NoImpostor env s' w.key)
    {allowRestart : Bool} {a : Attempt} {r : Record}
    (h : env.commitAlternateWriteOnce s w allowRestart a = (s', .published r)) :
    (r.key = w.key ∧ r.header = w.header ∧ r.content = w.content ∧
      r.doc.alternateId = w.id.toNat ∧ r.doc.totalLen = w.content.length) ∧
      Topmost s' r ∧ ∃ i e, Landed env s' r i e := by
  have hv' : VolumeOk env s' := by
    have hok := commitAlternateWriteOnce_ok hv hsize hno allowRestart a
    rw [h] at hok
    exact hok
  rcases round_cases h hv.log.cursor with ⟨-, hnot⟩ | ⟨plan, d, slot, s₁, hfill,
    ⟨n, -, hnot⟩ | hpub⟩
  · exact absurd rfl (hnot r)
  · exact absurd rfl (hnot r)
  have hplan := planAlternate_ok hv hsize hno hfill.planned
  have hslot := roundSlot_ok hplan hfill.slotFill
  have hc₁ := hfill.moved.cursorOk hv.log.cursor
  rcases publishAlternate_cases hpub with ⟨-, hnot⟩ | ⟨hr, b, i, hins, ram, -, -, _, _, hs'⟩
  · exact absurd rfl (hnot r)
  have hr : r = (Env.slotRecords s.bytes w d slot plan (raced env s s₁ plan)).2 :=
    AltOutcome.published.inj hr
  have hkey : r.key = w.key := by rw [hr]; rfl
  have hmem : r ∈ s'.laid := by
    rw [hs', hr]
    exact List.mem_append_left _ List.mem_cons_self
  have hgen : s'.gen = s₁.gen := by rw [hs']; rfl
  have hcursor : s'.cursor = slot.newWritePos := by rw [hs']; rfl
  have hbucket : s'.bucket r.key = b := by
    rw [hs', hkey]
    exact bucket_setBucket _ w.key b
  have hpass : r.pass = env.stripe.passOf s'.gen := by
    rw [hr, hgen]
    exact hfill.granted.pass
  have hstart : r.start = slot.writeOffset + carriedBytes plan.carried := by rw [hr]; rfl
  have hlen : r.doc.len = d.len := by rw [hr]; rfl
  have hp := hv'.log.placed r hmem
  have hbuilt := build_fields hfill.built
  rw [← hr] at hins
  obtain ⟨e, he, hstored⟩ := hins.new
  refine ⟨⟨hkey, by rw [hr]; rfl, by rw [hr]; rfl, ?_, ?_⟩, ⟨hmem, ?_⟩, i, e, hp.ok,
    hp.intact (kept_of_current hpass), hp.start_le,
    hp.stop_le, hp.aligned, hpass, hp.stamp, hp.behind hpass, hbucket ▸ he, ?_, ?_, ?_⟩
  · rw [hr]
    exact hbuilt.1
  · rw [hr]
    exact hbuilt.2
  · have hnew := hfill.granted.newWritePos
    have hwrite := hfill.granted.writeOffset
    rw [hcursor, Record.stop, hstart, hlen]
    simp only [roundUp8] at hnew
    omega
  · exact entryOf_stored hstored (hpass.trans (by rw [hgen]; rfl)).symm
  · intro j hj e' he' hne htag
    exact ((hins.others j hj e' (hbucket ▸ he') hne).2 htag).1
  · -- an entry that leads to the key now led to it when the head was elected
    intro j hj e' cls he' hprobe hleads
    rw [hkey] at hprobe hleads
    obtain ⟨q, hq, hentry, hqstart, -, hqk⟩ := fresh_record hv' hprobe (hno' _ hprobe hleads)
    obtain ⟨-, hne, htag, -, -⟩ := mem_probeEach.mp hprobe
    obtain ⟨hold, hkeep⟩ := hins.others j (Nat.ne_of_lt hj) e' (hbucket ▸ he') hne
    have holdBucket : e' ∈ s.bucket w.key := by
      have hmoved : s₁.bucket w.key = s.bucket w.key := by rw [hfill.moved.frame]; rfl
      rw [← hmoved]
      exact List.mem_of_getElem? hold
    obtain ⟨q', hq', hentry', -⟩ := hv.dir.entries _ e' holdBucket hne
    obtain rfl : q' = q := Option.some.inj (hentry'.origin.symm.trans hentry.origin)
    have hqkey : q'.key = w.key := by
      have hqp := hv'.log.placed q' (hv'.dir.published q' hq)
      apply BitVec.eq_of_toNat_eq
      rw [← hqp.ok.key, ← (hqp.intact hqk).header.fields.2.2.1, hqstart]
      exact hleads.key
    have hqs : Kept env s q' := le_trans (hgen ▸ hfill.moved.gen_le) hqk
    obtain ⟨cls', hprobe', -, hleads'⟩ := leads_of_kept hv.log (hv.dir.published q' hq') hqs
      hentry hqstart (hqkey ▸ holdBucket)
    rw [hqkey] at hprobe' hleads'
    rcases planAlternate_decides hfill.planned hprobe' hleads' with hhead | hclear
    · exact hins.first _ hhead j hj e' hold ⟨hne, htag.trans (by rw [← hkey]; rfl), rfl⟩
    · exact (hkeep (htag.trans (by rw [← hkey]; rfl))).2 hclear

section

variable {env : Env} {s : State} {r : Record} {i : Nat} {e : DirEntry}

theorem Topmost.highest (h : Topmost s r) (hv : VolumeOk env s)
    (hpass : r.pass = env.stripe.passOf s.gen) :
    ∀ q ∈ s.laid, q.pass = r.pass → q.start ≤ r.start := by
  intro q hq hqpass
  have hp := hv.log.placed q hq
  have hbehind := hp.behind (hqpass.trans hpass)
  have hheader := hp.ok.header_le
  have hnear := h.near
  rcases hv.log.disjoint q hq r h.mem hqpass with rfl | hbefore | hafter
  · exact le_rfl
  · simp only [Record.stop] at hbefore
    omega
  · simp only [Record.stop, kHeaderSize] at hbehind hheader hnear hafter
    omega

theorem readAlternateSync_served {key : CacheKey} {id : Nat} {hd : ReadHandle}
    (hram : env.ramCache = false) (h : (env.readAlternateSync s key id).2 = .ok hd) :
    ∃ e cls n size, (e, cls) ∈ env.probe s key ∧
      env.isHead s.bytes (env.snapshot s) key e cls = true ∧
      n ∈ env.walkAlternates s.bytes (env.snapshot s) key kMaxChainTraversalDepth e.offset cls
        none ∧
      env.serveAlternate s.bytes (env.snapshot s) key n = .ok size ∧
      hd = serve s.bytes n.offset size := by
  unfold Env.readAlternateSync at h
  simp only [] at h
  split at h
  · cases h
  · next e cls hfind =>
    have hhead := List.find?_some hfind
    split at h
    · cases h
    · next n ns hwalk =>
      split at h
      · cases h
      · next sel hsel =>
        have huse : env.useRamCache sel.contentLength = false := by
          rw [Env.useRamCache, hram, Bool.false_and]
        rw [Env.readSelected, huse, if_neg Bool.false_ne_true] at h
        unfold Env.readFromDisk at h
        split at h <;> cases h
        next size hserve =>
        exact ⟨e, cls, sel, size, List.mem_of_find?_eq_some hfind, hhead,
          hwalk ▸ List.mem_of_find?_eq_some hsel, hserve, rfl⟩

theorem walkAlternates_intact (h : Landed env s r i e)
    (hmap : env.mapRegion r.start kMapOverhead = true) :
    ∃ ns, env.walkAlternates s.bytes (env.snapshot s) r.key kMaxChainTraversalDepth r.start
      .kCurrent none =
        ⟨r.start, .kCurrent, r.doc.fillSerial, r.doc.alternateId, r.doc.totalLen⟩ :: ns := by
  have hfields := h.intact.header.fields
  have hover : kHeaderSize ≤ kMapOverhead := Nat.le_add_right _ _
  have hstamp : env.stripe.stampAdmits (env.snapshot s) .kCurrent r.doc.writeSerial = true := by
    rw [Stripe.stampAdmits, h.stamp, h.pass]
    exact Bool.or_eq_true_iff.mpr (.inr (beq_self_eq_true _))
  obtain ⟨fuel, hfuel⟩ : ∃ fuel, kMaxChainTraversalDepth = fuel + 1 := ⟨_, rfl⟩
  rw [hfuel, Env.walkAlternates]
  simp only []
  rw [mapDocument_intact h.ok h.intact h.aligned h.stop_le hover, if_pos hmap,
    hfields.2.2.1, h.ok.key, h.intact.header.checks.2.1, h.ok.shape, hfields.2.2.2.2.1, hstamp,
    if_neg (by simp), hfields.2.2.2.1, hfields.2.2.2.2.2.1, hfields.2.2.2.2.2.2.1]
  exact ⟨_, rfl⟩

theorem mapRegion_mono {rel len len' : Nat} (hle : len' ≤ len)
    (h : env.mapRegion rel len = true) : env.mapRegion rel len' = true := by
  simp only [Env.mapRegion, decide_eq_true_eq] at h ⊢
  omega

theorem Landed.readAlternate_iff (h : Landed env s r i e) (htop : Topmost s r)
    (hv : VolumeOk env s) (hno : NoImpostor env s r.key) (hram : env.ramCache = false)
    (hlen : r.doc.totalLen = r.content.length) :
    (env.readAlternateSync s r.key r.doc.alternateId).2 =
        .ok ⟨some r.start, Document.deserialize s.bytes r.start, r.header, r.content⟩ ↔
      r.start < 2 ^ 40 ∧ env.mapRegion r.start (approxSizeOf r.doc.len) = true ∧
        env.mapRegion r.start (r.content.length + kMapOverhead) = true := by
  constructor
  · intro hread
    obtain ⟨e', cls, n, size, hc, hhead, hn, hserve, heq⟩ := readAlternateSync_served hram hread
    have hoff : r.start = n.offset := Option.some.inj (congrArg ReadHandle.placement heq)
    obtain ⟨hleads, hmap⟩ := isHead_leads hhead
    have hon := onLog_head hv hno hc hleads
    obtain ⟨⟨q, hq, hqstart, hqpass, hqk⟩, hle, hcontent⟩ := walkAlternates_nodes hv hon n hn
    -- the node is the new document, which is the highest of its pass
    obtain rfl : q = r := by
      have hqlen := (hv.log.placed q hq).ok.header_le
      have hrlen := h.ok.header_le
      simp only [kHeaderSize] at hqlen hrlen
      rcases hv.log.apart hq htop.mem hqk h.kept with heq | hap | hap
      · exact heq
      · simp only [Record.stop] at hap
        omega
      · simp only [Record.stop] at hap
        omega
    obtain ⟨q', hq', hq'start, hq'pass, -⟩ := hon
    have hhigh := htop.highest hv h.pass q' hq' (hq'pass.trans hqpass.symm)
    obtain ⟨rfl, hwhole⟩ := h.of_offset hc (by omega)
    have he : e'.offset = q.start := by omega
    rw [he, h.entry.approxSize] at hmap
    have hmapped := serveAlternate_maps hserve
    rw [hcontent, ← hoff, h.intact.header.fields.2.2.2.2.2.2.1, hlen] at hmapped
    exact ⟨hwhole, hmap, hmapped⟩
  · rintro ⟨hwhole, hmap, hmapped⟩
    obtain ⟨hoff, hshown⟩ := h.shown hwhole
    obtain ⟨pre, post, hsplit, hpre⟩ := probe_split h.slot hshown
    have hhead : env.isHead s.bytes (env.snapshot s) r.key e .kCurrent = true := by
      refine isHead_intact h.ok h.intact h.aligned h.stop_le hoff h.entry.fillSerial ?_ ?_
      · rw [Stripe.stampAdmits, h.stamp, h.pass]
        exact Bool.or_eq_true_iff.mpr (.inr (beq_self_eq_true _))
      · rw [h.entry.approxSize]
        exact hmap
    have hfind : (env.probe s r.key).find?
        (fun c => env.isHead s.bytes (env.snapshot s) r.key c.1 c.2) = some (e, .kCurrent) := by
      have hnone : pre.find?
          (fun c => env.isHead s.bytes (env.snapshot s) r.key c.1 c.2) = none := by
        refine List.find?_eq_none.mpr fun c hc hisHead => ?_
        obtain ⟨hprobe, j, hj, he'⟩ := hpre c hc
        exact h.ahead j hj c.1 c.2 he' hprobe (isHead_leads hisHead).1
      rw [hsplit, List.find?_append, hnone, Option.none_or, List.find?_cons, hhead]
    obtain ⟨ns, hwalk⟩ := walkAlternates_intact h (mapRegion_mono (Nat.le_add_left _ _) hmapped)
    have huse : ∀ n, env.useRamCache n = false := by
      intro n
      rw [Env.useRamCache, hram, Bool.false_and]
    have hserve := @serveAlternate_intact env s.bytes (env.snapshot s) r h.ok h.intact
      h.aligned h.stop_le ⟨r.start, .kCurrent, r.doc.fillSerial, r.doc.alternateId, r.doc.totalLen⟩
      rfl rfl hlen (@admitDocument_kept env .kCurrent r s (by decide) h.pass h.stamp h.kept)
    rw [if_pos hmapped] at hserve
    unfold Env.readAlternateSync
    simp only [hfind, hoff, hwalk]
    simp only [List.find?_cons, beq_self_eq_true]
    rw [Env.readSelected, huse, if_neg Bool.false_ne_true, Env.readFromDisk, hserve]
    exact congrArg Except.ok (serve_intact h.ok h.intact (Nat.le_max_right _ _))

end

def RoundsOk (env : Env) (w : AlternateWrite) (attempts : Nat → Attempt) :
    Nat → Nat → Bool → Nat → State → Prop
  | 0, _, _, _, _ => True
  | fuel + 1, i, allowRestart, staleRetries, s =>
    NoImpostor env s w.key ∧ match env.commitAlternateWriteOnce s w allowRestart (attempts i) with
      | (s', .published _) => NoImpostor env s' w.key
      | (_, .failed _) => True
      | (s', .restart) => RoundsOk env w attempts fuel (i + 1) false staleRetries s'
      | (s', .stale) => RoundsOk env w attempts fuel (i + 1) allowRestart (staleRetries + 1) s'

theorem commitAlternateWrite_round (hsize : env.stripe.size ≤ 2 ^ 48) {w : AlternateWrite}
    {attempts : Nat → Attempt} {fuel i : Nat} {allowRestart : Bool} {staleRetries : Nat}
    {s' : State} {r : Record} (hv : VolumeOk env s)
    (hrounds : RoundsOk env w attempts fuel i allowRestart staleRetries s)
    (h : env.commitAlternateWrite w attempts fuel i allowRestart staleRetries s = (s', .ok r)) :
    ∃ t restart a, VolumeOk env t ∧ NoImpostor env t w.key ∧ NoImpostor env s' w.key ∧
      env.commitAlternateWriteOnce t w restart a = (s', .published r) := by
  induction fuel generalizing i allowRestart staleRetries s with
  | zero => cases h
  | succ fuel ih =>
    obtain ⟨hno, hnext⟩ := hrounds
    have hok := commitAlternateWriteOnce_ok hv hsize hno allowRestart (attempts i)
    unfold Env.commitAlternateWrite at h
    cases hround : env.commitAlternateWriteOnce s w allowRestart (attempts i) with
    | mk s₁ out =>
      rw [hround] at h hnext hok
      cases out with
      | published q =>
        cases h
        exact ⟨s, allowRestart, attempts i, hv, hno, hnext, hround⟩
      | failed e => cases h
      | restart => exact ih hok hnext h
      | stale =>
        simp only [] at h
        split at h
        · cases h
        · exact ih hok hnext h

/-- Without a RAM tier, a document whose commit succeeded is read back iff the
directory holds its offset and the mappings of the read stay inside the file. -/
theorem read_after_write {env : Env} (hram : env.ramCache = false) {bytes : Memory}
    {ops : List VolumeOp} {s : State}
    (hrun : runs env.step (State.fresh env bytes) ops = some s) :
    (∀ key header content gates short s' r,
      env.commitWrite s (plainBuilder key header content) gates short = (s', .ok r) →
      ((env.readSync s' key).2 = .ok ⟨some r.start, r.doc, header, content⟩ ↔
        r.start < 2 ^ 40 ∧ env.mapRegion r.start (approxSizeOf r.doc.len) = true)) ∧
    (StepsOk env.step (CallOk env) (State.fresh env bytes) ops → env.stripe.size ≤ 2 ^ 48 →
      ∀ w attempts s' r, RoundsOk env w attempts Env.kMaxAttempts 0 true 0 s →
      env.commitAlternateWrite w attempts Env.kMaxAttempts 0 true 0 s = (s', .ok r) →
      ((∃ d, d.SameOutsideInPlace r.doc ∧ (env.readAlternateSync s' w.key w.id.toNat).2 =
          .ok ⟨some r.start, d, w.header, w.content⟩) ↔
        r.start < 2 ^ 40 ∧ env.mapRegion r.start (approxSizeOf r.doc.len) = true ∧
          env.mapRegion r.start (w.content.length + kMapOverhead) = true)) := by
  constructor
  · intro key header content gates short s' r hcommit
    have hc : CursorOk env s :=
      runs_inv (fun _ _ _ h hstep => step_cursorOk h hstep) hrun (cursorOk_fresh env bytes)
    obtain ⟨⟨rfl, rfl, rfl, hdoc⟩, i, e, hland⟩ :=
      commitWrite_landed hc (Nat.two_pow_pos 64) hcommit
    have hread : (env.readSync s' r.key).2 = env.readDisk s' r.key := by
      rw [Env.readSync, hram, if_neg Bool.false_ne_true]
    have hiff := hland.readDisk_iff
    rw [hdoc] at hiff
    rw [hread]
    exact hiff
  · intro hok hsize w attempts s' r hrounds hcommit
    have hv := volumeOk_run hok hrun
    obtain ⟨t, restart, a, hvt, hno, hno', hround⟩ :=
      commitAlternateWrite_round hsize hv hrounds hcommit
    have hv' := commitAlternateWriteOnce_ok hvt hsize hno restart a
    rw [hround] at hv'
    obtain ⟨⟨hkey, hheader, hcontent, hid, hlen⟩, htop, i, e, hland⟩ :=
      round_landed hvt hsize hno hno' hround
    rw [← hkey] at hno' ⊢
    have hiff := hland.readAlternate_iff htop hv' hno' hram (hlen.trans (by rw [hcontent]))
    rw [hid, hheader, hcontent] at hiff
    rw [← hiff]
    constructor
    · rintro ⟨d, -, hread⟩
      obtain ⟨-, -, n, size, -, -, -, -, heq⟩ := readAlternateSync_served hram hread
      have hplace : r.start = n.offset := Option.some.inj (congrArg ReadHandle.placement heq)
      have hd : d = Document.deserialize s'.bytes n.offset := congrArg ReadHandle.doc heq
      rw [hread, hd, hplace]
    · exact fun hread => ⟨_, hland.intact.header, hread⟩

def roomyVolume : Env :=
  initStripe ⟨kVolumeHeaderSize + 655360 + 80000, 0, false, false⟩
    ⟨⟨1, 1, 64, false, Nat.one_pos⟩, false, true, 0, false, true, false⟩ 0
    (by decide) (by decide)

def clearAttempt : Attempt := ⟨0, openGates, none, fun _ => true⟩

theorem read_after_write_roomy : ∃ s s' r r',
      roomyVolume.commitWrite (State.fresh roomyVolume fun _ => 0) (plainBuilder 5 [] [7])
        openGates none = (s, .ok r) ∧
      (roomyVolume.readSync s 5).2 = .ok ⟨some r.start, r.doc, [], [7]⟩ ∧
      roomyVolume.commitAlternateWrite ⟨5, 1, [], [8]⟩ (fun _ => clearAttempt)
        Env.kMaxAttempts 0 true 0 (State.fresh roomyVolume fun _ => 0) = (s', .ok r') ∧
      ∃ d, d.SameOutsideInPlace r'.doc ∧
        (roomyVolume.readAlternateSync s' 5 1).2 = .ok ⟨some r'.start, d, [], [8]⟩ := by
  have hplain : (match roomyVolume.commitWrite (State.fresh roomyVolume fun _ => 0)
      (plainBuilder 5 [] [7]) openGates none with
    | (_, .ok r) => decide (r.start < 2 ^ 40) &&
        roomyVolume.mapRegion r.start (approxSizeOf r.doc.len)
    | _ => false) = true := by decide +kernel
  have halt : (match roomyVolume.commitAlternateWrite ⟨5, 1, [], [8]⟩ (fun _ => clearAttempt)
      Env.kMaxAttempts 0 true 0 (State.fresh roomyVolume fun _ => 0) with
    | (_, .ok r) => decide (r.start < 2 ^ 40) &&
        (roomyVolume.mapRegion r.start (approxSizeOf r.doc.len) &&
          roomyVolume.mapRegion r.start (1 + kMapOverhead))
    | _ => false) = true := by decide +kernel
  have hround : (match roomyVolume.commitAlternateWriteOnce (State.fresh roomyVolume fun _ => 0)
      ⟨5, 1, [], [8]⟩ true clearAttempt with
    | (s', .published _) => allFresh roomyVolume s' 5
    | _ => false) = true := by decide +kernel
  have hrounds : RoundsOk roomyVolume ⟨5, 1, [], [8]⟩ (fun _ => clearAttempt) Env.kMaxAttempts 0
      true 0 (State.fresh roomyVolume fun _ => 0) := by
    refine ⟨noImpostor_of_allFresh (by decide +kernel), ?_⟩
    split at hround
    · next s' r heq =>
      rw [heq]
      exact noImpostor_of_allFresh hround
    · cases hround
  obtain ⟨hread, hreadAlt⟩ := @read_after_write roomyVolume rfl (fun _ => 0) [] _ rfl
  split at hplain
  · next s r hcommit =>
    split at halt
    · next s' r' hcommit' =>
      simp only [Bool.and_eq_true, decide_eq_true_eq] at hplain halt
      exact ⟨s, s', r, r', hcommit, (hread 5 [] [7] openGates none s r hcommit).mpr hplain,
        hcommit', (hreadAlt trivial (by decide) _ _ s' r' hrounds hcommit').mpr halt⟩
    · cases halt
  · cases hplain

def fails (e : CacheError) : Except CacheError ReadHandle → Bool
  | .error e' => e' == e
  | .ok _ => false

theorem eq_of_fails {e : CacheError} {res : Except CacheError ReadHandle}
    (h : fails e res = true) : res = .error e := by
  cases res with
  | error e' => rw [beq_iff_eq.mp h]
  | ok _ => cases h

/-- A plain document that fills the data area to its end, and an alternate of
one byte: both are committed and admitted, and neither is read back. -/
theorem committed_not_read_back : ∃ s s' r r',
      (tightVolume true).commitWrite (State.fresh (tightVolume true) fun _ => 0)
        (plainBuilder 5 [] (List.replicate 572 7)) openGates none = (s, .ok r) ∧
      ((tightVolume true).stripe.admitDocument ((tightVolume true).snapshot s) .kCurrent r.start
        r.doc.writeSerial).isSome = true ∧
      ((tightVolume true).readSync s 5).2 = .error .notFound ∧
      (tightVolume true).commitAlternateWrite ⟨5, 1, [], [8]⟩ (fun _ => clearAttempt)
        Env.kMaxAttempts 0 true 0 (State.fresh (tightVolume true) fun _ => 0) = (s', .ok r') ∧
      ((tightVolume true).stripe.admitDocument ((tightVolume true).snapshot s') .kCurrent
        r'.start r'.doc.writeSerial).isSome = true ∧
      ((tightVolume true).readAlternateSync s' 5 1).2 = .error .corrupted := by
  have hplain : (match (tightVolume true).commitWrite (State.fresh (tightVolume true) fun _ => 0)
      (plainBuilder 5 [] (List.replicate 572 7)) openGates none with
    | (s, .ok r) => ((tightVolume true).stripe.admitDocument ((tightVolume true).snapshot s)
        .kCurrent r.start r.doc.writeSerial).isSome &&
        fails .notFound ((tightVolume true).readSync s 5).2
    | _ => false) = true := by decide +kernel
  have halt : (match (tightVolume true).commitAlternateWrite ⟨5, 1, [], [8]⟩
      (fun _ => clearAttempt) Env.kMaxAttempts 0 true 0
      (State.fresh (tightVolume true) fun _ => 0) with
    | (s, .ok r) => ((tightVolume true).stripe.admitDocument ((tightVolume true).snapshot s)
        .kCurrent r.start r.doc.writeSerial).isSome &&
        fails .corrupted ((tightVolume true).readAlternateSync s 5 1).2
    | _ => false) = true := by decide +kernel
  split at hplain
  · next s r hcommit =>
    split at halt
    · next s' r' hcommit' =>
      rw [Bool.and_eq_true] at hplain halt
      exact ⟨s, s', r, r', hcommit, hplain.1, eq_of_fails hplain.2, hcommit', halt.1,
        eq_of_fails halt.2⟩
    · cases halt
  · cases hplain

end CycloneCache.Ref.Volume

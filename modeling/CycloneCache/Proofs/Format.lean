import CycloneCache.Proofs.Documents
import CycloneCache.Ref.Format

namespace CycloneCache.Ref.Format

open Lib Volume

theorem patchAt_header {d d' : Document} (i w v v' : Nat) {a : Nat}
    (hd : d.fields = d.fields.take i ++ (w, v) :: d.fields.drop (i + 1))
    (hd' : d'.fields = d.fields.take i ++ (w, v') :: d.fields.drop (i + 1))
    (ha : a = (Document.widths.take i).sum) (rest : List UInt8) :
    patchAt (d.serialize ++ rest) a (leBytes w v') = d'.serialize ++ rest := by
  have hwidths : (d.fields.take i).map Prod.fst = Document.widths.take i := List.map_take
  have hpatch := @patchAt_putFields a (d.fields.take i) (d.fields.drop (i + 1)) w v v' rest
    (by rw [hwidths, ha])
  rw [← hd, ← hd'] at hpatch
  exact hpatch

theorem patchAt_serialize (d : Document) (patch : Patch) (rest : List UInt8) :
    patchAt (d.serialize ++ rest) patch.offset patch.bytes = (patch.set d).serialize ++ rest := by
  cases patch with
  | writeSerial v => exact patchAt_header 11 4 d.writeSerial v.toNat rfl rfl rfl rest
  | fillSerial v => exact patchAt_header 10 4 d.fillSerial v.toNat rfl rfl rfl rest
  | hitCount v => exact patchAt_header 15 4 d.hitCount v.toNat rfl rfl rfl rest
  | nextAlternateOffset v =>
    exact patchAt_header 16 8 d.nextAlternateOffset v.toNat rfl rfl rfl rest
  | lastAccess v =>
    exact patchAt_header 17 8 d.lastAccess v.toBitVec.toNat rfl rfl rfl rest

theorem patchAt_checksum (d : Document) (sum : Nat) (rest : List UInt8) :
    patchAt (d.serialize ++ rest) kChecksumOffset (leBytes 4 sum) =
      { d with checksum := sum }.serialize ++ rest :=
  patchAt_header 13 4 d.checksum sum rfl rfl rfl rest

theorem inRange_set {d : Document} (h : d.InRange) (patch : Patch) : (patch.set d).InRange := by
  simp only [Document.InRange, Document.fields, List.forall_mem_cons] at h
  obtain ⟨h1, h2, h3, h4, h5, h6, h7, h8, h9, h10, h11, h12, h13, h14, h15, h16, h17, h18, h19,
    h20, hnil⟩ := h
  cases patch <;> simp only [Document.InRange, Document.fields, Patch.set, List.forall_mem_cons]
  · next v =>
    exact ⟨h1, h2, h3, h4, h5, h6, h7, h8, h9, h10, h11, v.toNat_lt, h13, h14, h15, h16, h17,
      h18, h19, h20, hnil⟩
  · next v =>
    exact ⟨h1, h2, h3, h4, h5, h6, h7, h8, h9, h10, v.toNat_lt, h12, h13, h14, h15, h16, h17,
      h18, h19, h20, hnil⟩
  · next v =>
    exact ⟨h1, h2, h3, h4, h5, h6, h7, h8, h9, h10, h11, h12, h13, h14, h15, v.toNat_lt, h17,
      h18, h19, h20, hnil⟩
  · next v =>
    exact ⟨h1, h2, h3, h4, h5, h6, h7, h8, h9, h10, h11, h12, h13, h14, h15, h16, v.toNat_lt,
      h18, h19, h20, hnil⟩
  · next v =>
    exact ⟨h1, h2, h3, h4, h5, h6, h7, h8, h9, h10, h11, h12, h13, h14, h15, h16, h17,
      v.toBitVec.isLt, h19, h20, hnil⟩

def patched (r : Record) (patch : Patch) : Record := { r with doc := patch.set r.doc }

theorem apply_image_append (r : Record) (patch : Patch) (rest : List UInt8) :
    patch.apply (Record.image r ++ rest) = Record.image (patched r patch) ++ rest := by
  have hlen : ¬ (Record.image r ++ rest).length < kHeaderSize := by
    rw [List.length_append, Record.image, List.length_append, List.length_append,
      Document.length_serialize]
    omega
  rw [Patch.apply, if_neg hlen, Record.image, List.append_assoc, List.append_assoc,
    patchAt_serialize, Record.image, List.append_assoc, List.append_assoc]
  rfl

theorem apply_image (r : Record) (patch : Patch) :
    patch.apply (Record.image r) = Record.image (patched r patch) := by
  have happly := apply_image_append r patch []
  rwa [List.append_nil, List.append_nil] at happly

theorem RecordOk.patch {r : Record} (h : RecordOk r) (patch : Patch) :
    RecordOk (patched r patch) := by
  obtain ⟨hrange, hvalid, hshape, hkey, hsum, hlen, hheader⟩ := h
  have hrange' := inRange_set hrange patch
  cases patch <;> exact ⟨hrange', hvalid, hshape, hkey, hsum, hlen, hheader⟩

theorem inPlace_set (d : Document) (patch : Patch) :
    InPlace.of (patch.set d) = (InPlace.of d).patch patch := by
  cases patch <;> simp [InPlace.of, InPlace.patch, Patch.set]

theorem patches_image (patches : List Patch) {r : Record} (h : RecordOk r) :
    ∃ r', patches.foldl Patch.apply (Record.image r) = Record.image r' ∧ RecordOk r' ∧
      r'.key = r.key ∧ r'.header = r.header ∧ r'.content = r.content ∧
      r'.doc.fragmentKey = r.doc.fragmentKey ∧ r'.doc.alternateId = r.doc.alternateId ∧
      InPlace.of r'.doc = patches.foldl InPlace.patch (InPlace.of r.doc) := by
  induction patches generalizing r with
  | nil => exact ⟨r, rfl, h, rfl, rfl, rfl, rfl, rfl, rfl⟩
  | cons patch patches ih =>
    obtain ⟨r', himage, hok, hkey, hheader, hcontent, hfragment, hid, hinPlace⟩ :=
      ih (RecordOk.patch h patch)
    have hsame : (patch.set r.doc).fragmentKey = r.doc.fragmentKey ∧
        (patch.set r.doc).alternateId = r.doc.alternateId := by
      cases patch <;> exact ⟨rfl, rfl⟩
    rw [List.foldl_cons, apply_image, List.foldl_cons, ← inPlace_set]
    exact ⟨r', himage, hok, hkey, hheader, hcontent, hfragment.trans hsame.1,
      hid.trans hsame.2, hinPlace⟩

section

variable {r : Record}

theorem document_image (h : r.doc.InRange) : (Reader.of (Record.image r)).document = r.doc ∧
    (Reader.of (Record.image r)).data = Record.image r ∧
    (Reader.of (Record.image r)).valid = r.doc.isValidAndCompatible := by
  have hlen : kHeaderSize ≤ (Record.image r).length := by
    rw [Record.image, List.length_append, List.length_append, Document.length_serialize]
    omega
  have hdoc : Document.deserialize (memoryOf (Record.image r)) 0 = r.doc := by
    apply Document.deserialize_of_holds h
    have hholds := holds_memoryOf (Record.image r)
    rw [Record.image, List.append_assoc] at hholds ⊢
    exact (holds_append.mp hholds).1
  rw [Reader.of, if_pos hlen, hdoc]
  exact ⟨rfl, rfl, rfl⟩

theorem reader_image (h : RecordOk r) : let reader := Reader.of (Record.image r)
    reader.isServable = true ∧ reader.firstKey = r.key ∧ reader.header = r.header ∧
      reader.content = r.content ∧ reader.payload = r.header ++ r.content ∧
      reader.verifyChecksum = true := by
  intro reader
  obtain ⟨hdoc, hdata, hvalid⟩ := document_image h.inRange
  have hvalid' : reader.valid = true := hvalid.trans h.valid
  have hlen : reader.data.length = kHeaderSize + r.header.length + r.content.length := by
    rw [hdata, h.length_image, h.len]
  have hdoclen : reader.document.len = kHeaderSize + r.header.length + r.content.length := by
    rw [hdoc, h.len]
  have hheaderLen : reader.document.headerLen = r.header.length := by
    rw [hdoc, h.headerLen]
  -- Behind the fixed header lie the header bytes and then the content.
  have hbehind : reader.data.drop kHeaderSize = r.header ++ r.content := by
    rw [hdata, Record.image, List.append_assoc, ← Document.length_serialize r.doc, List.drop_left]
  have hcontent : reader.data.drop (kHeaderSize + r.header.length) = r.content := by
    rw [← List.drop_drop, hbehind, List.drop_left]
  have hpayload : reader.payload = r.header ++ r.content := by
    simp only [Reader.payload, hvalid', Bool.not_true, Bool.false_eq_true, false_or, hlen, hdoclen]
    split
    · next hempty =>
      have hnil : r.header.length = 0 ∧ r.content.length = 0 := by omega
      rw [List.length_eq_zero_iff.mp hnil.1, List.length_eq_zero_iff.mp hnil.2]
      rfl
    · next hmore =>
      rw [Nat.not_le] at hmore
      simp only [hmore, if_true]
      rw [if_neg (by omega), Reader.subspan, hbehind]
      exact List.take_of_length_le (by rw [List.length_append]; omega)
  refine ⟨?_, ?_, ?_, ?_, hpayload, ?_⟩
  · rw [Reader.isServable, hvalid', hdoc, h.shape]
    rfl
  · rw [Reader.firstKey, hdoc, h.key, BitVec.ofNat_toNat, BitVec.setWidth_eq]
  · simp only [Reader.header, hvalid', Bool.not_true, Bool.false_eq_true, false_or, hlen,
      hheaderLen]
    rw [if_neg (by omega), Reader.subspan, hbehind, List.take_left]
  · simp only [Reader.content, hvalid', Bool.not_true, Bool.false_eq_true, if_false, hlen,
      hdoclen, hheaderLen]
    rw [if_neg (by omega), if_neg (by omega), if_neg (by omega), Reader.subspan, hcontent]
    exact List.take_of_length_le (by omega)
  · rw [Reader.verifyChecksum, hpayload, hdoc]
    exact h.checksum

end

def built (b : Builder) (content : List UInt8) : Record where
  key := b.key
  start := 0
  pass := 0
  doc := { b.document content with checksum := (b.checksum content).toNat }
  header := b.header
  content := content

variable {b : Builder} {content : List UInt8}

theorem serializeHead_eq (hsum : b.enableChecksum = true) (hbuilt : b.serializeHead content ≠ []) :
    kHeaderSize + b.header.length + content.length < 2 ^ 32 ∧
      b.serializeHead content = (built b content).doc.serialize ++ b.header := by
  unfold Builder.serializeHead at hbuilt ⊢
  split at hbuilt
  · exact absurd rfl hbuilt
  · next hlen =>
    refine ⟨by omega, ?_⟩
    rw [if_neg hlen, if_neg (by omega)]
    simp only [hsum, if_true]
    exact patchAt_checksum ..

theorem build_eq (hbuilt : b.build ≠ []) :
    b.serializeHead b.content ≠ [] ∧ b.build = b.serializeHead b.content ++ b.content := by
  unfold Builder.build at hbuilt ⊢
  split at hbuilt
  · exact absurd rfl hbuilt
  · next hne => exact ⟨hne, rfl⟩

theorem inRange_built (htotal : b.totalLen = 0)
    (hlen : kHeaderSize + b.header.length + content.length < 2 ^ 32) :
    (built b content).doc.InRange := by
  have hkey := b.key.isLt
  have htype := b.type.toNat_lt
  have hflags := b.flags.toNat_lt
  have hfrag := b.fragOffset.toNat_lt
  have hid := b.alternateId.toNat_lt
  have hlink := b.nextAlternateOffset.toNat_lt
  have hhits := b.hitCount.toNat_lt
  have haccess := b.lastAccess.toBitVec.isLt
  have hsum := (b.checksum content).toNat_lt
  simp only [kHeaderSize] at hlen
  generalize hchecksum : (b.checksum content).toNat = checksum at hsum
  simp only [Document.InRange, built, Builder.document, hchecksum, htotal, Document.fields,
    List.forall_mem_cons, Document.kMagic, Document.kVersionMajor, kHeaderSize, gt_iff_lt,
    UInt64.lt_irrefl, if_false]
  refine ⟨by decide, by omega, by omega, hkey, hkey, by omega, htype, by decide, by decide,
    hflags, by decide, by decide, by decide, hsum, hfrag, hhits, hlink, haccess, hid, by decide,
    by simp⟩

theorem built_ok (htype : b.type = 4) (htotal : b.totalLen = 0) (hfrag : b.fragOffset = 0)
    (hlen : kHeaderSize + b.header.length + content.length < 2 ^ 32) :
    RecordOk (built b content) where
  inRange := inRange_built htotal hlen
  valid := rfl
  shape := by
    simp only [built, Document.hasVolumeShape, Builder.document, htype, htotal, hfrag,
      Bool.and_eq_true, beq_iff_eq, decide_eq_true_eq]
    refine ⟨⟨⟨⟨rfl, rfl⟩, by omega⟩, by omega⟩, ?_⟩
    rw [if_neg (by decide)]
    omega
  key := rfl
  checksum := by
    simp only [built, Document.verifyChecksum, beq_iff_eq]
    rw [← crc32cUpdate_append]
    rfl
  len := rfl
  headerLen := rfl

theorem build_image (htype : b.type = 4) (htotal : b.totalLen = 0) (hfrag : b.fragOffset = 0)
    (hsum : b.enableChecksum = true) (hbuilt : b.build ≠ []) :
    b.build = Record.image (built b b.content) ∧ RecordOk (built b b.content) := by
  obtain ⟨hhead, hbuild⟩ := build_eq hbuilt
  obtain ⟨hlen, heq⟩ := serializeHead_eq hsum hhead
  refine ⟨?_, built_ok htype htotal hfrag hlen⟩
  rw [hbuild, heq]
  rfl

def builderFor (key : CacheKey) (header content : List UInt8) (id : UInt8) (link : UInt64)
    (hits : UInt32) (access : Int64) : Builder :=
  { key, header, content, alternateId := id, nextAlternateOffset := link, hitCount := hits,
    lastAccess := access }

/-- What is built is read back, from either way of building it and after any
patches: the parts are as they were set, the patched fields as they were
stored last, and the checksum holds. -/
theorem document_round_trip (key : CacheKey) (header content : List UInt8) (id : UInt8)
    (link : UInt64) (hits : UInt32) (access : Int64)
    (hbuilt : (builderFor key header content id link hits access).build ≠ [])
    (data : List UInt8)
    (hdata : data = (builderFor key header content id link hits access).build ∨ ∃ other, data =
        (builderFor key header other id link hits access).buildHead content ++ content)
    (patches : List Patch) :
    let r := Reader.of (patches.foldl Patch.apply data)
    r.isServable = true ∧ r.firstKey = key ∧ r.fragmentKey = key ∧ r.header = header ∧
      r.content = content ∧ r.document.alternateId = id.toNat ∧
      InPlace.of r.document = patches.foldl InPlace.patch ⟨0, 0, hits, link, access⟩ ∧
      r.verifyChecksum = true := by
  generalize hb : builderFor key header content id link hits access = b at hbuilt hdata
  have hcontent : b.content = content := by rw [← hb]; rfl
  obtain ⟨hwhole, hok⟩ := build_image (by rw [← hb]; rfl) (by rw [← hb]; rfl) (by rw [← hb]; rfl)
    (by rw [← hb]; rfl) hbuilt
  rw [hcontent] at hwhole hok
  -- Both ways lead to the bytes of one record.
  have himage : data = Record.image (built b content) := by
    rcases hdata with rfl | ⟨other, rfl⟩
    · exact hwhole
    · rw [← hwhole, (build_eq hbuilt).2, hcontent, ← hb]
      rfl
  obtain ⟨r', hpatched, hok', hkey', hheader', hcontent', hfragment, hid, hinPlace⟩ :=
    patches_image patches hok
  rw [himage, hpatched]
  obtain ⟨hservable, hkey, hheader, hcontent, -, hverify⟩ := reader_image hok'
  have hdoc := (document_image hok'.inRange).1
  refine ⟨hservable, ?_, ?_, ?_, ?_, ?_, ?_, hverify⟩
  · rw [hkey, hkey', ← hb]
    rfl
  · rw [Reader.fragmentKey, hdoc, hfragment, ← hb]
    simp [built, Builder.document, builderFor]
  · rw [hheader, hheader', ← hb]
    rfl
  · rw [hcontent, hcontent']
    rfl
  · rw [hdoc, hid, ← hb]
    rfl
  · rw [hdoc, hinPlace, ← hb]
    simp [InPlace.of, built, Builder.document, builderFor]

theorem document_round_trip_patched : (builderFor 5 [1] [2, 3] 1 77 7 (-1)).build ≠ [] ∧
      let r := Reader.of ([.fillSerial 9, .hitCount 8, .fillSerial 4].foldl Patch.apply
        (builderFor 5 [1] [2, 3] 1 77 7 (-1)).build)
      r.content = [2, 3] ∧ InPlace.of r.document = ⟨0, 4, 8, 77, -1⟩ := by
  have hbuilt : (builderFor 5 [1] [2, 3] 1 77 7 (-1)).build ≠ [] := by decide +kernel
  obtain ⟨_, _, _, _, hcontent, _, hinPlace, _⟩ := document_round_trip 5 [1] [2, 3] 1 77 7 (-1)
    hbuilt _ (.inl rfl) [.fillSerial 9, .hitCount 8, .fillSerial 4]
  exact ⟨hbuilt, hcontent, hinPlace⟩

def ofVolume (b : DocumentBuilder) : Builder :=
  builderFor b.key b.header b.content b.alternateId (.ofNat b.nextAlternateOffset) 0
    (.ofBitVec (.ofNat 64 b.lastAccess))

theorem document_ofVolume {b : DocumentBuilder} (hlink : b.nextAlternateOffset < 2 ^ 64) :
    (ofVolume b).document b.content = b.document := by
  simpa [ofVolume, builderFor, Builder.document, DocumentBuilder.document, Document.kSingleFrag]
    using hlink

end CycloneCache.Ref.Format

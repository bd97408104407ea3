import CycloneCache.Ref.VolumeWrite

namespace CycloneCache.Ref

open Lib

namespace Document

def InRange (d : Document) : Prop := ∀ f ∈ d.fields, f.2 < 256 ^ f.1

theorem length_serialize (d : Document) : d.serialize.length = kHeaderSize := by
  rw [serialize, length_putFields]
  simp [fields, kHeaderSize]

variable {a : Nat} {d d' : Document} {m : Memory}

theorem deserialize_of_holds (hd : d.InRange) (h : Holds m a d.serialize) :
    deserialize m a = d := by
  have hfields : fieldsAt m a widths = d.fields.map Prod.snd := by
    refine (fieldsAt_of_holds h).trans (List.map_congr_left ?_)
    exact fun f hf => Nat.mod_eq_of_lt (hd f hf)
  rw [deserialize, hfields]
  rfl

theorem deserialize_inRange (m : Memory) (a : Nat) : (deserialize m a).InRange :=
  fieldsAt_lt m a widths

theorem serialize_deserialize (m : Memory) (a : Nat) :
    (deserialize m a).serialize = readAt m a kHeaderSize :=
  putFields_fieldsAt m a widths

theorem deserialize_congr {m' : Memory} (h : ∀ x, a ≤ x → x < a + kHeaderSize → m' x = m x) :
    deserialize m' a = deserialize m a := by
  rw [deserialize, deserialize, fieldsAt_congr h]

theorem sameOutsideInPlace_of_congr {m' : Memory} (h : ∀ x, a ≤ x → x < a + kHeaderSize →
      (x < a + kHitCountOffset ∨ a + kLastAccessOffset + 8 ≤ x) → m' x = m x) :
    SameOutsideInPlace (deserialize m' a) (deserialize m a) := by
  simp only [kHeaderSize, kHitCountOffset, kLastAccessOffset] at h
  have hlow : ∀ o w, o + w ≤ 108 → leAt m' (a + o) w = leAt m (a + o) w := by
    intro o w how
    exact leAt_congr fun x h₁ h₂ => h x (by omega) (by omega) (by omega)
  have hhigh : ∀ o w, 128 ≤ o → o + w ≤ 132 → leAt m' (a + o) w = leAt m (a + o) w := by
    intro o w ho how
    exact leAt_congr fun x h₁ h₂ => h x (by omega) (by omega) (by omega)
  simp only [SameOutsideInPlace, deserialize, widths, fieldsAt, ofFields, Nat.add_assoc,
    Document.mk.injEq]
  have h0 := hlow 0 4 (by omega)
  rw [Nat.add_zero] at h0
  refine ⟨h0, hlow _ _ (by omega), hlow _ _ (by omega), hlow _ _ (by omega),
    hlow _ _ (by omega), hlow _ _ (by omega), hlow _ _ (by omega), hlow _ _ (by omega),
    hlow _ _ (by omega), hlow _ _ (by omega), hlow _ _ (by omega), hlow _ _ (by omega),
    hlow _ _ (by omega), hlow _ _ (by omega), hlow _ _ (by omega), trivial, trivial, trivial,
    hhigh _ _ (by omega) (by omega), hhigh _ _ (by omega) (by omega)⟩

theorem SameOutsideInPlace.refl (d : Document) : d.SameOutsideInPlace d := rfl

theorem SameOutsideInPlace.trans {d'' : Document} (h₁ : d.SameOutsideInPlace d')
    (h₂ : d'.SameOutsideInPlace d'') : d.SameOutsideInPlace d'' := Eq.trans h₁ h₂

theorem SameOutsideInPlace.checks (h : d.SameOutsideInPlace d') :
    d.isValidAndCompatible = d'.isValidAndCompatible ∧
      d.hasVolumeShape = d'.hasVolumeShape ∧ d.canonical = d'.canonical := by
  have hfields := Document.mk.inj h
  simp only at hfields
  obtain ⟨h1, h2, h3, h4, h5, h6, h7, h8, h9, h10, h11, h12, h13, h14, h15, -, -, -, h19,
    h20⟩ := hfields
  simp only [isValidAndCompatible, hasVolumeShape, canonical, h1, h2, h3, h4, h5, h6, h7, h8,
    h9, h10, h13, h15, h19, h20, and_self]

theorem SameOutsideInPlace.fields (h : d.SameOutsideInPlace d') :
    d.len = d'.len ∧ d.headerLen = d'.headerLen ∧ d.firstKey = d'.firstKey ∧
      d.fillSerial = d'.fillSerial ∧ d.writeSerial = d'.writeSerial ∧
      d.alternateId = d'.alternateId ∧ d.totalLen = d'.totalLen ∧ d.checksum = d'.checksum := by
  have hfields := Document.mk.inj h
  simp only at hfields
  obtain ⟨-, h2, h3, h4, -, h6, -, -, -, -, h11, h12, -, h14, -, -, -, -, h19, -⟩ := hfields
  exact ⟨h2, h6, h4, h11, h12, h19, h3, h14⟩

end Document

theorem crc32cUpdate_append (state : UInt32) (a b : List UInt8) :
    crc32cUpdate (crc32cUpdate state a) b = crc32cUpdate state (a ++ b) := by
  simp only [crc32cUpdate, List.foldl_append]
  rw [UInt32.xor_assoc, UInt32.xor_self, UInt32.xor_zero]

namespace Volume

structure RecordOk (r : Record) : Prop where
  inRange : r.doc.InRange
  valid : r.doc.isValidAndCompatible = true
  shape : r.doc.hasVolumeShape = true
  key : r.doc.firstKey = r.key.toNat
  checksum : r.doc.verifyChecksum (r.header ++ r.content) = true
  len : r.doc.len = kHeaderSize + r.header.length + r.content.length
  headerLen : r.doc.headerLen = r.header.length

variable {r : Record} {m : Memory}

theorem RecordOk.length_image (h : RecordOk r) : (Record.image r).length = r.doc.len := by
  rw [Record.image, List.length_append, List.length_append, Document.length_serialize, h.len]

theorem RecordOk.header_le (h : RecordOk r) : kHeaderSize ≤ r.doc.len := by
  rw [h.len]
  omega

theorem recordOf_ok {b : DocumentBuilder} {d : Document} {slot : Slot}
    (hb : b.build = some d) (hnext : b.nextAlternateOffset < 2 ^ 64)
    (hserial : slot.fillSerial < 2 ^ 16) : RecordOk (recordOf b d slot) := by
  unfold DocumentBuilder.build at hb
  split at hb <;> cases hb
  next hlen =>
  have hkey := b.key.isLt
  have hsum := UInt32.toNat_lt
    (crc32cUpdate (crc32cUpdate b.document.checksumHeaderSeed b.header) b.content)
  have hid := UInt8.toNat_lt b.alternateId
  simp only [kHeaderSize] at hlen
  refine ⟨?_, rfl, ?_, rfl, ?_, rfl, rfl⟩
  · intro f hf
    generalize UInt32.toNat _ = checksum at hsum hf
    simp only [recordOf, stamped, Document.fields, DocumentBuilder.document,
      Document.kMagic, Document.kVersionMajor, Document.kSingleFrag, kHeaderSize,
      List.mem_cons, List.not_mem_nil, or_false] at hf
    rcases hf with rfl | rfl | rfl | rfl | rfl | rfl | rfl | rfl | rfl | rfl | rfl | rfl |
      rfl | rfl | rfl | rfl | rfl | rfl | rfl | rfl <;> simp only [] <;> omega
  · simp only [recordOf, stamped, Document.hasVolumeShape, DocumentBuilder.document,
      beq_self_eq_true, Bool.true_and, Bool.and_eq_true, beq_iff_eq]
    exact ⟨⟨decide_eq_true (by omega), decide_eq_true (by omega)⟩, by omega⟩
  · simp only [recordOf, Document.verifyChecksum, beq_iff_eq]
    rw [← crc32cUpdate_append]
    rfl

structure Intact (m : Memory) (r : Record) : Prop where
  header : Document.SameOutsideInPlace (Document.deserialize m r.start) r.doc
  payload : Holds m (r.start + kHeaderSize) (r.header ++ r.content)

theorem deserialize_image (hr : RecordOk r) (h : Holds m r.start (Record.image r)) :
    Document.deserialize m r.start = r.doc := by
  rw [Record.image, List.append_assoc, holds_append] at h
  exact Document.deserialize_of_holds hr.inRange h.1

theorem intact_of_holds (hr : RecordOk r) (h : Holds m r.start (Record.image r)) : Intact m r := by
  refine ⟨?_, ?_⟩
  · rw [deserialize_image hr h]
    exact .refl _
  · rw [Record.image, List.append_assoc, holds_append, Document.length_serialize] at h
    exact h.2

theorem Intact.congr {m' : Memory} (h : Intact m r) (hr : RecordOk r)
    (heq : ∀ x, r.start ≤ x → x < r.start + r.doc.len → (x < r.start + Document.kHitCountOffset ∨
        r.start + Document.kLastAccessOffset + 8 ≤ x) → m' x = m x) : Intact m' r := by
  have hlen := hr.len
  refine ⟨.trans (Document.sameOutsideInPlace_of_congr ?_) h.header, h.payload.congr ?_⟩
  · intro x hle hlt hout
    exact heq x hle (by omega) hout
  · intro x hle hlt
    rw [List.length_append] at hlt
    refine heq x (by omega) (by omega) (.inr ?_)
    simp only [kHeaderSize, Document.kLastAccessOffset] at hle ⊢
    omega

section

variable {m : Memory} {r : Record} (hr : RecordOk r) (h : Intact m r)
include hr h

variable {size : Nat}

theorem payload_intact (hsize : r.doc.len ≤ size) :
    payload m r.start size (Document.deserialize m r.start) = r.header ++ r.content := by
  have hlen := hr.len
  have hn : min ((Document.deserialize m r.start).len - kHeaderSize) (size - kHeaderSize) =
      (r.header ++ r.content).length := by
    rw [List.length_append, h.header.fields.1]
    omega
  rw [payload, hn]
  exact readAt_of_holds h.payload

theorem verifyChecksum_intact (hsize : r.doc.len ≤ size) :
    (Document.deserialize m r.start).verifyChecksum
      (payload m r.start size (Document.deserialize m r.start)) = true := by
  rw [payload_intact hr h hsize, Document.verifyChecksum, Document.checksumHeaderSeed,
    h.header.checks.2.2, h.header.fields.2.2.2.2.2.2.2]
  exact hr.checksum

theorem serve_intact (hsize : r.doc.len ≤ size) : serve m r.start size =
      ⟨some r.start, Document.deserialize m r.start, r.header, r.content⟩ := by
  have hlen := hr.len
  have hpay := holds_append.mp h.payload
  have hheader : headerBytes m r.start size (Document.deserialize m r.start) = r.header := by
    rw [headerBytes, h.header.fields.2.1, if_neg (by rw [hr.headerLen]; omega), hr.headerLen]
    exact readAt_of_holds hpay.1
  have hcontent : contentBytes m r.start size (Document.deserialize m r.start) = r.content := by
    simp only [contentBytes, h.header.fields.1, h.header.fields.2.1, hr.headerLen]
    rw [if_neg (by omega), show min (r.doc.len - (kHeaderSize + r.header.length))
        (size - (kHeaderSize + r.header.length)) = r.content.length by omega,
      ← Nat.add_assoc]
    exact readAt_of_holds hpay.2
  rw [serve, hheader, hcontent]

theorem readerValid_intact {env : Env} (haligned : r.start % 8 = 0) (hsize : kHeaderSize ≤ size) :
    env.readerValid m r.start size = true := by
  have hbase := env.offset_aligned
  simp only [Env.readerValid, h.header.checks.1, hr.valid, Bool.and_true, Bool.and_eq_true,
    beq_iff_eq, decide_eq_true_eq]
  exact ⟨by omega, hsize⟩

theorem mapDocument_intact {env : Env} {initialSize : Nat} (haligned : r.start % 8 = 0)
    (hin : r.start + r.doc.len ≤ env.stripe.size) (hinit : kHeaderSize ≤ initialSize) :
    env.mapDocument m r.start initialSize =
      if env.mapRegion r.start initialSize then some (max initialSize r.doc.len) else none := by
  have hfile := env.in_file
  have hmap : env.mapRegion r.start r.doc.len = true := by
    simp only [Env.mapRegion, decide_eq_true_eq]
    omega
  rw [Env.mapDocument, readerValid_intact hr h haligned hinit, h.header.fields.1]
  cases env.mapRegion r.start initialSize with
  | false => rfl
  | true =>
    rw [if_neg (by simp), if_pos rfl]
    dsimp only
    split
    · next hlong =>
      rw [if_neg (by omega), hmap, readerValid_intact hr h haligned hr.header_le,
        Nat.max_eq_right (by omega)]
      rfl
    · next hshort => rw [Nat.max_eq_left (by omega)]

end

end Volume

end CycloneCache.Ref

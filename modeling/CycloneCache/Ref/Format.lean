import CycloneCache.Ref.Document

/-!
# Building and reading a document's bytes

What `DocumentBuilder` makes is a list of bytes, and `DocumentReader` looks
at one. The builder fills in the checksum last, over a head that already
exists; two fields are stamped when the slot is known, and three are stored
in place as long as the document lives. All of these are patches of the same
bytes. A volume writes only single fragments and leaves the other settings
of the builder alone (`DocumentBuilder` in `Document`).
-/

namespace CycloneCache.Ref.Format

open Lib

def kFillSerialOffset : Nat := 88

def kWriteSerialOffset : Nat := 92

def kChecksumOffset : Nat := 100

/-- `DocumentBuilder`, with all its settings. -/
structure Builder where
  key : CacheKey := 0
  header : List UInt8 := []
  content : List UInt8 := []
  type : UInt8 := 4
  flags : UInt8 := 0
  totalLen : UInt64 := 0
  fragOffset : UInt32 := 0
  enableChecksum : Bool := true
  alternateId : UInt8 := 0
  nextAlternateOffset : UInt64 := 0
  hitCount : UInt32 := 0
  lastAccess : Int64 := 0

namespace Builder

variable (b : Builder)

/-- The fixed header for this content, without a checksum. -/
def document (content : List UInt8) : Document where
  magic := Document.kMagic
  len := kHeaderSize + b.header.length + content.length
  totalLen := if b.totalLen > 0 then b.totalLen.toNat else content.length
  firstKey := b.key.toNat
  fragmentKey := b.key.toNat
  headerLen := b.header.length
  docType := b.type.toNat
  versionMajor := Document.kVersionMajor
  versionMinor := 0
  flags := b.flags.toNat
  fillSerial := 0
  writeSerial := 0
  pinUntil := 0
  checksum := 0
  fragOffset := b.fragOffset.toNat
  hitCount := b.hitCount.toNat
  nextAlternateOffset := b.nextAlternateOffset.toNat
  lastAccess := b.lastAccess.toBitVec.toNat
  alternateId := b.alternateId.toNat
  reserved2 := 0

/-- The checksum over the canonical header, the header bytes and the content. -/
def checksum (content : List UInt8) : UInt32 :=
  crc32cUpdate (crc32cUpdate (b.document content).checksumHeaderSeed b.header) content

/-- `serialize_head`; nothing when a length does not fit its field. -/
def serializeHead (content : List UInt8) : List UInt8 :=
  if kHeaderSize + b.header.length + content.length > 2 ^ 32 - 1 then []
  else if b.header.length > 2 ^ 32 - 1 then []
  else
    let result := (b.document content).serialize ++ b.header
    if b.enableChecksum then
      patchAt result kChecksumOffset (leBytes 4 (b.checksum content).toNat)
    else result

def build : List UInt8 :=
  match b.serializeHead b.content with
  | [] => []
  | head => head ++ b.content

/-- `build_head`: the content set before is ignored. -/
def buildHead (content : List UInt8) : List UInt8 := b.serializeHead content

end Builder

/-- `DocumentReader` -/
structure Reader where
  data : List UInt8
  document : Document
  valid : Bool

namespace Reader

/-- The reader's constructor. Fewer bytes than a header leave it invalid. -/
def of (data : List UInt8) : Reader :=
  if kHeaderSize ≤ data.length then
    let doc := Document.deserialize (memoryOf data) 0
    ⟨data, doc, doc.isValidAndCompatible⟩
  else ⟨data, Document.ofFields [], false⟩

variable (r : Reader)

def isServable : Bool := r.valid && r.document.hasVolumeShape

def subspan (offset len : Nat) : List UInt8 := (r.data.drop offset).take len

def header : List UInt8 :=
  if !r.valid ∨ r.data.length < kHeaderSize ∨
      r.document.headerLen > r.data.length - kHeaderSize then []
  else r.subspan kHeaderSize r.document.headerLen

def content : List UInt8 :=
  if !r.valid then []
  else if r.document.len < kHeaderSize ∨
      r.document.headerLen > r.document.len - kHeaderSize then []
  else
    let start := kHeaderSize + r.document.headerLen
    if start > r.data.length then []
    else
      let len := r.document.len - kHeaderSize - r.document.headerLen
      r.subspan start (if start + len > r.data.length then r.data.length - start else len)

def payload : List UInt8 :=
  if !r.valid ∨ r.data.length ≤ kHeaderSize then []
  else
    let len := if r.document.len > kHeaderSize then r.document.len - kHeaderSize else 0
    r.subspan kHeaderSize
      (if kHeaderSize + len > r.data.length then r.data.length - kHeaderSize else len)

def firstKey : CacheKey := BitVec.ofNat 256 r.document.firstKey

def fragmentKey : CacheKey := BitVec.ofNat 256 r.document.fragmentKey

def verifyChecksum : Bool := r.document.verifyChecksum r.payload

end Reader

/-- A store into one of the fields outside the checksum. -/
inductive Patch where
  | writeSerial (v : UInt32)
  | fillSerial (v : UInt32)
  | hitCount (v : UInt32)
  | nextAlternateOffset (v : UInt64)
  | lastAccess (v : Int64)

namespace Patch

def offset : Patch → Nat
  | .writeSerial _ => kWriteSerialOffset
  | .fillSerial _ => kFillSerialOffset
  | .hitCount _ => Document.kHitCountOffset
  | .nextAlternateOffset _ => Document.kNextAlternateOffsetPos
  | .lastAccess _ => Document.kLastAccessOffset

def bytes : Patch → List UInt8
  | .writeSerial v | .fillSerial v | .hitCount v => leBytes 4 v.toNat
  | .nextAlternateOffset v => leBytes 8 v.toNat
  | .lastAccess v => leBytes 8 v.toBitVec.toNat

def apply (data : List UInt8) (patch : Patch) : List UInt8 :=
  if data.length < kHeaderSize then data else patchAt data patch.offset patch.bytes

/-- The field of the parsed header. -/
def set (d : Document) : Patch → Document
  | .writeSerial v => { d with writeSerial := v.toNat }
  | .fillSerial v => { d with fillSerial := v.toNat }
  | .hitCount v => { d with hitCount := v.toNat }
  | .nextAlternateOffset v => { d with nextAlternateOffset := v.toNat }
  | .lastAccess v => { d with lastAccess := v.toBitVec.toNat }

end Patch

/-- The values of those fields. -/
structure InPlace where
  writeSerial : UInt32
  fillSerial : UInt32
  hitCount : UInt32
  nextAlternateOffset : UInt64
  lastAccess : Int64
  deriving DecidableEq

def InPlace.patch (v : InPlace) : Patch → InPlace
  | .writeSerial x => { v with writeSerial := x }
  | .fillSerial x => { v with fillSerial := x }
  | .hitCount x => { v with hitCount := x }
  | .nextAlternateOffset x => { v with nextAlternateOffset := x }
  | .lastAccess x => { v with lastAccess := x }

def InPlace.of (d : Document) : InPlace :=
  ⟨.ofNat d.writeSerial, .ofNat d.fillSerial, .ofNat d.hitCount, .ofNat d.nextAlternateOffset,
    .ofBitVec (.ofNat 64 d.lastAccess)⟩

def patchPassStamp (doc : List UInt8) (pass : UInt64) : List UInt8 :=
  Patch.apply doc (.writeSerial pass.toUInt32)

def patchFillSerial (doc : List UInt8) (serial : UInt16) : List UInt8 :=
  Patch.apply doc (.fillSerial serial.toUInt32)

end CycloneCache.Ref.Format

import CycloneCache.Lib.Bytes
import CycloneCache.Ref.Stripe

/-!
# Documents on disk

A document is a fixed header of 132 bytes, the caller's header bytes and the
content. The fixed header is a table of fields (`kDocumentFields`), copied to
disk one after the other; a reader gets it back by the same table. The
checksum covers the header, with the fields that are stored in place set to
zero, and everything behind it.
-/

namespace CycloneCache.Ref

open Lib

/-- A SHA-256 digest. -/
abbrev CacheKey := BitVec 256

namespace CacheKey

def segmentHash (key : CacheKey) : Nat := key.toNat % 2 ^ 32

def bucketHash (key : CacheKey) : Nat := key.toNat / 2 ^ 32 % 2 ^ 32

/-- The 12-bit collision tag. -/
def tag (key : CacheKey) : Nat := key.toNat / 2 ^ 64 % 2 ^ 12

end CacheKey

/-- One byte into the CRC-32C register, lowest bit first. -/
def crcByte (crc : UInt32) (b : UInt8) : UInt32 :=
  let shift := fun c : UInt32 =>
    if c &&& 1 = 1 then (c >>> 1) ^^^ 0x82F63B78 else c >>> 1
  shift (shift (shift (shift (shift (shift (shift (shift (crc ^^^ b.toUInt32))))))))

def crc32cUpdate (state : UInt32) (data : List UInt8) : UInt32 :=
  (data.foldl crcByte (state ^^^ 0xFFFFFFFF)) ^^^ 0xFFFFFFFF

/-- The check value of the CRC: the digits 1 to 9. -/
example : crc32cUpdate 0 [49, 50, 51, 52, 53, 54, 55, 56, 57] = 0xE3069283 := by
  decide +kernel

structure Document where
  magic : Nat
  len : Nat
  totalLen : Nat
  firstKey : Nat
  fragmentKey : Nat
  headerLen : Nat
  docType : Nat
  versionMajor : Nat
  versionMinor : Nat
  flags : Nat
  fillSerial : Nat
  writeSerial : Nat
  pinUntil : Nat
  checksum : Nat
  fragOffset : Nat
  hitCount : Nat
  nextAlternateOffset : Nat
  lastAccess : Nat
  alternateId : Nat
  reserved2 : Nat
  deriving DecidableEq

namespace Document

def kMagic : Nat := 0x5F129B14

def kVersionMajor : Nat := 9

/-- `Type::SingleFrag` -/
def kSingleFrag : Nat := 4

/-- `kDocumentFields`: widths and values, in wire order. -/
def fields (d : Document) : List (Nat × Nat) :=
  [(4, d.magic), (4, d.len), (8, d.totalLen), (32, d.firstKey), (32, d.fragmentKey),
    (4, d.headerLen), (1, d.docType), (1, d.versionMajor), (1, d.versionMinor),
    (1, d.flags), (4, d.fillSerial), (4, d.writeSerial), (4, d.pinUntil),
    (4, d.checksum), (4, d.fragOffset), (4, d.hitCount), (8, d.nextAlternateOffset),
    (8, d.lastAccess), (1, d.alternateId), (3, d.reserved2)]

def widths : List Nat := [4, 4, 8, 32, 32, 4, 1, 1, 1, 1, 4, 4, 4, 4, 4, 4, 8, 8, 1, 3]

def ofFields : List Nat → Document
  | [magic, len, totalLen, firstKey, fragmentKey, headerLen, docType, versionMajor,
      versionMinor, flags, fillSerial, writeSerial, pinUntil, checksum, fragOffset,
      hitCount, nextAlternateOffset, lastAccess, alternateId, reserved2] =>
      ⟨magic, len, totalLen, firstKey, fragmentKey, headerLen, docType, versionMajor,
        versionMinor, flags, fillSerial, writeSerial, pinUntil, checksum, fragOffset,
        hitCount, nextAlternateOffset, lastAccess, alternateId, reserved2⟩
  | _ => ⟨0, 0, 0, 0, 0, 0, 0, 0, 0, 0, 0, 0, 0, 0, 0, 0, 0, 0, 0, 0⟩

/-- `serialize_to` -/
def serialize (d : Document) : List UInt8 := putFields d.fields

def deserialize (m : Memory) (a : Nat) : Document := ofFields (fieldsAt m a widths)

def kHitCountOffset : Nat := 108

def kNextAlternateOffsetPos : Nat := 112

def kLastAccessOffset : Nat := 120

def kLinkSerialShift : Nat := 48

def makeLink (relOffset serial : Nat) : Nat :=
  if relOffset = 0 then 0
  else relOffset % 2 ^ kLinkSerialShift + serial % 2 ^ 16 * 2 ^ kLinkSerialShift

def linkOffset (link : Nat) : Nat := link % 2 ^ kLinkSerialShift

def linkSerial (link : Nat) : Nat := link / 2 ^ kLinkSerialShift % 2 ^ 16

def boundByLink (d : Document) (link : Nat) : Bool := d.fillSerial == linkSerial link

def isValidAndCompatible (d : Document) : Bool :=
  d.magic == kMagic && d.versionMajor == kVersionMajor

/-- `has_volume_shape`: the length and type fields agree. -/
def hasVolumeShape (d : Document) : Bool :=
  d.docType == kSingleFrag && d.fragOffset == 0 && kHeaderSize ≤ d.len &&
    d.headerLen ≤ d.len - kHeaderSize &&
    d.totalLen == d.len - kHeaderSize - d.headerLen

/-- The header as the checksum sees it. -/
def canonical (d : Document) : Document :=
  { d with
    fillSerial := 0, writeSerial := 0, checksum := 0, hitCount := 0,
    nextAlternateOffset := 0, lastAccess := 0 }

def checksumHeaderSeed (d : Document) : UInt32 := crc32cUpdate 0 d.canonical.serialize

def verifyChecksum (d : Document) (payload : List UInt8) : Bool :=
  d.checksum == (crc32cUpdate d.checksumHeaderSeed payload).toNat

/-- Equal but for the fields that are stored in place. -/
def SameOutsideInPlace (d d' : Document) : Prop :=
  { d with hitCount := 0, nextAlternateOffset := 0, lastAccess := 0 } =
    { d' with hitCount := 0, nextAlternateOffset := 0, lastAccess := 0 }

end Document

/-- What a caller writes: the key, its header bytes, the content, and for an
alternate its id, link and time. -/
structure DocumentBuilder where
  key : CacheKey
  header : List UInt8
  content : List UInt8
  alternateId : UInt8
  nextAlternateOffset : Nat
  lastAccess : Nat

namespace DocumentBuilder

/-- The fixed header before its checksum is filled in. -/
def document (b : DocumentBuilder) : Document where
  magic := Document.kMagic
  len := kHeaderSize + b.header.length + b.content.length
  totalLen := b.content.length
  firstKey := b.key.toNat
  fragmentKey := b.key.toNat
  headerLen := b.header.length
  docType := Document.kSingleFrag
  versionMajor := Document.kVersionMajor
  versionMinor := 0
  flags := 0
  fillSerial := 0
  writeSerial := 0
  pinUntil := 0
  checksum := 0
  fragOffset := 0
  hitCount := 0
  nextAlternateOffset := b.nextAlternateOffset
  lastAccess := b.lastAccess % 2 ^ 64
  alternateId := b.alternateId.toNat
  reserved2 := 0

/-- `build`: refused when the length does not fit its field. -/
def build (b : DocumentBuilder) : Option Document :=
  if kHeaderSize + b.header.length + b.content.length > 2 ^ 32 - 1 then none
  else
    some { b.document with
      checksum :=
        (crc32cUpdate (crc32cUpdate b.document.checksumHeaderSeed b.header)
          b.content).toNat }

end DocumentBuilder

end CycloneCache.Ref

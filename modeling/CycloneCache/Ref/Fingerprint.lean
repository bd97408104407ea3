import CycloneCache.Ref.StripeTiling

/-!
# Names of cache files

The file of a volume carries the format and the layout in its name: between
stem and extension stands `-<format>-<hash>`, the format in decimal and the
hash of the geometry in sixteen hex digits. A name that already ends so is
left as it is, an unsized volume takes the newest file whose name could be
its own, and the collector of superseded files recognises its candidates by
the same tail.

A string is the list of its characters. Paths are those of POSIX, where
`filesystem::path` keeps the bytes as they are. What a directory has in it is
an argument.
-/

namespace CycloneCache.Ref.Fingerprint

open Lib
open StripeTiling (SizeT sizeT Geometry computeStripeGeometry)
open Volume (kVolumeHeaderSize)

abbrev Str := List Char

/-! ## The tail of a stem -/

def isDigit (c : Char) : Bool := '0' ≤ c && c ≤ '9'

/-- Hex digits as the hash has them. -/
def isHex (c : Char) : Bool := ('0' ≤ c && c ≤ '9') || ('a' ≤ c && c ≤ 'f')

/-- `stem[i]` -/
def charAt (s : Str) (i : Nat) : Char := s.getD i '\x00'

/-- `while (d > 0 && stem[d - 1] is a digit) --d` -/
def digitRunStart (stem : Str) : Nat → Nat
  | 0 => 0
  | d + 1 => if isDigit (charAt stem d) then digitRunStart stem d else d + 1

def stemIsFingerprinted (stem : Str) : Bool :=
  if stem.length < 19 then false
  else
    let hexBegin := stem.length - 16
    if !(stem.drop hexBegin).all isHex then false
    else if hexBegin < 1 || charAt stem (hexBegin - 1) != '-' then false
    else
      let d := digitRunStart stem (hexBegin - 1)
      if d = hexBegin - 1 then false
      else d ≥ 1 && charAt stem (d - 1) == '-'

def fingerprintBaseStem (stem : Str) : Str :=
  if !stemIsFingerprinted stem then stem
  else
    let hexBegin := stem.length - 16
    let d := digitRunStart stem (hexBegin - 1)
    stem.take (d - 1)

/-! ## Paths -/

/-- `path::filename` -/
def filename (path : Str) : Str := (path.reverse.takeWhile (· ≠ '/')).reverse

/-- `path::parent_path` -/
def parentPath (path : Str) : Str :=
  let head := path.reverse.dropWhile (· ≠ '/')
  let dir := (head.dropWhile (· = '/')).reverse
  if head = [] then [] else if dir = [] then ['/'] else dir

/-- `dir / name` for a relative name. -/
def join (dir name : Str) : Str :=
  if dir = [] ∨ dir.getLast? = some '/' then dir ++ name else dir ++ '/' :: name

/-- Stem and extension of a file name: the last dot parts them, unless it is
the first character or the name is one of the two special ones. -/
def splitName (name : Str) : Str × Str :=
  if name = ['.'] ∨ name = ['.', '.'] then (name, [])
  else
    let upToDot := (name.reverse.dropWhile (· ≠ '.')).length
    if upToDot ≤ 1 then (name, []) else (name.take (upToDot - 1), name.drop (upToDot - 1))

/-- `path::stem` -/
def stem (path : Str) : Str := (splitName (filename path)).1

/-- `path::extension` -/
def extension (path : Str) : Str := (splitName (filename path)).2

/-! ## The hash of the geometry -/

def kFnv1a64OffsetBasis : BitVec 64 := 0xcbf29ce484222325

def kFnv1a64Prime : BitVec 64 := 0x100000001b3

def fnv1a64Step (h : BitVec 64) (byte : BitVec 8) : BitVec 64 :=
  (h ^^^ byte.setWidth 64) * kFnv1a64Prime

/-- `mix_u8`, `mix_u16_le` and `mix_u64_le`: the low bytes, the lowest first. -/
def mixLe (bytes : Nat) (h v : BitVec 64) : BitVec 64 :=
  (List.range bytes).foldl (fun h i => fnv1a64Step h ((v >>> (8 * i)).setWidth 8)) h

/-- `VolumeHeader::kFormatVersionMajor` -/
def kFormatVersionMajor : Nat := 9

def geohash (g : Geometry) (mmapDirectory : Bool) : BitVec 64 :=
  let h := mixLe 2 kFnv1a64OffsetBasis (sizeT kFormatVersionMajor)
  let h := mixLe 1 h (if mmapDirectory then 1 else 0)
  let h := mixLe 8 h g.numStripes
  let h := mixLe 8 h g.baseStripeSize
  let h := mixLe 8 h g.stripeRemainder
  if mmapDirectory then mixLe 2 h (sizeT DirectoryLayout.kVersion) else h

def kHex : Str := "0123456789abcdef".toList

/-- All sixteen digits, the most significant first. -/
def hexDigits (h : BitVec 64) : Str :=
  (List.range 16).map fun i => charAt kHex ((h >>> (4 * (15 - i))) &&& 0xF).toNat

/-! ## The names -/

/-- `std::to_string(kFormatVersionMajor)` -/
def formatText : Str := Nat.toDigits 10 kFormatVersionMajor

/-- What stands before the hash. -/
def beforeHash (stem : Str) : Str := stem ++ '-' :: formatText ++ ['-']

/-- The test of `resolve_unsized_cache_path` on the name of a file. -/
def isCandidate (path name : Str) : Bool :=
  let lead := beforeHash (stem path)
  let ext := extension path
  if name.length ≠ lead.length + 16 + ext.length || name.take lead.length ≠ lead then false
  else if ext ≠ [] && name.drop (name.length - ext.length) ≠ ext then false
  else ((name.drop lead.length).take 16).all isHex

/-- A file of a directory, and its time of modification if that can be read. -/
structure Listed where
  name : Str
  mtime : Option Nat

/-- One round of the loop over the directory. -/
def preferred (path dir : Str) (best : Str × Nat) (file : Listed) : Str × Nat :=
  if !isCandidate path file.name then best
  else
    match file.mtime with
    | none => best
    | some mtime =>
      let full := join dir file.name
      if best.1 = [] ∨ mtime > best.2 ∨ (mtime = best.2 ∧ full > best.1) then (full, mtime)
      else best

def resolveUnsizedCachePath (listing : List Listed) (path : Str) : Str :=
  let dir := if parentPath path = [] then ['.'] else parentPath path
  let best := listing.foldl (preferred path dir) ([], 0)
  if best.1 = [] then path else best.1

def fingerprintCachePath (listing : List Listed) (path : Str) (size stripeSize : SizeT)
    (mmapDirectory : Bool) : Str :=
  if size < sizeT kVolumeHeaderSize then resolveUnsizedCachePath listing path
  else if stemIsFingerprinted (stem path) then path
  else
    let g := computeStripeGeometry size stripeSize
    let newStem := beforeHash (stem path) ++ hexDigits (geohash g mmapDirectory)
    join (parentPath path) (newStem ++ extension path)

end CycloneCache.Ref.Fingerprint

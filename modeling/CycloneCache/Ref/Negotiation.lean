import CycloneCache.Lib.Choice
import CycloneCache.Ref.HttpDate

/-!
# Content negotiation

The quality that the list headers of a request give to a stored response. A q
value is an element of a linear order; what the code's `parse_q_value` makes of
a text and the two values it has of its own are a `Scale`.
-/

namespace CycloneCache.Ref.Http

open Lib

universe u

variable {Q : Type u} [LinearOrder Q]

structure Scale (Q : Type u) where
  zero : Q
  one : Q
  parseQValue : Str → Q

structure RangeItem (Q : Type u) where
  token : Str
  q : Q

/-- A parameter of an element: the last `q` counts. -/
def readParam (sc : Scale Q) (q : Q) (param : Str) : Q :=
  if 61 ∈ param ∧ iequals (trim (param.takeWhile (· != 61))) [113] then
    sc.parseQValue (trim ((param.dropWhile (· != 61)).drop 1))
  else q

def parseRangeItem (sc : Scale Q) (item : Str) : RangeItem Q where
  token := trim ((item.splitOn 59).headD [])
  q := (item.splitOn 59).tail.foldl (readParam sc) sc.one

/-- What `for_each_range` calls its function with; an element without a token is
left out. -/
def ranges (sc : Scale Q) (list : Str) : List (RangeItem Q) :=
  ((list.splitOn 44).map (parseRangeItem sc)).filter fun item => item.token ≠ []

/-- A round of the three loops. `rank` is the specificity of a range that
matches. That none has matched yet, which they keep as a specificity of zero or
as a flag, is `none`. -/
def consider (rank : Str → Option Nat) (best : Option (Nat × Q)) (item : RangeItem Q) :
    Option (Nat × Q) :=
  match rank item.token with
  | none => best
  | some s => keepBest best (s, item.q)

def negotiate (sc : Scale Q) (rank : Str → Option Nat) (fallback : Q) (list : Str) : Q :=
  match (ranges sc list).foldl (consider rank) none with
  | none => fallback
  | some best => best.2

/-- Any type, all of a type, or the type itself. -/
def acceptRank (type subtype range : Str) : Option Nat :=
  if range = [42, 47, 42] then some 1
  else if 2 < range.length ∧ range.drop (range.length - 2) = [47, 42] then
    if iequals (range.take (range.length - 2)) type then some 2 else none
  else if 47 ∈ range ∧ iequals (range.takeWhile (· != 47)) type ∧
      iequals ((range.dropWhile (· != 47)).drop 1) subtype then some 3
  else none

def calculateAcceptQuality (sc : Scale Q) (accept contentType : Str) : Q :=
  if accept = [] then sc.one
  else if 47 ∉ contentType then sc.zero
  else
    let type := trim (contentType.takeWhile (· != 47))
    let subtype := (contentType.dropWhile (· != 47)).drop 1
    negotiate sc (acceptRank type (trim (subtype.takeWhile (· != 59)))) sc.zero accept

def encodingRank (coding token : Str) : Option Nat :=
  if iequals token coding then some 2 else if token = [42] then some 1 else none

def kIdentity : Str := str ['i', 'd', 'e', 'n', 't', 'i', 't', 'y']

def calculateAcceptEncodingQuality (sc : Scale Q) (acceptEncoding coding : Str) : Q :=
  if acceptEncoding = [] then sc.one
  else negotiate sc (encodingRank coding) (if iequals coding kIdentity then sc.one else sc.zero)
    acceptEncoding

/-- The length of a range that is the language, or a part of it up to a hyphen. -/
def languageRank (language range : Str) : Option Nat :=
  if range = [42] then some 0
  else if iequals range language then some range.length
  else if range.length < language.length ∧ iequals (language.take range.length) range ∧
      language[range.length]? = some 45 then some range.length
  else none

def calculateAcceptLanguageQuality (sc : Scale Q) (acceptLanguage language : Str) : Q :=
  if acceptLanguage = [] then sc.one
  else negotiate sc (languageRank language) sc.zero acceptLanguage

end CycloneCache.Ref.Http

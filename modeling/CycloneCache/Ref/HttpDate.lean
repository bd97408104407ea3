import Mathlib.Tactic
import Mathlib.Data.List.DropRight

/-!
# HTTP dates

The text helpers of the HTTP plugin and `parse_http_date`. A string is a list
of bytes; `-1` for a number that cannot be read and `0` for a month that is
none are both `none`. The year of the clock, which only the two-digit form
reads, is a parameter.
-/

namespace CycloneCache.Ref.Http

abbrev Str := List UInt8

def str (cs : List Char) : Str := cs.map fun c => c.toNat.toUInt8

def lowerByte (b : UInt8) : UInt8 := if 65 ≤ b && b ≤ 90 then b + 32 else b

def lowerName (name : Str) : Str := name.map lowerByte

def iequals (a b : Str) : Bool := lowerName a == lowerName b

/-- A blank: space or tab. -/
def isOws (b : UInt8) : Bool := b == 32 || b == 9

/-- Both ends cut off while they satisfy the tests. -/
def trimBy (front back : UInt8 → Bool) (s : Str) : Str := (s.dropWhile front).rdropWhile back

def trim (s : Str) : Str := trimBy isOws isOws s

def toEpoch (year month day hour minute second : Nat) : Option Int :=
  if month < 1 ∨ 12 < month ∨ day < 1 ∨ 31 < day ∨ year < 1970 ∨ 23 < hour ∨ 59 < minute ∨
      60 < second then none
  else
    let y := if month ≤ 2 then year - 1 else year
    let era := y / 400
    let yoe := y - era * 400
    let doy := (153 * (if 2 < month then month - 3 else month + 9) + 2) / 5 + day - 1
    let doe := yoe * 365 + yoe / 4 - yoe / 100 + doy
    let days : Int := (era * 146097 + doe : Nat) - 719468
    some (days * 86400 + (hour * 3600 + minute * 60 + second : Nat))

def kMonths : List Str :=
  [['J', 'a', 'n'], ['F', 'e', 'b'], ['M', 'a', 'r'], ['A', 'p', 'r'], ['M', 'a', 'y'],
    ['J', 'u', 'n'], ['J', 'u', 'l'], ['A', 'u', 'g'], ['S', 'e', 'p'], ['O', 'c', 't'],
    ['N', 'o', 'v'], ['D', 'e', 'c']].map str

def parseMonth (v : Str) : Option Nat := (kMonths.findIdx? (iequals v)).map (· + 1)

def digitsValue (r : Nat) : Str → Option Nat
  | [] => some r
  | c :: cs => if c < 48 || 57 < c then none else digitsValue (r * 10 + (c.toNat - 48)) cs

/-- A run of exactly `len` digits. -/
def parseDigits (v : Str) (pos len : Nat) : Option Nat :=
  if v.length < pos + len then none else digitsValue 0 ((v.drop pos).take len)

/-- "hh:mm:ss". -/
def parseClock (v : Str) (pos : Nat) : Option (Nat × Nat × Nat) :=
  if v.length < pos + 8 || v.getD (pos + 2) 0 != 58 || v.getD (pos + 5) 0 != 58 then none
  else do
    let h ← parseDigits v pos 2
    let m ← parseDigits v (pos + 3) 2
    let s ← parseDigits v (pos + 6) 2
    return (h, m, s)

/-- Every listed place holds its byte. -/
def marks (v : Str) (ps : List (Nat × UInt8)) : Bool := ps.all fun p => v.getD p.1 0 == p.2

def parseImf (rest : Str) : Option Int :=
  if !marks rest [(2, 32), (6, 32), (11, 32), (20, 32)] || rest.drop 21 != str ['G', 'M', 'T'] then
    none
  else do
    let day ← parseDigits rest 0 2
    let month ← parseMonth ((rest.drop 3).take 3)
    let year ← parseDigits rest 7 4
    let (h, mi, sec) ← parseClock rest 12
    toEpoch year month day h mi sec

def parseRfc850 (currentYear : Nat) (rest : Str) : Option Int :=
  if !marks rest [(2, 45), (6, 45), (9, 32), (18, 32)] || rest.drop 19 != str ['G', 'M', 'T'] then
    none
  else do
    let day ← parseDigits rest 0 2
    let month ← parseMonth ((rest.drop 3).take 3)
    let yy ← parseDigits rest 7 2
    let (h, mi, sec) ← parseClock rest 10
    let year := currentYear / 100 * 100 + yy
    toEpoch (if currentYear + 50 < year then year - 100 else year) month day h mi sec

def parseAsctime (v : Str) : Option Int :=
  if v.length != 24 || !marks v [(3, 32), (7, 32), (10, 32), (19, 32)] then none
  else do
    let month ← parseMonth ((v.drop 4).take 3)
    let day ← (if v.getD 8 0 == 32 then parseDigits v 9 1 else parseDigits v 8 2)
    let (h, mi, sec) ← parseClock v 11
    let year ← parseDigits v 20 4
    toEpoch year month day h mi sec

def parseHttpDate (currentYear : Nat) (v : Str) : Option Int :=
  let v := trim v
  if v.contains 44 then
    let rest := trim ((v.dropWhile (· != 44)).drop 1)
    if rest.length = 24 then parseImf rest
    else if rest.length = 22 then parseRfc850 currentYear rest
    else none
  else parseAsctime v

/-! The calendar that the dates are read against: one day after the other. -/

def isLeap (year : Nat) : Bool := year % 4 == 0 && (year % 100 != 0 || year % 400 == 0)

def daysInMonth (year month : Nat) : Nat :=
  if month = 2 then if isLeap year then 29 else 28
  else if month = 4 ∨ month = 6 ∨ month = 9 ∨ month = 11 then 30 else 31

structure Date where
  year : Nat
  month : Nat
  day : Nat
  deriving DecidableEq

def Date.next (d : Date) : Date :=
  if d.day < daysInMonth d.year d.month then { d with day := d.day + 1 }
  else if d.month < 12 then ⟨d.year, d.month + 1, 1⟩
  else ⟨d.year + 1, 1, 1⟩

/-- The date `n` days after 1970-01-01. -/
def dateOf : Nat → Date
  | 0 => ⟨1970, 1, 1⟩
  | n + 1 => (dateOf n).next

def digit (n : Nat) : UInt8 := UInt8.ofNat (48 + n % 10)

def twoDigits (n : Nat) : Str := [digit (n / 10), digit n]

def fourDigits (n : Nat) : Str := twoDigits (n / 100) ++ twoDigits n

def kDays : List Str :=
  [['T', 'h', 'u'], ['F', 'r', 'i'], ['S', 'a', 't'], ['S', 'u', 'n'], ['M', 'o', 'n'],
    ['T', 'u', 'e'], ['W', 'e', 'd']].map str

def dayName (n : Nat) : Str := kDays.getD (n % 7) []

def monthName (month : Nat) : Str := kMonths.getD (month - 1) []

/-- The time of day in a second `t`. -/
def clockText (t : Nat) : Str :=
  twoDigits (t / 3600 % 24) ++ [58] ++ twoDigits (t / 60 % 60) ++ [58] ++ twoDigits (t % 60)

/-- "Sun, 06 Nov 1994 08:49:37 GMT". -/
def imfFixdate (t : Nat) : Str :=
  let d := dateOf (t / 86400)
  dayName (t / 86400) ++ [44, 32] ++ twoDigits d.day ++ [32] ++ monthName d.month ++ [32] ++
    fourDigits d.year ++ [32] ++ clockText t ++ [32] ++ str ['G', 'M', 'T']

/-- "Sun Nov  6 08:49:37 1994". -/
def asctime (t : Nat) : Str :=
  let d := dateOf (t / 86400)
  dayName (t / 86400) ++ [32] ++ monthName d.month ++ [32] ++
    (if d.day < 10 then [32, digit d.day] else twoDigits d.day) ++ [32] ++ clockText t ++ [32] ++
    fourDigits d.year

end CycloneCache.Ref.Http

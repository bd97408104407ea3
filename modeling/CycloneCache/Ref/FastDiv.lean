import CycloneCache.Ref.Stripe

/-!
# Division by a divisor that is fixed at open

Every probe divides by `N + 1` and by the chunk size. `FastDivU64` multiplies
by a reciprocal instead and corrects the quotient once. What the high half of a
product comes from depends on the target.
-/

namespace CycloneCache.Ref

/-- The divisor and its reciprocal. -/
structure FastDivU64 where
  d : BitVec 64
  m : BitVec 64

namespace FastDivU64

/-- The constructor. -/
def ofDivisor (divisor : BitVec 64) : FastDivU64 :=
  let d := if divisor = 0 then 1 else divisor
  ⟨d, if d ≤ 1 then 0 else ~~~0#64 / d⟩

def mulhiPortable (a b : BitVec 64) : BitVec 64 :=
  let kLo := 0xFFFFFFFF#64
  let aLo := a &&& kLo
  let aHi := a >>> 32
  let bLo := b &&& kLo
  let bHi := b >>> 32
  let loLo := aLo * bLo
  let hiLo := aHi * bLo
  let loHi := aLo * bHi
  let hiHi := aHi * bHi
  let cross := (loLo >>> 32) + (hiLo &&& kLo) + loHi
  hiHi + (hiLo >>> 32) + (cross >>> 32)

inductive Target where
  | umulh
  | int128
  | portable
  deriving DecidableEq

/-- `__umulh` is an instruction: the high word of the product. -/
def mulhi : Target → BitVec 64 → BitVec 64 → BitVec 64
  | .umulh, a, b => BitVec.ofNat 64 (a.toNat * b.toNat / 2 ^ 64)
  | .int128, a, b => ((a.setWidth 128 * b.setWidth 128) >>> 64).setWidth 64
  | .portable, a, b => mulhiPortable a b

def quot (f : FastDivU64) (target : Target) (n : BitVec 64) : BitVec 64 :=
  if f.d = 1 then n
  else
    let q := mulhi target n f.m
    if n - q * f.d ≥ f.d then q + 1 else q

/-- The pass and the frontier that `snapshot` reads off a generation. -/
def snapshot (target : Target) (st : Stripe) (gen : BitVec 64) : BitVec 64 × BitVec 64 :=
  let n := BitVec.ofNat 64 st.chunks
  let pass := (ofDivisor (n + 1)).quot target gen
  let f := gen - pass * (n + 1)
  (pass, if n < f then n else f)

end FastDivU64

end CycloneCache.Ref

import CycloneCache.Lib.Bytes
import CycloneCache.Lib.Run

/-!
# Writing a document in parts

A document goes to the volume as its head and its content, and perhaps some
zeros, without being joined in memory first. `pwrite_parts` writes part after
part, `pwritev_parts` offers all of them to one call. Either is a loop around
a system call that may write less than it was offered, be interrupted or
fail. One step is one call; the answer of the system is its label. An answer
that the system cannot give, nothing written or more than was offered, is
refused.

File offsets are natural numbers: a call that writes ends below 2^63, so the
sum of the offset and what was written stays within its 64 bits.
-/

namespace CycloneCache.Ref.GatheredWrites

open Lib

inductive Call where
  | pwrite
  | pwritev
  deriving DecidableEq

/-- What a call returns: the number of bytes written, `EINTR`, or another error. -/
inductive Answer where
  | wrote (n : Nat)
  | eintr
  | error
  deriving DecidableEq

/-- The call wrote something or failed; it was not interrupted. -/
def Answer.final : Answer → Bool
  | .eintr => false
  | _ => true

/-- `iov` is what is left of the parts; `log` keeps the writes that took place,
each with its offset; `result` is there once the function has returned. -/
structure State where
  iov : List (List UInt8)
  offset : Nat
  file : Memory
  log : List (Nat × List UInt8)
  result : Option Bool

/-- The bytes that the next call is given. -/
def offered : Call → List (List UInt8) → List UInt8
  | .pwrite, iov => iov.headD []
  | .pwritev, iov => iov.flatten

/-- Skip the iovecs that a write completed and trim the one it ended in. -/
def advance : Nat → List (List UInt8) → List (List UInt8)
  | _, [] => []
  | done, part :: iov =>
    if part.length ≤ done then advance (done - part.length) iov else part.drop done :: iov

/-- `part = part.subspan(n)`, and on to the next part that is not empty. -/
def nextPart (n : Nat) : List (List UInt8) → List (List UInt8)
  | [] => []
  | part :: iov => (part.drop n :: iov).dropWhile List.isEmpty

def trim : Call → Nat → List (List UInt8) → List (List UInt8)
  | .pwrite => nextPart
  | .pwritev => advance

/-- The function returns `true` when nothing is left. -/
def finished (iov : List (List UInt8)) : Option Bool := if iov = [] then some true else none

def kMaxParts : Nat := 4

def pwriteParts (parts : List (List UInt8)) (offset : Nat) (file : Memory) : State :=
  let iov := parts.dropWhile List.isEmpty
  { iov, offset, file, log := [], result := finished iov }

def pwritevParts (parts : List (List UInt8)) (offset : Nat) (file : Memory) : State :=
  let iov := parts.filter fun part => !part.isEmpty
  { iov, offset, file, log := [],
    result := if kMaxParts < iov.length then some false else finished iov }

def start : Call → List (List UInt8) → Nat → Memory → State
  | .pwrite => pwriteParts
  | .pwritev => pwritevParts

def step (call : Call) (s : State) (answer : Answer) : Option State :=
  if s.result ≠ none then none
  else
    match answer with
    | .eintr => some s
    | .error => some { s with result := some false }
    | .wrote n =>
      if 0 < n ∧ n ≤ (offered call s.iov).length then
        let bytes := (offered call s.iov).take n
        let iov := trim call n s.iov
        some { iov, offset := s.offset + n, file := writeAt s.file s.offset bytes,
               log := s.log ++ [(s.offset, bytes)], result := finished iov }
      else none

end CycloneCache.Ref.GatheredWrites

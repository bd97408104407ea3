import CycloneCache.Lib.Run

/-!
# Readers that recover a stuck bucket

A reader whose probe spent its budget on an odd version calls
`reader_recover_stuck_bucket`. The process keeps a small table of such
sightings behind a flag that is tried and never waited for; the call that finds
its own version in the table, first seen the whole writer budget ago, forces
the bucket to the next even version. Writers of all processes take, release and
recover the buckets meanwhile.

What the flag protects is read in one step and written in another. What is
called ghost is not in the program and no step reads it.
-/

namespace CycloneCache.Ref.Sightings

open Lib Function

/-- `version & 1` -/
def odd (version : BitVec 32) : Prop := version &&& 1 ≠ 0

instance (version : BitVec 32) : Decidable (odd version) :=
  inferInstanceAs (Decidable (version &&& 1 ≠ 0))

/-- What a reader calls with: an odd version it loaded. -/
structure Observation where
  bucket : Nat
  version : BitVec 32
  /-- Ghost: how many steps the version had made when it was loaded. -/
  steps : Nat
  deriving DecidableEq

structure StuckBucketSighting extends Observation where
  firstSeen : Nat
  deriving DecidableEq

/-- The default: an even version marks an unused place. -/
def StuckBucketSighting.unused : StuckBucketSighting := ⟨⟨0, 0, 0⟩, 0⟩

def kStuckBucketSightings : Nat := 32

/-- Where a reader thread is in its call. -/
inductive Reader where
  /-- Between two calls, with the answer of the last. -/
  | idle (answer : Option Bool)
  | called (o : Observation)
  | entered (o : Observation)
  | looked (o : Observation) (now : Nat)
  | scanned (o : Observation) (now : Nat) (known : Bool) (place : Nat)
  /-- The table is up to date, `recover` is decided; ghost: by which sighting. -/
  | noted (o : Observation) (recover : Option StuckBucketSighting)
  | recovering (o : Observation) (sighting : StuckBucketSighting)
  deriving DecidableEq

structure State (R W : Type) where
  version : Nat → BitVec 32
  clock : Nat
  /-- The bucket a writer holds, with its token. -/
  writer : W → Option (Nat × BitVec 32)
  sightingsBusy : Bool
  sightings : List StuckBucketSighting
  reader : R → Reader
  /-- Ghost: how many steps each version made. -/
  steps : Nat → Nat
  /-- Ghost: when each bucket was last acquired. -/
  acquired : Nat → Nat
  /-- Ghost: every sighting that was written to the table. -/
  recorded : List StuckBucketSighting

/-- The loop over `_sightings`: the place of the bucket's own sighting, else of
the victim, which is the first free place or the oldest sighting. -/
def scan (bucket : Nat) :
    List StuckBucketSighting → Nat → Nat × StuckBucketSighting → Bool × Nat
  | [], _, victim => (false, victim.1)
  | s :: rest, place, victim =>
    if s.version ≠ 0 ∧ s.bucket = bucket then (true, place)
    else if victim.2.version ≠ 0 ∧ (s.version = 0 ∨ s.firstSeen < victim.2.firstSeen) then
      scan bucket rest (place + 1) (place, s)
    else scan bucket rest (place + 1) victim

inductive Label (R W : Type) where
  | tick (passed : Nat)
  /-- A writer's exchange of an even version. -/
  | acquire (w : W) (bucket : Nat)
  | release (w : W)
  /-- A waiting writer, or a reader of another process, forces an odd version. -/
  | usurp (bucket : Nat) (version : BitVec 32)
  /-- A probe gives up on an odd version. -/
  | observe (r : R) (bucket : Nat)
  /-- The next step of a reader's call. -/
  | proceed (r : R)
  deriving DecidableEq

section Steps

variable {R W : Type} [DecidableEq R] [DecidableEq W]

/-- `compare_exchange_strong` on a bucket's version. -/
def State.exchange (s : State R W) (bucket : Nat) (expected desired : BitVec 32) : State R W :=
  if s.version bucket = expected then
    { s with
      version := update s.version bucket desired
      steps := update s.steps bucket (s.steps bucket + 1) }
  else s

def State.goto (s : State R W) (r : R) (next : Reader) : State R W :=
  { s with reader := update s.reader r next }

/-- A sighting written to its place. -/
def State.record (s : State R W) (place : Nat) (sighting : StuckBucketSighting) : State R W :=
  { s with
    sightings := s.sightings.set place sighting
    recorded := sighting :: s.recorded }

/-- What the call does with the place it found: note the bucket, start over with
another holder, or take the sighting out once it is old enough. -/
def note (budget : Nat) (s : State R W) (r : R) (o : Observation) (now : Nat) (known : Bool)
    (place : Nat) : State R W :=
  let sighting := s.sightings.getD place .unused
  if !known then (s.record place ⟨o, now⟩).goto r (.noted o none)
  else if sighting.version ≠ o.version then (s.record place ⟨o, now⟩).goto r (.noted o none)
  else if sighting.firstSeen + budget ≤ now then
    { s.goto r (.noted o (some sighting)) with sightings := s.sightings.set place .unused }
  else s.goto r (.noted o none)

/-- `reader_recover_stuck_bucket`, step by step. -/
def proceed (budget : Nat) (s : State R W) (r : R) : Option (State R W) :=
  match s.reader r with
  | .idle _ => none
  | .called o =>
    some (if s.sightingsBusy then s.goto r (.idle (some false))
      else { s.goto r (.entered o) with sightingsBusy := true })
  | .entered o => some (s.goto r (.looked o s.clock))
  | .looked o now =>
    let (known, place) := scan o.bucket s.sightings 0 (0, s.sightings.getD 0 .unused)
    some (s.goto r (.scanned o now known place))
  | .scanned o now known place => some (note budget s r o now known place)
  | .noted _ none => some { s.goto r (.idle (some false)) with sightingsBusy := false }
  | .noted o (some sighting) =>
    some { s.goto r (.recovering o sighting) with sightingsBusy := false }
  | .recovering o _ =>
    some ((s.exchange o.bucket o.version (o.version + 1)).goto r (.idle (some true)))

def step (budget : Nat) (s : State R W) : Label R W → Option (State R W)
  | .tick passed => some { s with clock := s.clock + passed }
  | .acquire w bucket =>
    if s.writer w = none ∧ ¬odd (s.version bucket) then
      some { s.exchange bucket (s.version bucket) (s.version bucket + 1) with
        writer := update s.writer w (some (bucket, s.version bucket))
        acquired := update s.acquired bucket s.clock }
    else none
  | .release w =>
    match s.writer w with
    | none => none
    | some (bucket, token) =>
      some { s.exchange bucket (token + 1) (token + 2) with
        writer := update s.writer w none }
  | .usurp bucket version =>
    if odd version then some (s.exchange bucket version (version + 1)) else none
  | .observe r bucket =>
    match s.reader r with
    | .idle _ =>
      if odd (s.version bucket) then
        some (s.goto r (.called ⟨bucket, s.version bucket, s.steps bucket⟩))
      else none
    | _ => none
  | .proceed r => proceed budget s r

end Steps

variable {R W : Type}

/-- A process that has just opened the directory. The buckets may be in any
state, also held by writers of other processes or by ones that are long gone. -/
structure State.Initial (s : State R W) : Prop where
  writer : ∀ w bucket token, s.writer w = some (bucket, token) → ¬odd token
  reader : ∀ r, s.reader r = .idle none
  sightingsBusy : s.sightingsBusy = false
  sightings : s.sightings = List.replicate kStuckBucketSightings .unused
  acquired : ∀ bucket, s.acquired bucket ≤ s.clock
  recorded : s.recorded = []

/-- A sighting is kept from the table to the exchange it allows. -/
def State.Keeps (s : State R W) (sighting : StuckBucketSighting) : Prop :=
  (sighting ∈ s.sightings ∧ sighting.version ≠ 0) ∨
    ∃ r o, s.reader r = .noted o (some sighting) ∨ s.reader r = .recovering o sighting

/-- Since the version of a sighting that is kept was loaded, its bucket has made
fewer than `2 ^ 31` steps. -/
def State.FewSteps (s : State R W) : Prop :=
  ∀ sighting, s.Keeps sighting → s.steps sighting.bucket - sighting.steps < 2 ^ 31

end CycloneCache.Ref.Sightings

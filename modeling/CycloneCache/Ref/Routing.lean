import CycloneCache.Ref.Volume

/-!
# Routing a key to its stripe

A cache spreads its keys over its default volumes and each volume over its
stripes. Both choices reduce the same word of the key's digest: the cache
modulo the number of default volumes, the volume modulo the number of its
stripes. A dedicated small volume takes the keys that ask for it and no
others.
-/

namespace CycloneCache.Ref

open Volume (VolumeConfig computeStripeGeometry)

inductive Tier where
  | kDefault
  | kSmall
  deriving DecidableEq

/-- The volumes of a running cache. -/
structure CacheVolumes where
  defaultVolumes : List VolumeConfig
  smallVolume : Option VolumeConfig

/-- A volume of the cache: a default one by its place in the list. -/
inductive VolumeRef where
  | ofDefault (i : Nat)
  | small
  deriving DecidableEq

namespace CacheVolumes

def selectVolume (vols : CacheVolumes) (key : CacheKey) (tier : Tier) : Option VolumeRef :=
  if tier = .kSmall ∧ vols.smallVolume.isSome then some .small
  else if vols.defaultVolumes = [] then none
  else some (.ofDefault (key.segmentHash % vols.defaultVolumes.length))

def config (vols : CacheVolumes) : VolumeRef → Option VolumeConfig
  | .ofDefault i => vols.defaultVolumes[i]?
  | .small => vols.smallVolume

end CacheVolumes

/-- The stripes `init_stripes` makes of a volume. -/
def numStripes (cfg : VolumeConfig) : Nat :=
  (computeStripeGeometry cfg.size cfg.stripeSize).numStripes

def selectStripe (cfg : VolumeConfig) (key : CacheKey) : Option Nat :=
  if numStripes cfg = 0 then none else some (key.segmentHash % numStripes cfg)

/-- The volume and the stripe a call on a key works on. -/
def CacheVolumes.route (vols : CacheVolumes) (key : CacheKey) (tier : Tier) :
    Option (VolumeRef × Nat) :=
  match vols.selectVolume key tier with
  | none => none
  | some v =>
    match vols.config v with
    | none => none
    | some cfg => (selectStripe cfg key).map fun s => (v, s)

/-- A stripe that some key is routed to. -/
def CacheVolumes.Usable (vols : CacheVolumes) (v : VolumeRef) (s : Nat) : Prop :=
  ∃ key tier, vols.route key tier = some (v, s)

end CycloneCache.Ref

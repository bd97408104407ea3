import CycloneCache.Proofs.Negotiation
import CycloneCache.Proofs.SizeClass
import CycloneCache.Proofs.FastDiv
import CycloneCache.Proofs.Takeover
import CycloneCache.Proofs.Leases
import CycloneCache.Proofs.WrapRepair
import CycloneCache.Proofs.PersistedCursor
import CycloneCache.Proofs.Seqlock
import CycloneCache.Proofs.ForeignEntries
import CycloneCache.Proofs.TakenOver
import CycloneCache.Proofs.Purge
import CycloneCache.Proofs.LockHolder
import CycloneCache.Proofs.PlainRewrite
import CycloneCache.Proofs.Routing
import CycloneCache.Proofs.Admission
import CycloneCache.Proofs.ForkGate
import CycloneCache.Proofs.HandleCalls
import CycloneCache.Proofs.AlternateLimit
import CycloneCache.Proofs.Carry
import CycloneCache.Proofs.RemoveAlternate
import CycloneCache.Proofs.DirectoryLayout
import CycloneCache.Proofs.StripeTiling
import CycloneCache.Proofs.Fingerprint
import CycloneCache.Proofs.BorrowWord
import CycloneCache.Proofs.HolderWait
import CycloneCache.Proofs.Sightings
import CycloneCache.Proofs.SharedCount
import CycloneCache.Proofs.RacedRead
import CycloneCache.Proofs.GatheredWrites
import CycloneCache.Proofs.UserPause
import CycloneCache.Proofs.AdaptivePool
import CycloneCache.Proofs.HttpDate

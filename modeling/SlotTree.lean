import SlotTree.Compare.Comparators
import SlotTree.History
import SlotTree.Proofs.SnapshotSharing
import SlotTree.Proofs.TrackedCopies
import SlotTree.Proofs.Trails
import SlotTree.Proofs.FirstPaths
import SlotTree.Proofs.ChildPairs
import SlotTree.Proofs.TreeEquality
import SlotTree.Proofs.MatchRecursion
import SlotTree.Proofs.Containment
import SlotTree.Proofs.MatchCalls
import SlotTree.Proofs.HashRecursion
import SlotTree.Proofs.Hashes
import SlotTree.Proofs.PreOrder
import SlotTree.Proofs.LineReading
import SlotTree.Proofs.Shapes
import SlotTree.Proofs.Making
import SlotTree.Proofs.AppendOnly
import SlotTree.Proofs.FrozenParts
import SlotTree.Proofs.FrozenViews
import SlotTree.Proofs.MatchOrder
import SlotTree.Proofs.Acyclicity
import SlotTree.Proofs.Halting
import SlotTree.Proofs.Unfoldings
import SlotTree.Proofs.RoundTrips
import SlotTree.Proofs.Censuses
import SlotTree.Proofs.CloneRecursion
import SlotTree.Proofs.Clones
import SlotTree.Proofs.PathParts
import SlotTree.Proofs.LastingPaths
import SlotTree.Proofs.MatchGrowth
import SlotTree.Proofs.SetHistory
import SlotTree.Proofs.Places
import SlotTree.Proofs.GrownOrders
import SlotTree.Proofs.Sizes
import SlotTree.Proofs.HashGrowth
import SlotTree.Proofs.RenderedLines
import SlotTree.Proofs.Duplicates
import SlotTree.Proofs.PostOrders
import SlotTree.Proofs.Retracing
import SlotTree.Proofs.InnerFaults

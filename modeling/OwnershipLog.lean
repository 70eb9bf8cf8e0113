import OwnershipLog.Client
import OwnershipLog.Startup
import OwnershipLog.Suite.Standard
import OwnershipLog.Proofs.Claim.FirstFailure
import OwnershipLog.Proofs.Client.Run
import OwnershipLog.Proofs.Follower.Complete
import OwnershipLog.Proofs.Follower.Position
import OwnershipLog.Proofs.Merkle.Geometry
import OwnershipLog.Proofs.Service.Preimage
import OwnershipLog.Proofs.Store.Failures
import OwnershipLog.Proofs.Store.Retention
import OwnershipLog.Proofs.Tree.Checked
import OwnershipLog.Proofs.Tree.Commitment
import OwnershipLog.Proofs.Tree.Footprint
import OwnershipLog.Proofs.Tree.HeadOrder
import OwnershipLog.Proofs.Tree.Holes
import OwnershipLog.Proofs.Wire.Delimited
import OwnershipLog.Proofs.Service.Admission
import OwnershipLog.Proofs.Service.Paging

import Litevirt.Proofs.Abandonment
import Litevirt.Sync.Emission
import Litevirt.Sync.ProofMerge
import Litevirt.Sync.Push
import Litevirt.Sync.Park
import Litevirt.Audit.Intact
import Litevirt.Pause.Takeover
import Litevirt.Pause.Evaluate
import Litevirt.Sync.Incarnation
import Litevirt.Sync.Collapse
import Litevirt.Lease.Tenure
import Litevirt.Lease.VMStart
import Litevirt.Failover.PauseWait
import Litevirt.Failover.ProbePlan
import Litevirt.Failover.Restarts
import Litevirt.Admission.Bound
import Litevirt.Crl.Checker
import Litevirt.Holdings.Recreate
import Litevirt.Firewall.Statements
import Litevirt.Firewall.Dispatch
import Litevirt.Firewall.Collapse
import Litevirt.Ipam.Allocate
import Litevirt.Placement.AntiAffinity
import Litevirt.Placement.Moves
import Litevirt.Claims.CertificateChoice
import Litevirt.Claims.ConfigMerge
import Litevirt.Claims.Forward
import Litevirt.Claims.Signed
import Litevirt.Claims.Transit
import Litevirt.Lb.Vrid
import Litevirt.Compose.Names
import Litevirt.Compose.Affinity
import Litevirt.Containers.Ranges
import Litevirt.Sync.Digest
import Litevirt.Sync.Wire
import Litevirt.Sync.Relay
import Litevirt.Claims.Forced

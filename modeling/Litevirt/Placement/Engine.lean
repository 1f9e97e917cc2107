import Litevirt.Placement.Snapshot

/-!
# Choosing hosts

`scoreCandidates` runs every host through the hard filters and ranks the hosts that pass all of
them; `SelectBatch` places the requests of a batch one after the other and changes the snapshot
with each of them.
-/

namespace Litevirt.Placement

open Litevirt.Lib List

/-- The figures in floating point and the device topology.  Finite doubles are multiples of one
unit, so that scores are integers. -/
class Ranking where
  devicesFit : List PCIDevice → List DeviceRequest → Text → Option Int
  topologyScore : List PCIDevice → DeviceRequest → List Text
  strained : Snapshot → Text → Request → Bool
  score : Snapshot → HostRecord → Request → Int → Int

/-- Why a host was refused, with the figures the message gives. -/
inductive Reason where
  | notActive (state : Text)
  | witness
  | capacityUnknown
  | vcpu (needs free : Int) (released : Option Nat)
  | memory (needs overhead free : Int) (released : Option Nat)
  | antiAffinity (vms : List Text)
  | maxPerNode (count limit : Int) (base : Text)
  | region (ofHost required : Text)
  | labels (missing : List (Text × Text))
  | noContainerRuntime (lxc : Text)
  | devices
  | spreadStrict
  deriving DecidableEq

def Request.memCharge (req : Request) : Int :=
  if req.container then req.memMiBNeeded else req.capacity.memChargeFor req.memMiBNeeded

/-- A container's processor figure is no demand on the host. -/
def Request.demand (req : Request) : Request :=
  if req.container && req.cpuNeeded ≠ 0 then { req with cpuNeeded := 0 } else req

/-- What the replaced workload gives back on the host. -/
def releasedNote (req : Request) (host : Text) (amount : Allocation → Nat) : Option Nat :=
  (req.replaces.filter fun held => held.host = host).map amount

def sortStrings (values : List Text) : List Text := values.insertionSort fun a b => a ≤ b

def vmsOnHost (snap : Snapshot) (vms : List Text) (host : Text) : List Text :=
  sortStrings (vms.filter fun name => snap.vmHost name = some host)

section Filters

variable (snap : Snapshot) (req : Request) (host : HostRecord)

def freeCPU : Int := req.capacity.allocatableCPU host - snap.cpuUsed host.name

def freeMem : Int :=
  req.capacity.allocatableMem host - snap.memUsed host.name -
    req.capacity.memOverheadFor (snap.vmCount host.name)

def replicas (base : Text) : Int := ((snap.replicasByBase base).getD fun _ => 0) host.name

def failed [Ranking] : List Reason :=
  (if snap.capacityUnknown host.name then [.capacityUnknown] else []) ++
  (if 0 < req.cpuNeeded ∧ freeCPU snap req host < req.cpuNeeded then
    [.vcpu req.cpuNeeded (freeCPU snap req host) (releasedNote req host.name Allocation.cpu)]
  else []) ++
  (if 0 < req.memMiBNeeded ∧ freeMem snap req host < req.memCharge then
    [.memory req.memCharge (req.memCharge - req.memMiBNeeded) (freeMem snap req host)
      (releasedNote req host.name Allocation.memMiB)]
  else []) ++
  (if req.antiAffinity.any fun name => snap.vmHost name = some host.name then
    [.antiAffinity (vmsOnHost snap req.antiAffinity host.name)]
  else []) ++
  (if 0 < req.maxPerNode ∧ req.vmBaseName ≠ [] ∧
      req.maxPerNode ≤ replicas snap host req.vmBaseName then
    [.maxPerNode (replicas snap host req.vmBaseName) req.maxPerNode req.vmBaseName]
  else []) ++
  (if req.requireRegion ≠ [] ∧ hostRegion host ≠ req.requireRegion then
    [.region (hostRegion host) req.requireRegion]
  else []) ++
  (if labelsMatch host.labels req.requireLabels then []
  else [.labels (missingLabels host.labels req.requireLabels)]) ++
  (if req.container ∧ hostRunsContainers host = false ∧
      (req.requireLabels.lookup labelLXCCapable).isNone then
    [.noContainerRuntime (labelOf host.labels labelLXCCapable)]
  else []) ++
  (if req.devices ≠ [] ∧
      (Ranking.devicesFit (snap.devices host.name) req.devices host.name).isNone then
    [.devices]
  else []) ++
  (if req.effectivePolicy = .spreadStrict ∧ Ranking.strained snap host.name req then
    [.spreadStrict]
  else [])

/-- A host that takes no workloads at all gets that one reason. -/
def rejections [Ranking] : List Reason :=
  if host.state ≠ "active".toList then [.notActive host.state]
  else if host.isWitness then [.witness]
  else failed snap req host

end Filters

structure Candidate where
  host : HostRecord
  vmCount : Int
  score : Int
  deriving DecidableEq

/-- The order of the ranking: score, then fewest VMs, then name. -/
def Candidate.less (a b : Candidate) : Bool :=
  if a.score ≠ b.score then b.score < a.score
  else if a.vmCount ≠ b.vmCount then a.vmCount < b.vmCount
  else a.host.name < b.host.name

structure NoEligibleHost where
  vmName : Text
  rejections : List (Text × List Reason)
  noContainerRuntime : Bool
  deriving DecidableEq

section Selection

variable [Ranking]

def candidate (snap : Snapshot) (req : Request) (host : HostRecord) : Candidate where
  host := host
  vmCount := snap.vmCount host.name
  score := Ranking.score snap host req
    ((Ranking.devicesFit (snap.devices host.name) req.devices host.name).getD 0)

/-- An active host could run a container, whatever else refused it. -/
def anyContainerRuntime (snap : Snapshot) : Bool :=
  snap.hostsBy.any fun host =>
    host.state = "active".toList && !host.isWitness && hostRunsContainers host

def scoreCandidates (snap : Snapshot) (request : Request) :
    Except NoEligibleHost (List Candidate) :=
  let req := request.demand
  let candidates :=
    (snap.hostsBy.filter fun host => (rejections snap req host).isEmpty).map (candidate snap req)
  if candidates.isEmpty then
    .error
      { vmName := req.vmName
        rejections := snap.hostsBy.map fun host => (host.name, rejections snap req host)
        noContainerRuntime := req.container && !anyContainerRuntime snap }
  else .ok (candidates.insertionSort fun a b => b.less a = false)

def pickBest (candidates : List Candidate) : Text :=
  (candidates.head?.map (·.host.name)).getD []

structure BatchDevice where
  kind : Text
  address : Text
  vendor : Text
  device : Text
  deriving DecidableEq

def takeDevices (pool : List PCIDevice) (req : DeviceRequest) :
    List PCIDevice × List BatchDevice :=
  if req.sriov then (pool, [])
  else
    let count := if req.count ≤ 0 then 1 else req.count.toNat
    let typed := pool.filter fun device =>
      device.kind = req.kind && device.vmName = [] &&
        (req.vendor = [] || device.vendorID = req.vendor || device.vendorName = req.vendor)
    let selected := Ranking.topologyScore typed req
    let taken :=
      if selected.length < count then (typed.map (·.address)).take count else selected
    (pool.map fun device =>
        if device.address ∈ taken then { device with vmName := "reserved".toList } else device,
      (pool.filter fun device => device.address ∈ taken).map fun device =>
        ⟨device.kind, device.address, device.vendorName, device.deviceName⟩)

def assignDevices (pools : Text → List PCIDevice) (host : Text) (reqs : List DeviceRequest) :
    (Text → List PCIDevice) × List BatchDevice :=
  let final := reqs.foldl
    (fun state req =>
      ((takeDevices state.1 req).1, state.2 ++ (takeDevices state.1 req).2)) (pools host, [])
  (Function.update pools host final.1, final.2)

inductive Refusal where
  | pinnedHost (host vmName : Text)
  | noEligibleHost (evidence : NoEligibleHost)
  deriving DecidableEq

inductive Outcome where
  | placed (host : Text) (devices : List BatchDevice)
  | refused (refusal : Refusal)
  deriving DecidableEq

/-- The hosts a request is evaluated on: all of them, or the one it is pinned to. -/
def eligibleHosts (snap : Snapshot) (req : Request) : Option (List HostRecord) :=
  if req.pinHost = [] then some snap.hostsBy
  else
    ((snap.hostNamed req.pinHost).filter fun host =>
      host.state = "active".toList && !host.isWitness).map fun host => [host]

/-- The snapshot with the request's workload on the chosen host. -/
def commit (snap : Snapshot) (req : Request) (host : Text) : Snapshot :=
  if req.container then snap.commitContainer host req.vmBaseName req.memMiBNeeded
  else snap.commitPlacement host req.vmName req.vmBaseName req.cpuNeeded req.memMiBNeeded

def Snapshot.restrict (snap : Snapshot) (hostsBy : List HostRecord) : Snapshot :=
  { snap with hostsBy := hostsBy }

/-- The request on the chosen host, with its devices taken from the host's pool. -/
def settle (released : Snapshot) (req : Request) (chosen : Text) : Snapshot × Outcome :=
  let assigned := assignDevices released.devices chosen req.devices
  (commit { released with devices := assigned.1 } req chosen, .placed chosen assigned.2)

def placeOne (snap : Snapshot) (req : Request) : Snapshot × Outcome :=
  match eligibleHosts snap req with
  | none => (snap, .refused (.pinnedHost req.pinHost req.vmName))
  | some hostsBy =>
    let released := snap.releaseAllocation req
    match scoreCandidates (released.restrict hostsBy) req with
    | .error evidence => (released.restoreAllocation req, .refused (.noEligibleHost evidence))
    | .ok candidates => settle released req (pickBest candidates)

def placeAll (snap : Snapshot) : List Request → Snapshot × List (Request × Outcome)
  | [] => (snap, [])
  | req :: rest =>
    let placed := placeOne snap req
    let later := placeAll placed.1 rest
    (later.1, (req, placed.2) :: later.2)

variable (hosts : List HostRecord) (vms : List VMRecord) (devices : Text → List PCIDevice)
  (containerMemMiB : List (Text × Int)) (observations : List HostCapacityObservation)
  (requests : List Request)

def batchSnapshot : Snapshot :=
  let snap := ((buildSnapshotFrom hosts vms).addContainerMemory
    containerMemMiB).addCapacityObservations observations
  ((requests.filter fun req => 0 < req.maxPerNode && req.vmBaseName ≠ []).map
    Request.vmBaseName).foldl Snapshot.seedReplicasForBase { snap with devices := devices }

/-- Every result in the order of the requests; the last one of a name is the name's. -/
def selectBatch : List (Request × Outcome) :=
  (placeAll (batchSnapshot hosts vms devices containerMemMiB observations requests) requests).2

end Selection

/-- The hosts that the filters leave to a request. -/
def openHosts [Ranking] (snap : Snapshot) (req : Request) : List HostRecord :=
  match eligibleHosts snap req with
  | none => []
  | some hostsBy => hostsBy.filter fun host =>
      (rejections ((snap.releaseAllocation req).restrict hostsBy) req.demand host).isEmpty

/-- The filters that a chosen host has passed, as far as they concern the batch. -/
structure Admits (snap : Snapshot) (req : Request) (host : HostRecord) : Prop where
  cpu : 0 < req.cpuNeeded → req.container = false → req.cpuNeeded ≤ freeCPU snap req host
  mem : 0 < req.memMiBNeeded → req.memCharge ≤ freeMem snap req host
  apart : ∀ name ∈ req.antiAffinity, snap.vmHost name ≠ some host.name
  limit : 0 < req.maxPerNode → req.vmBaseName ≠ [] →
    replicas snap host req.vmBaseName < req.maxPerNode
  labels : labelsMatch host.labels req.requireLabels = true

theorem Request.demand_eq (req : Request) :
    req.demand = if req.container then { req with cpuNeeded := 0 } else req := by
  unfold Request.demand
  by_cases container : req.container = true
  · by_cases idle : req.cpuNeeded = 0
    · cases req
      simp_all
    · rw [if_pos (by simp [container, idle]), if_pos container]
  · rw [if_neg (by simp [container]), if_neg container]

variable {host : HostRecord} {snap : Snapshot} {req : Request}

theorem Admits.of_failed [Ranking] (passed : failed snap req host = []) : Admits snap req host := by
  simp only [failed, append_eq_nil_iff, ite_eq_right_iff, cons_ne_nil, imp_false,
    ite_eq_left_iff] at passed
  obtain ⟨⟨⟨⟨⟨⟨⟨⟨⟨-, cpu⟩, mem⟩, apart⟩, limit⟩, -⟩, labels⟩, -⟩, -⟩, -⟩ := passed
  refine ⟨fun needed _ => ?_, fun needed => ?_, ?_, fun positive named => ?_, ?_⟩
  · exact not_lt.mp fun short => cpu ⟨needed, short⟩
  · exact not_lt.mp fun short => mem ⟨needed, short⟩
  · intro name listed together
    exact apart (any_eq_true.mpr ⟨name, listed, by simpa using together⟩)
  · exact not_le.mp fun reached => limit ⟨positive, named, reached⟩
  · by_contra unmatched
    exact labels unmatched

theorem Admits.of_rejections [Ranking]
    (passed : (rejections snap req.demand host).isEmpty) : Admits snap req host := by
  have passed : failed snap req.demand host = [] := by
    rw [List.isEmpty_iff, rejections] at passed
    split_ifs at passed
    exact passed
  have admits := Admits.of_failed passed
  rw [Request.demand_eq] at admits
  split_ifs at admits with container
  · -- Nothing but the processor figure differs, and it is not compared for a container.
    exact ⟨fun _ vm => absurd container (by simp [vm]), admits.mem, admits.apart, admits.limit,
      admits.labels⟩
  · exact admits

section Cases

variable {candidates : List Candidate}

theorem pickBest_mem (some : candidates ≠ []) :
    ∃ ranked ∈ candidates, pickBest candidates = ranked.host.name := by
  cases candidates with
  | nil => exact absurd rfl some
  | cons first rest => exact ⟨first, by simp, rfl⟩

variable [Ranking]

/-- A ranking is not empty, and every host in it passed the filters. -/
theorem scoreCandidates_eq_ok {snap : Snapshot} {req : Request}
    (scored : scoreCandidates snap req = .ok candidates) :
    candidates ≠ [] ∧ ∀ ranked ∈ candidates,
      ranked.host ∈ snap.hostsBy ∧ (rejections snap req.demand ranked.host).isEmpty := by
  simp only [scoreCandidates] at scored
  split_ifs at scored with none
  cases scored
  constructor
  · intro empty
    apply none
    rw [List.isEmpty_iff, ← List.length_eq_zero_iff]
    rw [← length_eq_zero_iff, length_insertionSort] at empty
    exact empty
  · intro ranked member
    rw [mem_insertionSort, mem_map] at member
    obtain ⟨host, listed, rfl⟩ := member
    exact mem_filter.mp listed

end Cases

end Litevirt.Placement

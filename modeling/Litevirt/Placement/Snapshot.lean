import Litevirt.Lib.Counters

/-!
# The snapshot a placement works on

A placement evaluates requests against an in-memory view of the cluster: the hosts, what is used
on each of them, where each VM runs and how many replicas of a group a host has.  Within one
batch the view is changed as requests are placed.
-/

namespace Litevirt.Placement

open Litevirt.Lib

abbrev Text := List Char

scoped instance : LawfulBEq Text := inferInstance

/-- The columns of a host that placement reads beside its capacity. -/
structure HostRecord where
  name : Text
  state : Text
  role : Text
  region : Text
  labels : List (Text × Text)
  deriving DecidableEq

def HostRecord.isWitness (host : HostRecord) : Bool := host.role = "witness".toList

/-- A missing label reads as the empty text. -/
def labelOf (labels : List (Text × Text)) (key : Text) : Text := (labels.lookup key).getD []

def labelLXCCapable : Text := "litevirt.lxc".toList

def hostRunsContainers (host : HostRecord) : Bool :=
  labelOf host.labels labelLXCCapable = "true".toList

def hostRegion (host : HostRecord) : Text :=
  if host.region = [] then "default".toList else host.region

def missingLabels (labels required : List (Text × Text)) : List (Text × Text) :=
  required.filter fun pair => labelOf labels pair.1 ≠ pair.2

def labelsMatch (labels required : List (Text × Text)) : Bool :=
  required.all fun pair => labelOf labels pair.1 = pair.2

/-- The capacity policy of the cluster, by what it allows: `HostAllocatable` of each host and the
memory that every VM costs beyond its own. -/
structure CapacityPolicy where
  allocatableCPU : HostRecord → Int
  allocatableMem : HostRecord → Int
  vmMemOverheadMiB : Nat

def CapacityPolicy.memOverheadFor (policy : CapacityPolicy) (count : Int) : Int :=
  policy.vmMemOverheadMiB * count

def CapacityPolicy.memChargeFor (policy : CapacityPolicy) (guest : Int) : Int :=
  if guest ≤ 0 then guest else guest + policy.vmMemOverheadMiB

structure DeviceRequest where
  kind : Text
  count : Int
  vendor : Text
  sriov : Bool
  deriving DecidableEq

structure PCIDevice where
  kind : Text
  address : Text
  vendorID : Text
  vendorName : Text
  deviceName : Text
  vmName : Text
  deriving DecidableEq

/-- The scoring strategies; `unset` stands for every text that is none of them. -/
inductive Policy where
  | balance
  | binPack
  | spreadStrict
  | costAware
  | unset
  deriving DecidableEq

structure Allocation where
  host : Text
  cpu : Nat
  memMiB : Nat
  vm : Bool
  deriving DecidableEq

structure Request where
  vmName : Text
  cpuNeeded : Int
  memMiBNeeded : Int
  capacity : CapacityPolicy
  policy : Policy
  pinHost : Text
  requireLabels : List (Text × Text)
  antiAffinity : List Text
  requireRegion : Text
  preferLabels : List (Text × Text)
  affinity : List Text
  spread : Bool
  maxPerNode : Int
  vmBaseName : Text
  devices : List DeviceRequest
  replaces : Option Allocation
  container : Bool

def Request.effectivePolicy (req : Request) : Policy :=
  match req.policy with
  | .unset => if req.spread then .spreadStrict else .balance
  | policy => policy

/-- A VM of the cluster, as far as the snapshot reads it. -/
structure VMRecord where
  name : Text
  hostName : Text
  state : Text
  cpuActual : Nat
  memActual : Nat
  spec : Text
  deriving DecidableEq

def countsAgainstHost (state : Text) : Bool :=
  state = "running".toList || state = "creating".toList || state = "starting".toList

def replicaOf (base name : Text) : Bool := name = base || (base ++ "-".toList).isPrefixOf name

@[ext] structure Snapshot where
  hosts : List HostRecord
  hostsBy : List HostRecord
  vms : List VMRecord
  cpuUsed : Text → Int
  memUsed : Text → Int
  vmCount : Text → Int
  capacityUnknown : Text → Bool
  devices : Text → List PCIDevice
  replicasByBase : Text → Option (Text → Int)
  vmHost : Text → Option Text

def Snapshot.hostNamed (snap : Snapshot) (name : Text) : Option HostRecord :=
  snap.hosts.find? fun host => host.name = name

namespace Snapshot

/-- One VM of `BuildSnapshotFrom`. -/
def countVM (snap : Snapshot) (vm : VMRecord) : Snapshot :=
  if countsAgainstHost vm.state then
    { snap with
      cpuUsed := bump snap.cpuUsed vm.hostName vm.cpuActual
      memUsed := bump snap.memUsed vm.hostName vm.memActual
      vmCount := bump snap.vmCount vm.hostName 1
      vmHost := Function.update snap.vmHost vm.name (some vm.hostName) }
  else snap

end Snapshot

def buildSnapshotFrom (hosts : List HostRecord) (vms : List VMRecord) : Snapshot :=
  vms.foldl Snapshot.countVM
    { hosts := hosts
      hostsBy := hosts
      vms := vms
      cpuUsed := fun _ => 0
      memUsed := fun _ => 0
      vmCount := fun _ => 0
      capacityUnknown := fun _ => false
      devices := fun _ => []
      replicasByBase := fun _ => none
      vmHost := fun _ => none }

/-- What a host reported about its effective capacity, and whether the report is too old. -/
structure HostCapacityObservation where
  hostName : Text
  complete : Bool
  stale : Bool
  extraCPU : Int
  extraMemMiB : Int
  deriving DecidableEq

namespace Snapshot

variable (snap : Snapshot)

def addContainerMemory (byHost : List (Text × Int)) : Snapshot :=
  { snap with memUsed := byHost.foldl (fun used row => bump used row.1 row.2) snap.memUsed }

def addCapacityObservation (observed : HostCapacityObservation) : Snapshot :=
  if !observed.complete || observed.stale then
    { snap with capacityUnknown := Function.update snap.capacityUnknown observed.hostName true }
  else
    { snap with
      cpuUsed := bump snap.cpuUsed observed.hostName observed.extraCPU
      memUsed := bump snap.memUsed observed.hostName observed.extraMemMiB }

def addCapacityObservations (observations : List HostCapacityObservation) : Snapshot :=
  observations.foldl addCapacityObservation snap

/-- Change the count of a group on a host when the group is counted at all. -/
def bumpReplicas (base host : Text) (amount : Int) : Snapshot :=
  { snap with
    replicasByBase := Function.update snap.replicasByBase base
      ((snap.replicasByBase base).map fun counts => bump counts host amount) }

/-- Take what the request replaces from its host, or put it back. -/
def adjustAllocation (req : Request) (sign : Int) : Snapshot :=
  match req.replaces with
  | none => snap
  | some held =>
    if held.host = [] then snap
    else
      let used := { snap with
        cpuUsed := bump snap.cpuUsed held.host (sign * held.cpu)
        memUsed := bump snap.memUsed held.host (sign * held.memMiB) }
      if !held.vm then used
      else
        let counted := { used with vmCount := bump used.vmCount held.host sign }
        if replicaOf req.vmBaseName req.vmName then
          counted.bumpReplicas req.vmBaseName held.host sign
        else counted

def releaseAllocation (req : Request) : Snapshot := snap.adjustAllocation req (-1)

def restoreAllocation (req : Request) : Snapshot := snap.adjustAllocation req 1

def liveReplicas (vms : List VMRecord) (base host : Text) : Int :=
  (vms.countP fun vm =>
    countsAgainstHost vm.state && replicaOf base vm.name && vm.hostName = host : Nat)

def seedReplicasForBase (base : Text) : Snapshot :=
  if base = [] || (snap.replicasByBase base).isSome then snap
  else
    { snap with
      replicasByBase := Function.update snap.replicasByBase base
        (some (liveReplicas snap.vms base)) }

/-- Count a placed replica of a group, which begins to be counted with it. -/
def countReplica (base host : Text) : Snapshot :=
  if base = [] then snap
  else
    { snap with
      replicasByBase := Function.update snap.replicasByBase base
        (some (bump ((snap.replicasByBase base).getD fun _ => 0) host 1)) }

section CountReplica

variable (base host : Text)

@[simp] theorem countReplica_cpuUsed : (snap.countReplica base host).cpuUsed = snap.cpuUsed := by
  unfold countReplica
  split_ifs <;> rfl

@[simp] theorem countReplica_memUsed : (snap.countReplica base host).memUsed = snap.memUsed := by
  unfold countReplica
  split_ifs <;> rfl

@[simp] theorem countReplica_vmCount : (snap.countReplica base host).vmCount = snap.vmCount := by
  unfold countReplica
  split_ifs <;> rfl

@[simp] theorem countReplica_vmHost : (snap.countReplica base host).vmHost = snap.vmHost := by
  unfold countReplica
  split_ifs <;> rfl

@[simp] theorem countReplica_hosts : (snap.countReplica base host).hosts = snap.hosts := by
  unfold countReplica
  split_ifs <;> rfl

@[simp] theorem countReplica_hostsBy : (snap.countReplica base host).hostsBy = snap.hostsBy := by
  unfold countReplica
  split_ifs <;> rfl

end CountReplica

def commitPlacement (host vmName baseName : Text) (cpu mem : Int) : Snapshot :=
  { snap with
    cpuUsed := bump snap.cpuUsed host cpu
    memUsed := bump snap.memUsed host mem
    vmCount := bump snap.vmCount host 1
    vmHost := Function.update snap.vmHost vmName (some host) }.countReplica baseName host

/-- A container holds memory only, and nothing is said about where it runs. -/
def commitContainer (host baseName : Text) (mem : Int) : Snapshot :=
  { snap with memUsed := bump snap.memUsed host mem }.countReplica baseName host

end Snapshot

end Litevirt.Placement

import Litevirt.Placement.Ledger

/-!
# The rebalancer's cycle

`evaluateAll` ranks the hosts for every running VM as for a newcomer and proposes a move when
another host is worth it.  The moves are committed into a working copy of the snapshot; the list
of VMs, from which the replicas of a group are counted, stays as it was at the start of the
cycle.
-/

namespace Litevirt.Placement

open Litevirt.Lib List Function

/-- The modes of the rebalancer; `onDemand` is the folded one and `unset` the empty text. -/
inductive Mode where
  | off
  | dryRun
  | auto
  | onDemand
  | unset
  | other (text : Text)
  deriving DecidableEq

structure RebalanceSpec where
  mode : Mode
  threshold : Int
  cooldown : Option Nat
  maxConcurrent : Int
  maxPerHour : Int
  deriving DecidableEq

structure PlacementSpec where
  antiAffinity : List Text
  affinity : List Text
  require : List (Text × Text)
  prefer : List (Text × Text)
  spread : Bool
  maxPerNode : Int
  policy : Policy
  noMigrate : Bool
  rebalance : Option RebalanceSpec
  deriving DecidableEq

structure VMSpec where
  secureBoot : Bool
  tpm : Bool
  migrateNone : Bool
  placement : Option PlacementSpec
  devices : List DeviceRequest
  deriving DecidableEq

structure VMPolicy where
  policy : Policy
  mode : Mode
  thresholdPct : Int
  cooldown : Nat
  noMigrate : Bool
  maxConcurrent : Int
  maxPerHour : Int
  deriving DecidableEq

/-- Balance, proposals only, fifteen percent, five minutes, two at once and ten an hour. -/
def defaultVMPolicy : VMPolicy := ⟨.balance, .dryRun, 15, 300, false, 2, 10⟩

def applyRebalance (pol : VMPolicy) (spec : RebalanceSpec) : VMPolicy :=
  { pol with
    mode :=
      match spec.mode with
      | .onDemand => .dryRun
      | .unset => pol.mode
      | mode => mode
    thresholdPct := if 0 < spec.threshold then spec.threshold else pol.thresholdPct
    cooldown := (spec.cooldown.filter (0 < ·)).getD pol.cooldown
    maxConcurrent := if 0 < spec.maxConcurrent then spec.maxConcurrent else pol.maxConcurrent
    maxPerHour := if 0 < spec.maxPerHour then spec.maxPerHour else pol.maxPerHour }

def applyPlacement (pol : VMPolicy) (spec : PlacementSpec) : VMPolicy :=
  let placed := { pol with
    policy := if spec.policy = .unset then pol.policy else spec.policy
    noMigrate := spec.noMigrate }
  (spec.rebalance.map (applyRebalance placed)).getD placed

def resolveVMPolicyFromSpec : Option VMSpec → VMPolicy
  | none => defaultVMPolicy
  | some spec =>
    let placed := (spec.placement.map (applyPlacement defaultVMPolicy)).getD defaultVMPolicy
    let pinned := if spec.migrateNone then { placed with noMigrate := true } else placed
    -- Concentrating without being asked is downgraded to proposals.
    if pinned.policy = .binPack ∧ pinned.mode = .auto then { pinned with mode := .dryRun }
    else pinned

/-- What a cycle reads beside the snapshot: the stored specs, earlier proposals, and the figures in
floating point that decide whether a gain is worth a move. -/
structure Environment where
  parseSpec : Text → Option VMSpec
  recentProposal : Text → Nat → Bool
  appliedInLastHour : Option Int
  worthwhile : Option Int → Int → Int → Bool
  capacity : CapacityPolicy

section Requests

variable (env : Environment) (vm : VMRecord)

def specOf : Option VMSpec := env.parseSpec vm.spec

def placementOf : Option PlacementSpec := (specOf env vm).bind VMSpec.placement

def antiAffinityOf : List Text := ((placementOf env vm).map PlacementSpec.antiAffinity).getD []

def maxPerNodeOf : Int := ((placementOf env vm).map PlacementSpec.maxPerNode).getD 0

def requireOf : List (Text × Text) := ((placementOf env vm).map PlacementSpec.require).getD []

def coldOnly : Bool := (specOf env vm).any fun spec => spec.secureBoot || spec.tpm

def labelTPMCapable : Text := "litevirt.tpm".toList

def labelSecureBootCapable : Text := "litevirt.secureboot".toList

/-- The labels a Secure Boot or TPM machine needs beside its own. -/
def firmwareLabels : List (Text × Text) :=
  ((specOf env vm).map fun spec =>
    (if spec.tpm then [(labelTPMCapable, "true".toList)] else []) ++
      if spec.secureBoot then [(labelSecureBootCapable, "true".toList)] else []).getD []

def buildPlacementRequest (pol : VMPolicy) : Request where
  vmName := vm.name
  cpuNeeded := vm.cpuActual
  memMiBNeeded := vm.memActual
  capacity := env.capacity
  policy := pol.policy
  pinHost := []
  requireLabels := firmwareLabels env vm ++ (requireOf env vm).filter fun pair =>
    ((firmwareLabels env vm).lookup pair.1).isNone
  antiAffinity := antiAffinityOf env vm
  requireRegion := []
  preferLabels := ((placementOf env vm).map PlacementSpec.prefer).getD []
  affinity := ((placementOf env vm).map PlacementSpec.affinity).getD []
  spread := ((placementOf env vm).map PlacementSpec.spread).getD false
  maxPerNode := maxPerNodeOf env vm
  vmBaseName := vmBaseName vm.name
  devices := (((specOf env vm).map VMSpec.devices).getD []).map fun device =>
    { device with count := if device.count ≤ 0 then 1 else device.count, sriov := false }
  replaces := none
  container := false

end Requests

/-- The VM taken off its host, out of the list of VMs and out of every count. -/
def snapshotWithoutVM (snap : Snapshot) (vm : VMRecord) : Snapshot :=
  let counted := countsAgainstHost vm.state
  { snap with
    cpuUsed := if counted then bump snap.cpuUsed vm.hostName (-vm.cpuActual) else snap.cpuUsed
    memUsed := if counted then bump snap.memUsed vm.hostName (-vm.memActual) else snap.memUsed
    vmCount := if counted then bump snap.vmCount vm.hostName (-1) else snap.vmCount
    vmHost := Function.update snap.vmHost vm.name none
    replicasByBase := fun _ => none
    vms := snap.vms.filter fun other => other.name ≠ vm.name }

structure Proposal where
  vmName : Text
  src : Text
  dst : Text
  policy : Policy
  mode : Mode
  deriving DecidableEq

section Cycle

variable [Ranking] (env : Environment)

def rankFromSnapshot (snap : Snapshot) (req : Request) :
    Except NoEligibleHost (List Candidate) :=
  scoreCandidates (if 0 < req.maxPerNode then snap.seedReplicasForBase req.vmBaseName else snap) req

/-- The best host other than the source, when it is worth the move. -/
def bestMove (snap : Snapshot) (vm : VMRecord) (pol : VMPolicy) : Option Proposal :=
  match (snap.hostNamed vm.hostName).filter fun host => vm.hostName ≠ [] && !host.isWitness with
  | none => none
  | some _ =>
    match rankFromSnapshot (snapshotWithoutVM snap vm) (buildPlacementRequest env vm pol) with
    | .error _ => none
    | .ok ranked =>
      match ranked.find? fun each => each.host.name ≠ vm.hostName with
      | none => none
      | some best =>
        let source := (ranked.find? fun each => each.host.name = vm.hostName).map
          Candidate.score
        if source.any (fun score => best.score ≤ score) ||
            !env.worthwhile source best.score pol.thresholdPct then none
        else some ⟨vm.name, vm.hostName, best.host.name, pol.policy, pol.mode⟩

structure Round where
  working : Snapshot
  proposals : List Proposal

/-- The move in the counters and in `VMHost`. -/
def commitMove (snap : Snapshot) (vm : VMRecord) (move : Proposal) : Snapshot :=
  { snap with
    cpuUsed := bump (bump snap.cpuUsed move.src (-vm.cpuActual)) move.dst vm.cpuActual
    memUsed := bump (bump snap.memUsed move.src (-vm.memActual)) move.dst vm.memActual
    vmCount := bump (bump snap.vmCount move.src (-1)) move.dst 1
    vmHost := Function.update snap.vmHost vm.name (some move.dst) }

/-- The VM is looked at in this cycle. -/
def considered (vm : VMRecord) (pol : VMPolicy) : Bool :=
  vm.state = "running".toList && !coldOnly env vm && pol.mode ≠ .off && !pol.noMigrate &&
    !env.recentProposal vm.name pol.cooldown

def consider (limit : Int) (round : Round) (vm : VMRecord) : Round :=
  let pol := resolveVMPolicyFromSpec (specOf env vm)
  if !considered env vm pol || limit ≤ round.proposals.length then round
  else
    match bestMove env round.working vm pol with
    | none => round
    | some move => ⟨commitMove round.working vm move, round.proposals ++ [move]⟩

/-- The most permissive budget of the VMs that may be moved. -/
def resolveClusterBudget (vms : List VMRecord) : Int × Int :=
  let policies := ((vms.filter fun vm => vm.state = "running".toList).map fun vm =>
    resolveVMPolicyFromSpec (specOf env vm)).filter fun pol => pol.mode ≠ .off && !pol.noMigrate
  match policies with
  | [] => (defaultVMPolicy.maxConcurrent, defaultVMPolicy.maxPerHour)
  | first :: rest =>
    (rest.foldl (fun most pol => max most pol.maxConcurrent) first.maxConcurrent,
      rest.foldl (fun most pol => max most pol.maxPerHour) first.maxPerHour)

def evaluateAll (snap : Snapshot) (order : List VMRecord) : List Proposal :=
  let budget := resolveClusterBudget env order
  if env.appliedInLastHour.any fun applied => budget.2 ≤ applied then []
  else (order.foldl (consider env budget.1) ⟨snap, []⟩).proposals

end Cycle

/-- `BuildSnapshot` of the records of a cluster. -/
def buildSnapshot (hosts : List HostRecord) (vms : List VMRecord)
    (containerMemMiB : List (Text × Int)) (observations : List HostCapacityObservation) :
    Snapshot :=
  ((buildSnapshotFrom hosts vms).addContainerMemory containerMemMiB).addCapacityObservations
    observations

def relocate (vms : List VMRecord) (name dst : Text) : List VMRecord :=
  vms.map fun vm => if vm.name = name then { vm with hostName := dst } else vm

def held (amount : VMRecord → Int) (vms : List VMRecord) (host : Text) : Int :=
  (vms.map fun vm =>
    if countsAgainstHost vm.state ∧ host = vm.hostName then amount vm else 0).sum

/-- What runs on a host beside the VMs of the list. -/
def extraCPU (observations : List HostCapacityObservation) (host : Text) : Int :=
  (observations.map fun observed =>
    if (!observed.complete || observed.stale) = false ∧ host = observed.hostName then
      observed.extraCPU
    else 0).sum

def extraMem (observations : List HostCapacityObservation) (host : Text) : Int :=
  (observations.map fun observed =>
    if (!observed.complete || observed.stale) = false ∧ host = observed.hostName then
      observed.extraMemMiB
    else 0).sum

theorem foldl_countVM (vms : List VMRecord) (snap : Snapshot) (host : Text) :
    (vms.foldl Snapshot.countVM snap).cpuUsed host =
        snap.cpuUsed host + held (fun vm => vm.cpuActual) vms host ∧
      (vms.foldl Snapshot.countVM snap).memUsed host =
          snap.memUsed host + held (fun vm => vm.memActual) vms host ∧
        (vms.foldl Snapshot.countVM snap).vmCount host =
          snap.vmCount host + held (fun _ => 1) vms host := by
  induction vms generalizing snap with
  | nil => simp [held]
  | cons vm rest ih =>
    obtain ⟨cpu, mem, slots⟩ := ih (snap.countVM vm)
    simp only [foldl_cons, held, map_cons, sum_cons] at *
    rw [cpu, mem, slots]
    unfold Snapshot.countVM
    by_cases counted : countsAgainstHost vm.state = true
    · simp only [counted, if_true, bump_apply, true_and]
      exact ⟨by ring, by ring, by ring⟩
    · simp [counted]

theorem foldl_observations (observations : List HostCapacityObservation) (snap : Snapshot)
    (host : Text) :
    (snap.addCapacityObservations observations).cpuUsed host =
        snap.cpuUsed host + extraCPU observations host ∧
      (snap.addCapacityObservations observations).memUsed host =
          snap.memUsed host + extraMem observations host ∧
        (snap.addCapacityObservations observations).vmCount = snap.vmCount := by
  unfold Snapshot.addCapacityObservations
  induction observations generalizing snap with
  | nil => simp [extraCPU, extraMem]
  | cons observed rest ih =>
    obtain ⟨cpu, mem, slots⟩ := ih (snap.addCapacityObservation observed)
    simp only [foldl_cons, extraCPU, extraMem, map_cons, sum_cons] at *
    rw [cpu, mem, slots]
    unfold Snapshot.addCapacityObservation
    cases unknown : (!observed.complete || observed.stale) with
    | true => simp
    | false =>
      simp only [Bool.false_eq_true, if_false, bump_apply, true_and]
      exact ⟨by ring, by ring, trivial⟩

theorem buildSnapshot_usage (hosts : List HostRecord) (vms : List VMRecord)
    (containerMemMiB : List (Text × Int)) (observations : List HostCapacityObservation)
    (host : Text) :
    let snap := buildSnapshot hosts vms containerMemMiB observations
    snap.cpuUsed host = held (fun vm => vm.cpuActual) vms host + extraCPU observations host ∧
      snap.memUsed host = held (fun vm => vm.memActual) vms host +
        (containerMemMiB.map fun row => if host = row.1 then row.2 else 0).sum +
          extraMem observations host ∧
        snap.vmCount host = held (fun _ => 1) vms host := by
  obtain ⟨cpu, mem, slots⟩ := foldl_observations observations
    ((buildSnapshotFrom hosts vms).addContainerMemory containerMemMiB) host
  obtain ⟨vmCPU, vmMem, vmSlots⟩ := foldl_countVM vms
    { hosts := hosts, hostsBy := hosts, vms := vms, cpuUsed := fun _ => 0, memUsed := fun _ => 0,
      vmCount := fun _ => 0, capacityUnknown := fun _ => false, devices := fun _ => [],
      replicasByBase := fun _ => none, vmHost := fun _ => none } host
  refine ⟨cpu.trans ?_, mem.trans ?_, (congrFun slots host).trans ?_⟩
  · rw [Snapshot.addContainerMemory, buildSnapshotFrom, vmCPU]
    ring
  · have containers := foldl_bump Prod.fst Prod.snd containerMemMiB
      (buildSnapshotFrom hosts vms).memUsed host
    rw [buildSnapshotFrom, vmMem] at containers
    refine (congrArg (· + extraMem observations host) containers).trans ?_
    ring
  · rw [Snapshot.addContainerMemory, buildSnapshotFrom, vmSlots]
    ring

variable {vms : List VMRecord} {vm : VMRecord}

theorem sum_relocate (f : VMRecord → Int) (distinct : (vms.map VMRecord.name).Nodup)
    (member : vm ∈ vms) (dst : Text) :
    ((relocate vms vm.name dst).map f).sum =
      (vms.map f).sum - f vm + f { vm with hostName := dst } := by
  induction vms with
  | nil => cases member
  | cons first rest ih =>
    obtain ⟨fresh, distinctRest⟩ := nodup_cons.mp distinct
    rw [relocate, map_cons, map_cons, map_cons, sum_cons, sum_cons]
    rcases mem_cons.mp member with rfl | later
    · have unchanged : (rest.map fun other =>
          if other.name = vm.name then { other with hostName := dst } else other) = rest := by
        refine (map_congr_left fun other inRest => ?_).trans (map_id rest)
        rw [if_neg fun same => fresh (mem_map.mpr ⟨other, inRest, same⟩)]
        rfl
      rw [unchanged, if_pos rfl]
      ring
    · have different : first.name ≠ vm.name := fun same =>
        fresh (mem_map.mpr ⟨vm, later, same.symm⟩)
      have sum := ih distinctRest later
      rw [relocate] at sum
      rw [sum, if_neg different]
      ring

theorem held_relocate {amount : VMRecord → Int} (dst : Text)
    (distinct : (vms.map VMRecord.name).Nodup) (member : vm ∈ vms)
    (counted : countsAgainstHost vm.state = true)
    (still : amount { vm with hostName := dst } = amount vm) (host : Text) :
    held amount (relocate vms vm.name dst) host =
      held amount vms host - (if host = vm.hostName then amount vm else 0) +
        if host = dst then amount vm else 0 := by
  unfold held
  rw [sum_relocate _ distinct member dst]
  simp only [counted, true_and, still]

theorem liveReplicas_eq_held (vms : List VMRecord) (base host : Text) :
    Snapshot.liveReplicas vms base host =
      held (fun vm => if replicaOf base vm.name then 1 else 0) vms host := by
  unfold Snapshot.liveReplicas held
  induction vms with
  | nil => rfl
  | cons vm rest ih =>
    rw [map_cons, sum_cons, ← ih]
    by_cases counted : countsAgainstHost vm.state = true
    · by_cases replica : replicaOf base vm.name = true
      · by_cases here : host = vm.hostName
        · simp [counted, replica, here]
          ring
        · simp [counted, replica, here, Ne.symm here]
      · simp [counted, replica]
    · simp [counted]

theorem names_relocate (vms : List VMRecord) (name dst : Text) :
    (relocate vms name dst).map VMRecord.name = vms.map VMRecord.name := by
  unfold relocate
  rw [map_map]
  refine map_congr_left fun vm _ => ?_
  simp only [comp_apply]
  split_ifs <;> rfl

theorem mem_relocate {name dst : Text} :
    vm ∈ relocate vms name dst ↔
      (vm ∈ vms ∧ vm.name ≠ name) ∨
        ∃ before ∈ vms, before.name = name ∧ vm = { before with hostName := dst } := by
  unfold relocate
  rw [mem_map]
  constructor
  · rintro ⟨before, member, rfl⟩
    split_ifs with moved
    · exact .inr ⟨before, member, moved, rfl⟩
    · exact .inl ⟨member, moved⟩
  · rintro (⟨member, other⟩ | ⟨before, member, moved, rfl⟩)
    · exact ⟨vm, member, if_neg other⟩
    · exact ⟨before, member, if_pos moved⟩

theorem countVM_vmHost (snap : Snapshot) (vm : VMRecord) (name : Text) :
    (snap.countVM vm).vmHost name =
      if countsAgainstHost vm.state ∧ name = vm.name then some vm.hostName
      else snap.vmHost name := by
  unfold Snapshot.countVM
  by_cases counted : countsAgainstHost vm.state = true
  · by_cases same : name = vm.name
    · subst same
      simp [counted]
    · simp [counted, same]
  · simp [counted]

theorem foldl_countVM_vmHost (vms : List VMRecord) (snap : Snapshot) (name : Text)
    (absent : ∀ vm ∈ vms, countsAgainstHost vm.state = true → vm.name ≠ name) :
    (vms.foldl Snapshot.countVM snap).vmHost name = snap.vmHost name := by
  induction vms generalizing snap with
  | nil => rfl
  | cons vm rest ih =>
    rw [foldl_cons, ih _ fun other member => absent other (mem_cons_of_mem _ member),
      countVM_vmHost, if_neg]
    rintro ⟨counted, same⟩
    exact absent vm (by simp) counted same.symm

theorem foldl_countVM_vmHost_of_mem (distinct : (vms.map VMRecord.name).Nodup) (snap : Snapshot)
    (member : vm ∈ vms) (counted : countsAgainstHost vm.state = true) :
    (vms.foldl Snapshot.countVM snap).vmHost vm.name = some vm.hostName := by
  induction vms generalizing snap with
  | nil => cases member
  | cons first rest ih =>
    obtain ⟨fresh, distinctRest⟩ := nodup_cons.mp distinct
    rw [foldl_cons]
    rcases mem_cons.mp member with rfl | later
    · rw [foldl_countVM_vmHost _ _ _ fun other inRest _ same =>
        fresh (mem_map.mpr ⟨other, inRest, same⟩), countVM_vmHost, if_pos ⟨counted, rfl⟩]
    · exact ih distinctRest _ later

section Running

variable {hosts : List HostRecord} {vms : List VMRecord} {containerMemMiB : List (Text × Int)}
  {observations : List HostCapacityObservation}

theorem vmHost_of_mem (distinct : (vms.map VMRecord.name).Nodup) {vm : VMRecord}
    (member : vm ∈ vms) (counted : countsAgainstHost vm.state = true) :
    (buildSnapshot hosts vms containerMemMiB observations).vmHost vm.name = some vm.hostName := by
  rw [buildSnapshot, gathered_vmHost]
  exact foldl_countVM_vmHost_of_mem distinct _ member counted

theorem vmHost_of_absent {name : Text}
    (absent : ∀ vm ∈ vms, countsAgainstHost vm.state = true → vm.name ≠ name) :
    (buildSnapshot hosts vms containerMemMiB observations).vmHost name = none := by
  rw [buildSnapshot, gathered_vmHost]
  exact foldl_countVM_vmHost vms _ name absent

theorem vmHost_relocate (distinct : (vms.map VMRecord.name).Nodup) {vm : VMRecord}
    (member : vm ∈ vms) (counted : countsAgainstHost vm.state = true) (dst : Text) :
    (buildSnapshot hosts (relocate vms vm.name dst) containerMemMiB observations).vmHost =
      Function.update (buildSnapshot hosts vms containerMemMiB observations).vmHost vm.name
        (some dst) := by
  have distinctAfter : ((relocate vms vm.name dst).map VMRecord.name).Nodup := by
    rw [names_relocate]
    exact distinct
  funext name
  by_cases same : name = vm.name
  · subst same
    rw [update_self]
    exact vmHost_of_mem distinctAfter (mem_relocate.mpr (.inr ⟨vm, member, rfl, rfl⟩)) counted
  rw [update_of_ne same]
  by_cases present : ∃ other ∈ vms, countsAgainstHost other.state = true ∧ other.name = name
  · obtain ⟨other, inVMs, alsoCounted, rfl⟩ := present
    rw [vmHost_of_mem distinct inVMs alsoCounted]
    exact vmHost_of_mem distinctAfter (mem_relocate.mpr (.inl ⟨inVMs, same⟩)) alsoCounted
  rw [vmHost_of_absent fun other inVMs alsoCounted named =>
    present ⟨other, inVMs, alsoCounted, named⟩]
  refine vmHost_of_absent fun other moved alsoCounted named => ?_
  rcases mem_relocate.mp moved with ⟨inVMs, -⟩ | ⟨before, -, itself, rfl⟩
  · exact present ⟨other, inVMs, alsoCounted, named⟩
  · exact same (named.symm.trans itself)

end Running

end Litevirt.Placement

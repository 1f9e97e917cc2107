import Litevirt.Placement.Rebalance

/-!
# What the moves of a cycle keep

The constraints of the running VMs after all the moves of a cycle.  A move keeps every constraint
of the moved VM.  It keeps those of the others when they are the moved VM's too, and the replicas
of a group are counted right as long as none of them was moved earlier in the cycle.
-/

namespace Litevirt.Placement

open Litevirt.Lib List Function

/-! ## Clusters -/

/-- The records of a cluster; hosts and VMs have their names as keys. -/
structure Cluster where
  hosts : List HostRecord
  vms : List VMRecord
  containerMemMiB : List (Text × Int)
  observations : List HostCapacityObservation
  hostNames : (hosts.map HostRecord.name).Nodup
  vmNames : (vms.map VMRecord.name).Nodup

namespace Cluster

variable (cluster : Cluster)

def snapshot : Snapshot :=
  buildSnapshot cluster.hosts cluster.vms cluster.containerMemMiB cluster.observations

def move (name dst : Text) : Cluster :=
  { cluster with
    vms := relocate cluster.vms name dst
    vmNames := by
      rw [names_relocate]
      exact cluster.vmNames }

def applyMoves (moves : List Proposal) : Cluster :=
  moves.foldl (fun cluster move => cluster.move move.vmName move.dst) cluster

theorem eq_of_name {vm other : VMRecord} (member : vm ∈ cluster.vms) (also : other ∈ cluster.vms)
    (same : vm.name = other.name) : vm = other :=
  inj_on_of_nodup_map cluster.vmNames member also same

end Cluster

def running (vm : VMRecord) : Bool := vm.state = "running".toList

variable {vm : VMRecord}

theorem countsAgainstHost_of_running (runs : running vm = true) :
    countsAgainstHost vm.state = true := by
  have state : vm.state = "running".toList := of_decide_eq_true runs
  rw [state]
  decide

/-- The running VMs satisfy their limits, their anti-affinity lists and their required labels, and
every host is within its capacity. -/
structure Satisfied (env : Environment) (cluster : Cluster) : Prop where
  capacity : ∀ host ∈ cluster.hosts, cluster.snapshot.Within env.capacity host
  limits : ∀ vm ∈ cluster.vms, running vm = true → 0 < maxPerNodeOf env vm →
    Snapshot.liveReplicas cluster.vms (vmBaseName vm.name) vm.hostName ≤ maxPerNodeOf env vm
  apart : ∀ vm ∈ cluster.vms, running vm = true → ∀ name ∈ antiAffinityOf env vm,
    name ≠ vm.name → cluster.snapshot.vmHost name ≠ some vm.hostName
  labels : ∀ vm ∈ cluster.vms, running vm = true → ∀ host ∈ cluster.hosts,
    host.name = vm.hostName → labelsMatch host.labels (requireOf env vm) = true

/-! ## What the ranking has checked -/

theorem replicaOf_vmBaseName (name : Text) : replicaOf (vmBaseName name) name = true := by
  have whole : replicaOf name name = true := by simp [replicaOf]
  unfold vmBaseName
  have parts := takeWhile_append_dropWhile (p := (· ≠ '-')) (l := name.reverse)
  cases rest : name.reverse.dropWhile (· ≠ '-') with
  | nil => exact whole
  | cons dash front =>
    simp only
    split_ifs with numbered
    · have isDash : dash = '-' := by
        have head := head?_dropWhile_not (· ≠ '-') name.reverse
        rw [rest] at head
        simpa using head
      rw [rest, isDash] at parts
      have spelled := congrArg List.reverse parts
      rw [reverse_reverse, reverse_append, reverse_cons] at spelled
      unfold replicaOf
      rw [Bool.or_eq_true]
      right
      rw [List.isPrefixOf_iff_prefix]
      exact ⟨_, spelled⟩
    · exact whole

variable {env : Environment}

theorem buildPlacementRequest_labels (pol : VMPolicy) (warm : coldOnly env vm = false) :
    (buildPlacementRequest env vm pol).requireLabels = requireOf env vm := by
  have none : firmwareLabels env vm = [] := by
    unfold coldOnly at warm
    unfold firmwareLabels
    cases spec : specOf env vm with
    | none => rfl
    | some spec' =>
      rw [spec] at warm
      simp only [Option.any_some, Bool.or_eq_false_iff] at warm
      simp [warm]
  simp [buildPlacementRequest, none]

/-- What the ranking has checked for a VM on the host it is moved to, on the working copy. -/
structure Checked (env : Environment) (snap : Snapshot) (vm : VMRecord) (host : HostRecord) :
    Prop where
  elsewhere : host.name ≠ vm.hostName
  capacity : 0 < vm.memActual → snap.cpuUsed host.name ≤ env.capacity.allocatableCPU host →
    Within env.capacity host (snap.cpuUsed host.name + vm.cpuActual)
      (snap.memUsed host.name + vm.memActual) (snap.vmCount host.name + 1)
  apart : ∀ name ∈ antiAffinityOf env vm, name ≠ vm.name → snap.vmHost name ≠ some host.name
  labels : coldOnly env vm = false → labelsMatch host.labels (requireOf env vm) = true

/-- Among the given VMs the host has fewer replicas of the VM's group than its limit. -/
def Roomy (env : Environment) (vms : List VMRecord) (vm : VMRecord) (host : Text) : Prop :=
  0 < maxPerNodeOf env vm → vmBaseName vm.name ≠ [] →
    Snapshot.liveReplicas vms (vmBaseName vm.name) host < maxPerNodeOf env vm

variable {host : Text}

theorem snapshotWithoutVM_elsewhere (snap : Snapshot) (vm : VMRecord)
    (elsewhere : host ≠ vm.hostName) :
    (snapshotWithoutVM snap vm).cpuUsed host = snap.cpuUsed host ∧
      (snapshotWithoutVM snap vm).memUsed host = snap.memUsed host ∧
        (snapshotWithoutVM snap vm).vmCount host = snap.vmCount host := by
  unfold snapshotWithoutVM
  cases countsAgainstHost vm.state with
  | true => simp [bump_apply, elsewhere]
  | false => simp

theorem checked_of_admits {snap : Snapshot} {pol : VMPolicy}
    {host : HostRecord} (elsewhere : host.name ≠ vm.hostName) (admits : Admits
      (if 0 < maxPerNodeOf env vm then
        (snapshotWithoutVM snap vm).seedReplicasForBase (vmBaseName vm.name)
      else snapshotWithoutVM snap vm) (buildPlacementRequest env vm pol) host) :
    Checked env snap vm host ∧
      Roomy env (snap.vms.filter fun other => other.name ≠ vm.name) vm host.name := by
  obtain ⟨cpu, mem, slots⟩ := snapshotWithoutVM_elsewhere snap vm elsewhere
  generalize ranked : (if 0 < maxPerNodeOf env vm then
    (snapshotWithoutVM snap vm).seedReplicasForBase (vmBaseName vm.name)
    else snapshotWithoutVM snap vm) = seeded at admits
  have counters : seeded.cpuUsed = (snapshotWithoutVM snap vm).cpuUsed ∧
      seeded.memUsed = (snapshotWithoutVM snap vm).memUsed ∧
        seeded.vmCount = (snapshotWithoutVM snap vm).vmCount ∧
          seeded.vmHost = (snapshotWithoutVM snap vm).vmHost := by
    rw [← ranked]
    unfold Snapshot.seedReplicasForBase
    split_ifs <;> exact ⟨rfl, rfl, rfl, rfl⟩
  refine ⟨⟨elsewhere, fun positive fits => ?_, fun name listed other => ?_, fun warm => ?_⟩,
    fun positive named => ?_⟩
  · have within := admits.within (by simpa [buildPlacementRequest] using positive) (by
      rw [counters.1, cpu]
      exact fits)
    rw [counters.1, counters.2.1, counters.2.2.1, cpu, mem, slots] at within
    simpa [buildPlacementRequest] using within
  · have away := admits.apart name listed
    rw [counters.2.2.2] at away
    simpa [snapshotWithoutVM, other] using away
  · rw [← buildPlacementRequest_labels pol warm]
    exact admits.labels
  · have room := admits.limit positive named
    rw [← ranked, if_pos positive] at room
    unfold replicas at room
    rw [seedReplicasForBase_replicas, if_pos ⟨rfl, named, rfl⟩] at room
    exact room

section Ranked

variable [Ranking]

theorem bestMove_eq_some {env : Environment} {snap : Snapshot} {vm : VMRecord} {pol : VMPolicy}
    {move : Proposal} (found : bestMove env snap vm pol = some move) :
    move.vmName = vm.name ∧ move.src = vm.hostName ∧
      ∃ host ∈ snap.hostsBy, host.name = move.dst ∧ Checked env snap vm host ∧
        Roomy env (snap.vms.filter fun other => other.name ≠ vm.name) vm host.name := by
  unfold bestMove at found
  split at found
  · cases found
  split at found
  · cases found
  rename_i ranked scored
  split at found
  · cases found
  rename_i best searched
  simp only [Option.ite_none_left_eq_some, Option.some.injEq] at found
  obtain ⟨-, rfl⟩ := found
  obtain ⟨-, passed⟩ := scoreCandidates_eq_ok scored
  obtain ⟨inside, left⟩ := passed best (mem_of_find?_eq_some searched)
  have elsewhere : best.host.name ≠ vm.hostName := by
    simpa using find?_some searched
  refine ⟨rfl, rfl, best.host, ?_, rfl, checked_of_admits elsewhere (.of_rejections left)⟩
  split_ifs at inside
  · rw [(seedReplicasForBase_hosts _ _).2] at inside
    exact inside
  · exact inside

end Ranked

/-! ## A move on the cluster -/

section Move

variable {cluster : Cluster} {vm : VMRecord}

theorem Cluster.move_counters (dst : Text) (member : vm ∈ cluster.vms)
    (counted : countsAgainstHost vm.state = true) (host : Text) :
    (cluster.move vm.name dst).snapshot.cpuUsed host =
        cluster.snapshot.cpuUsed host - (if host = vm.hostName then (vm.cpuActual : Int) else 0) +
          (if host = dst then (vm.cpuActual : Int) else 0) ∧
      (cluster.move vm.name dst).snapshot.memUsed host =
          cluster.snapshot.memUsed host -
            (if host = vm.hostName then (vm.memActual : Int) else 0) +
              (if host = dst then (vm.memActual : Int) else 0) ∧
        (cluster.move vm.name dst).snapshot.vmCount host =
          cluster.snapshot.vmCount host - (if host = vm.hostName then 1 else 0) +
            if host = dst then 1 else 0 := by
  obtain ⟨cpu, mem, slots⟩ := buildSnapshot_usage cluster.hosts cluster.vms
    cluster.containerMemMiB cluster.observations host
  obtain ⟨cpu', mem', slots'⟩ := buildSnapshot_usage cluster.hosts
    (relocate cluster.vms vm.name dst) cluster.containerMemMiB cluster.observations host
  have moved (amount : VMRecord → Int) (still : amount { vm with hostName := dst } = amount vm) :=
    held_relocate dst cluster.vmNames member counted still host
  refine ⟨?_, ?_, ?_⟩
  · rw [Cluster.snapshot, Cluster.move, cpu', moved (fun vm => vm.cpuActual) rfl, Cluster.snapshot,
      cpu]
    ring
  · rw [Cluster.snapshot, Cluster.move, mem', moved (fun vm => vm.memActual) rfl, Cluster.snapshot,
      mem]
    ring
  · rw [Cluster.snapshot, Cluster.move, slots', moved (fun _ => 1) rfl, Cluster.snapshot, slots]

/-- A replica of the group is one more on the host it is moved to and one less on its own. -/
theorem Cluster.move_replicas (dst : Text) (member : vm ∈ cluster.vms)
    (counted : countsAgainstHost vm.state = true) (base host : Text) :
    Snapshot.liveReplicas (cluster.move vm.name dst).vms base host =
      Snapshot.liveReplicas cluster.vms base host -
        (if host = vm.hostName ∧ replicaOf base vm.name then 1 else 0) +
          if host = dst ∧ replicaOf base vm.name then 1 else 0 := by
  rw [liveReplicas_eq_held, liveReplicas_eq_held, Cluster.move,
    held_relocate dst cluster.vmNames member counted rfl host]
  simp only [ite_and]

/-- What is asked of the VM beside the checks: its own constraints cover those of the others. -/
structure Guard (env : Environment) (cluster : Cluster) (vm : VMRecord) : Prop where
  mem : 0 < vm.memActual
  answered : ∀ other ∈ cluster.vms, running other = true → vm.name ∈ antiAffinityOf env other →
    other.name ≠ vm.name → other.name ∈ antiAffinityOf env vm
  grouped : ∀ other ∈ cluster.vms, running other = true → 0 < maxPerNodeOf env other →
    replicaOf (vmBaseName other.name) vm.name = true →
      vmBaseName vm.name = vmBaseName other.name ∧ vmBaseName vm.name ≠ [] ∧
        0 < maxPerNodeOf env vm ∧ maxPerNodeOf env vm ≤ maxPerNodeOf env other

/-- A checked move keeps every constraint when the replicas of the VM's group are counted right. -/
theorem Satisfied.move {env : Environment} {host : HostRecord}
    (satisfied : Satisfied env cluster) (member : vm ∈ cluster.vms) (runs : running vm = true)
    (warm : coldOnly env vm = false) (inside : host ∈ cluster.hosts)
    (guard : Guard env cluster vm) (checked : Checked env cluster.snapshot vm host)
    (count : Roomy env cluster.vms vm host.name) :
    Satisfied env (cluster.move vm.name host.name) := by
  have counted := countsAgainstHost_of_running runs
  have runsOn : (cluster.move vm.name host.name).snapshot.vmHost =
      Function.update cluster.snapshot.vmHost vm.name (some host.name) :=
    vmHost_relocate cluster.vmNames member counted host.name
  refine ⟨fun other known => ?_, fun other moved otherRuns positive => ?_,
    fun other moved otherRuns name listed notSelf => ?_,
    fun other moved otherRuns target known here => ?_⟩
  · obtain ⟨cpu, mem, slots⟩ := Cluster.move_counters host.name member counted other.name
    have before := satisfied.capacity other known
    unfold Snapshot.Within
    rw [cpu, mem, slots]
    by_cases here : other.name = host.name
    · obtain rfl : other = host := inj_on_of_nodup_map cluster.hostNames known inside here
      have within := checked.capacity guard.mem before.1
      simpa [checked.elsewhere] using within
    refine Within.mono before ?_ ?_ ?_
    all_goals
      split_ifs <;> omega
  · rw [Cluster.move_replicas host.name member counted]
    rcases mem_relocate.mp moved with ⟨stays, -⟩ | ⟨before, was, itself, rfl⟩
    · have bound := satisfied.limits other stays otherRuns positive
      by_cases joined : other.hostName = host.name ∧
          replicaOf (vmBaseName other.name) vm.name = true
      · obtain ⟨sameGroup, named, limited, smaller⟩ :=
          guard.grouped other stays otherRuns positive joined.2
        have room := count limited named
        rw [← sameGroup, joined.1]
        split_ifs <;> omega
      · split_ifs <;> omega
    · obtain rfl := cluster.eq_of_name was member itself
      have room := count positive (guard.grouped _ member runs positive
        (replicaOf_vmBaseName _)).2.1
      simp only [replicaOf_vmBaseName, and_true, if_true]
      have same :
          maxPerNodeOf env { before with hostName := host.name } = maxPerNodeOf env before := rfl
      omega
  · rw [runsOn]
    rcases mem_relocate.mp moved with ⟨stays, different⟩ | ⟨before, was, itself, rfl⟩
    · by_cases moving : name = vm.name
      · subst moving
        rw [update_self]
        have mutually := guard.answered other stays otherRuns listed different
        have away := checked.apart other.name mutually different
        rw [show cluster.snapshot.vmHost other.name = some other.hostName from
          vmHost_of_mem cluster.vmNames stays (countsAgainstHost_of_running otherRuns)] at away
        exact fun together => away together.symm
      · rw [update_of_ne moving]
        exact satisfied.apart other stays otherRuns name listed notSelf
    · obtain rfl := cluster.eq_of_name was member itself
      rw [update_of_ne notSelf]
      exact checked.apart name listed notSelf
  · rcases mem_relocate.mp moved with ⟨stays, -⟩ | ⟨before, was, itself, rfl⟩
    · exact satisfied.labels other stays otherRuns target known here
    · obtain rfl := cluster.eq_of_name was member itself
      obtain rfl : target = host := inj_on_of_nodup_map cluster.hostNames known inside here
      exact checked.labels warm

end Move

/-! ## A cycle -/

/-- The working copy follows the cluster in everything but its list of VMs. -/
structure Tracks (working : Snapshot) (start cluster : Cluster) : Prop where
  cpu : working.cpuUsed = cluster.snapshot.cpuUsed
  mem : working.memUsed = cluster.snapshot.memUsed
  slots : working.vmCount = cluster.snapshot.vmCount
  vmHost : working.vmHost = cluster.snapshot.vmHost
  hostsBy : working.hostsBy = start.hosts
  vms : working.vms = start.vms

theorem Tracks.commitMove {working : Snapshot} {start cluster : Cluster}
    {move : Proposal} (tracks : Tracks working start cluster) (member : vm ∈ cluster.vms)
    (counted : countsAgainstHost vm.state = true) (source : move.src = vm.hostName) :
    Tracks (commitMove working vm move) start (cluster.move vm.name move.dst) where
  cpu := by
    funext host
    rw [(Cluster.move_counters move.dst member counted host).1, Placement.commitMove, source]
    simp only [bump_apply, tracks.cpu]
    split_ifs <;> ring
  mem := by
    funext host
    rw [(Cluster.move_counters move.dst member counted host).2.1, Placement.commitMove, source]
    simp only [bump_apply, tracks.mem]
    split_ifs <;> ring
  slots := by
    funext host
    rw [(Cluster.move_counters move.dst member counted host).2.2, Placement.commitMove, source]
    simp only [bump_apply, tracks.slots]
    split_ifs <;> ring
  vmHost := by
    rw [Placement.commitMove, tracks.vmHost]
    exact (vmHost_relocate cluster.vmNames member counted move.dst).symm
  hostsBy := tracks.hostsBy
  vms := tracks.vms

/-- What holds after some VMs of a cycle were considered. -/
structure Progress (env : Environment) (start : Cluster) (round : Round) : Prop where
  tracks : Tracks round.working start (start.applyMoves round.proposals)
  satisfied : Satisfied env (start.applyMoves round.proposals)
  hosts : (start.applyMoves round.proposals).hosts = start.hosts
  unmoved : ∀ vm ∈ start.vms, (∀ move ∈ round.proposals, move.vmName ≠ vm.name) →
    vm ∈ (start.applyMoves round.proposals).vms
  counts : ∀ base, (∀ move ∈ round.proposals, replicaOf base move.vmName = false) →
    ∀ host, Snapshot.liveReplicas (start.applyMoves round.proposals).vms base host =
      Snapshot.liveReplicas start.vms base host

/-- The condition of a step: the VM's own constraints cover those of the others, and no replica of
its group was moved earlier in the cycle. -/
structure Fit (env : Environment) (start : Cluster) (round : Round) (vm : VMRecord) : Prop where
  guard : Guard env (start.applyMoves round.proposals) vm
  first : 0 < maxPerNodeOf env vm →
    ∀ move ∈ round.proposals, replicaOf (vmBaseName vm.name) move.vmName = false

theorem liveReplicas_without {vms : List VMRecord} (distinct : (vms.map VMRecord.name).Nodup)
    (member : vm ∈ vms) (elsewhere : host ≠ vm.hostName) (base : Text) :
    Snapshot.liveReplicas (vms.filter fun other => other.name ≠ vm.name) base host =
      Snapshot.liveReplicas vms base host := by
  unfold Snapshot.liveReplicas
  rw [countP_filter]
  refine congrArg Nat.cast (countP_congr fun other inVMs => ?_)
  simp only [Bool.and_eq_true, decide_eq_true_eq, and_iff_left_iff_imp]
  rintro ⟨-, here⟩ same
  obtain rfl := inj_on_of_nodup_map distinct inVMs member same
  exact elsewhere here.symm

section Steps

variable [Ranking] {env : Environment} {start : Cluster}

/-- A considered VM stays, or is moved with a check against the working copy. -/
theorem consider_cases (limit : Int) (round : Round) (vm : VMRecord) :
    consider env limit round vm = round ∨
      ∃ move host, host ∈ round.working.hostsBy ∧ host.name = move.dst ∧ move.vmName = vm.name ∧
        move.src = vm.hostName ∧ considered env vm (resolveVMPolicyFromSpec (specOf env vm)) ∧
          round.proposals.length < limit ∧ Checked env round.working vm host ∧
            Roomy env (round.working.vms.filter fun other => other.name ≠ vm.name) vm host.name ∧
              consider env limit round vm =
                ⟨commitMove round.working vm move, round.proposals ++ [move]⟩ := by
  unfold consider
  simp only
  split_ifs with skipped
  · exact .inl rfl
  cases found : bestMove env round.working vm (resolveVMPolicyFromSpec (specOf env vm)) with
  | none => exact .inl rfl
  | some move =>
    obtain ⟨named, source, host, inside, target, checked, roomy⟩ := bestMove_eq_some found
    simp only [Bool.or_eq_true, Bool.not_eq_true', Bool.not_eq_false, not_or, decide_eq_true_eq,
      not_le] at skipped
    exact .inr ⟨move, host, inside, target, named, source, skipped.1, skipped.2, checked, roomy,
      rfl⟩

variable {vm : VMRecord}

omit [Ranking] in
theorem running_of_considered {pol : VMPolicy} (looked : considered env vm pol) :
    running vm = true ∧ coldOnly env vm = false := by
  simp only [considered, Bool.and_eq_true, Bool.not_eq_true'] at looked
  exact ⟨looked.1.1.1.1, looked.1.1.1.2⟩

variable {round : Round}

theorem Progress.consider {limit : Int} (progress : Progress env start round)
    (member : vm ∈ start.vms) (fresh : ∀ move ∈ round.proposals, move.vmName ≠ vm.name)
    (fits : considered env vm (resolveVMPolicyFromSpec (specOf env vm)) →
      round.proposals.length < limit → Fit env start round vm) :
    Progress env start (consider env limit round vm) := by
  rcases consider_cases limit round vm with
    same | ⟨move, host, inside, target, named, source, looked, left, checked, roomy, next⟩
  · rw [same]
    exact progress
  rw [next]
  have fit := fits looked left
  obtain ⟨runs, warm⟩ := running_of_considered looked
  have counted := countsAgainstHost_of_running runs
  have still := progress.unmoved vm member fresh
  have applied : start.applyMoves (round.proposals ++ [move]) =
      (start.applyMoves round.proposals).move vm.name move.dst := by
    rw [Cluster.applyMoves, foldl_append, ← named]
    rfl
  have known : host ∈ (start.applyMoves round.proposals).hosts := by
    rw [progress.hosts, ← progress.tracks.hostsBy]
    exact inside
  have current : Checked env (start.applyMoves round.proposals).snapshot vm host :=
    ⟨checked.elsewhere, by
      rw [← progress.tracks.cpu, ← progress.tracks.mem, ← progress.tracks.slots]
      exact checked.capacity, by
      rw [← progress.tracks.vmHost]
      exact checked.apart, checked.labels⟩
  -- No replica of the group was moved, so that the stale list of VMs counts them right.
  have count : Roomy env (start.applyMoves round.proposals).vms vm host.name := by
    intro positive base
    have room := roomy positive base
    rw [progress.tracks.vms,
      liveReplicas_without start.vmNames member checked.elsewhere] at room
    rw [progress.counts _ (fit.first positive)]
    exact room
  refine ⟨?_, ?_, ?_, ?_, ?_⟩
  · rw [applied]
    exact progress.tracks.commitMove still counted source
  · rw [applied, ← target]
    exact progress.satisfied.move still runs warm known fit.guard current count
  · rw [applied]
    exact progress.hosts
  · intro other inStart notMoved
    rw [applied]
    have before := progress.unmoved other inStart fun earlier listed =>
      notMoved earlier (mem_append_left _ listed)
    have different := notMoved move (by simp)
    exact mem_relocate.mpr (.inl ⟨before, fun same => different (named.trans same.symm)⟩)
  · intro base apart at'
    rw [applied, Cluster.move_replicas move.dst still counted,
      progress.counts base fun earlier listed => apart earlier (mem_append_left _ listed)]
    have outside : replicaOf base vm.name = false := by
      rw [← named]
      exact apart move (by simp)
    simp [outside]

/-- Every VM the cycle looks at meets the condition in the round it is looked at in; once the
budget is spent none is looked at. -/
def Along (env : Environment) (start : Cluster) (limit : Int) : Round → List VMRecord → Prop
  | _, [] => True
  | round, vm :: rest =>
    (considered env vm (resolveVMPolicyFromSpec (specOf env vm)) →
        round.proposals.length < limit → Fit env start round vm) ∧
      Along env start limit (consider env limit round vm) rest

theorem Progress.run {order : List VMRecord} {limit : Int}
    (progress : Progress env start round) (members : ∀ vm ∈ order, vm ∈ start.vms)
    (distinct : (order.map VMRecord.name).Nodup)
    (fresh : ∀ vm ∈ order, ∀ move ∈ round.proposals, move.vmName ≠ vm.name)
    (along : Along env start limit round order) :
    Progress env start (order.foldl (Placement.consider env limit) round) := by
  induction order generalizing round with
  | nil => exact progress
  | cons vm rest ih =>
    obtain ⟨once, distinctRest⟩ := nodup_cons.mp distinct
    obtain ⟨fits, later⟩ := along
    refine ih (progress.consider (members vm (by simp)) (fresh vm (by simp)) fits)
      (fun other listed => members other (mem_cons_of_mem _ listed)) distinctRest ?_ later
    intro other listed move proposed
    rcases consider_cases limit round vm with
      same | ⟨added, host, -, -, named, -, -, -, -, -, next⟩
    · rw [same] at proposed
      exact fresh other (mem_cons_of_mem _ listed) move proposed
    · rw [next, mem_append, mem_singleton] at proposed
      rcases proposed with before | rfl
      · exact fresh other (mem_cons_of_mem _ listed) move before
      · rw [named]
        exact fun same => once (mem_map.mpr ⟨other, listed, same.symm⟩)

omit [Ranking] in
theorem Progress.begin (satisfied : Satisfied env start) :
    Progress env start ⟨start.snapshot, []⟩ where
  tracks := ⟨rfl, rfl, rfl, rfl, (fresh_gathered start.hosts start.vms start.containerMemMiB
    start.observations).hostsBy, (fresh_gathered start.hosts start.vms start.containerMemMiB
    start.observations).vms⟩
  satisfied := satisfied
  hosts := rfl
  unmoved _ member _ := member
  counts _ _ _ := rfl

end Steps

/-! ## Two replicas of one cycle -/

@[reducible] def thirdFirst : Ranking where
  devicesFit _ _ _ := some 0
  topologyScore _ _ := []
  strained _ _ _ := false
  score _ host _ _ := if host.name = "h3".toList then 1 else 0

/-- Every spec limits its group to the given number on a host; every better host is worth a move. -/
def oneLimit (limit : Int) : Environment where
  parseSpec _ := some ⟨false, false, false,
    some ⟨[], [], [], [], false, limit, .unset, false, none⟩, []⟩
  recentProposal _ _ := false
  appliedInLastHour := some 0
  worthwhile _ _ _ := true
  capacity := evenPolicy

def replica (name host : String) : VMRecord :=
  ⟨name.toList, host.toList, "running".toList, 1, 512, []⟩

def threeHosts (vms : List VMRecord) (names : (vms.map VMRecord.name).Nodup) : Cluster :=
  ⟨[worker "h1", worker "h2", worker "h3"], vms, [], [], by decide, names⟩

end Litevirt.Placement

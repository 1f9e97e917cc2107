import Litevirt.Placement.Engine

/-!
# What a batch leaves on the hosts

A placed request adds its own figures on the chosen host and takes the replaced allocation from
the host that held it; a refused request changes nothing.  The counters of the snapshot are the
sums of these changes.
-/

namespace Litevirt.Placement

open Litevirt.Lib List Function

/-! ## What a request changes -/

section Changes

variable (req : Request) (chosen : Text)

def Request.freed (amount : Allocation → Nat) (host : Text) : Int :=
  match req.replaces with
  | some held => if held.host ≠ [] ∧ host = held.host then amount held else 0
  | none => 0

def Allocation.slot (held : Allocation) : Nat := if held.vm then 1 else 0

def Request.freedReplica (base host : Text) : Int :=
  if base = req.vmBaseName ∧ replicaOf base req.vmName then req.freed Allocation.slot host else 0

def cpuChange (host : Text) : Int :=
  (if host = chosen ∧ req.container = false then req.cpuNeeded else 0) -
    req.freed Allocation.cpu host

def memChange (host : Text) : Int :=
  (if host = chosen then req.memMiBNeeded else 0) - req.freed Allocation.memMiB host

def slotChange (host : Text) : Int :=
  (if host = chosen ∧ req.container = false then 1 else 0) - req.freed Allocation.slot host

def replicaChange (base host : Text) : Int :=
  (if host = chosen ∧ base = req.vmBaseName then 1 else 0) - req.freedReplica base host

end Changes

theorem Request.freed_nonneg (req : Request) (amount : Allocation → Nat) (host : Text) :
    0 ≤ req.freed amount host := by
  unfold Request.freed
  split
  · split_ifs <;> omega
  · exact le_rfl

theorem Request.freedReplica_nonneg (req : Request) (base host : Text) :
    0 ≤ req.freedReplica base host := by
  unfold Request.freedReplica
  split_ifs
  · exact req.freed_nonneg _ _
  · exact le_rfl

/-! ## The code's changes -/

structure Adjusted (before after : Snapshot) (req : Request) (sign : Int) : Prop where
  cpu : ∀ host, after.cpuUsed host = before.cpuUsed host + sign * req.freed Allocation.cpu host
  mem : ∀ host, after.memUsed host = before.memUsed host + sign * req.freed Allocation.memMiB host
  slots : ∀ host, after.vmCount host = before.vmCount host + sign * req.freed Allocation.slot host
  replicas : ∀ base, after.replicasByBase base =
    (before.replicasByBase base).map fun counts host =>
      counts host + sign * req.freedReplica base host
  vmHost : after.vmHost = before.vmHost
  rest : after.hosts = before.hosts ∧ after.hostsBy = before.hostsBy ∧ after.vms = before.vms ∧
    after.capacityUnknown = before.capacityUnknown ∧ after.devices = before.devices

variable {snap : Snapshot} {req : Request}

theorem Adjusted.unchanged {sign : Int}
    (nothing : ∀ amount host, req.freed amount host = 0) : Adjusted snap snap req sign := by
  have noReplica (base host : Text) : req.freedReplica base host = 0 := by
    simp [Request.freedReplica, nothing]
  exact ⟨by simp [nothing], by simp [nothing], by simp [nothing], by simp [noReplica], rfl,
    ⟨rfl, rfl, rfl, rfl, rfl⟩⟩

theorem adjusted (snap : Snapshot) (req : Request) (sign : Int) :
    Adjusted snap (snap.adjustAllocation req sign) req sign := by
  unfold Snapshot.adjustAllocation
  cases replaced : req.replaces with
  | none => exact .unchanged fun amount host => by simp [Request.freed, replaced]
  | some held =>
    simp only
    by_cases nowhere : held.host = []
    · rw [if_pos nowhere]
      exact .unchanged fun amount host => by simp [Request.freed, replaced, nowhere]
    have freed (amount : Allocation → Nat) (host : Text) :
        sign * req.freed amount host = if host = held.host then sign * amount held else 0 := by
      simp [Request.freed, replaced, nowhere]
    rw [if_neg nowhere]
    cases vm : held.vm with
    | false =>
      have noReplica (base host : Text) : req.freedReplica base host = 0 := by
        simp [Request.freedReplica, Request.freed, replaced, Allocation.slot, vm]
      exact ⟨fun host => by simp [bump_apply, freed], fun host => by simp [bump_apply, freed],
        fun host => by simp [freed, Allocation.slot, vm], by simp [noReplica], rfl,
        ⟨rfl, rfl, rfl, rfl, rfl⟩⟩
    | true =>
      have slot (host : Text) :
          sign * req.freed Allocation.slot host = if host = held.host then sign else 0 := by
        simp [freed, Allocation.slot, vm]
      simp only [Bool.not_true, Bool.false_eq_true, if_false]
      split_ifs with replica
      · refine ⟨fun host => by simp [Snapshot.bumpReplicas, bump_apply, freed],
          fun host => by simp [Snapshot.bumpReplicas, bump_apply, freed],
          fun host => by simp [Snapshot.bumpReplicas, bump_apply, slot], fun base => ?_, rfl,
          ⟨rfl, rfl, rfl, rfl, rfl⟩⟩
        by_cases same : base = req.vmBaseName
        · subst same
          simp only [Snapshot.bumpReplicas, update_self]
          refine congrArg (fun f => Option.map f _) ?_
          funext counts host
          simp [bump_apply, Request.freedReplica, replica, slot]
        · simp [Snapshot.bumpReplicas, Request.freedReplica, same]
      · refine ⟨fun host => by simp [bump_apply, freed], fun host => by simp [bump_apply, freed],
          fun host => by simp [bump_apply, slot], fun base => ?_, rfl,
          ⟨rfl, rfl, rfl, rfl, rfl⟩⟩
        have noReplica (host : Text) : req.freedReplica base host = 0 := by
          unfold Request.freedReplica
          rw [if_neg]
          rintro ⟨rfl, isReplica⟩
          exact replica isReplica
        simp [noReplica]

theorem restore_release (snap : Snapshot) (req : Request) :
    (snap.releaseAllocation req).restoreAllocation req = snap := by
  have out := adjusted snap req (-1)
  have back := adjusted (snap.releaseAllocation req) req 1
  have undone {start freed released restored : Int} (taken : released = start + -1 * freed)
      (given : restored = released + 1 * freed) : restored = start := by omega
  refine Snapshot.ext (back.rest.1.trans out.rest.1) (back.rest.2.1.trans out.rest.2.1)
    (back.rest.2.2.1.trans out.rest.2.2.1) ?_ ?_ ?_ (back.rest.2.2.2.1.trans out.rest.2.2.2.1)
    (back.rest.2.2.2.2.trans out.rest.2.2.2.2) ?_ (back.vmHost.trans out.vmHost)
  · exact funext fun host => undone (out.cpu host) (back.cpu host)
  · exact funext fun host => undone (out.mem host) (back.mem host)
  · exact funext fun host => undone (out.slots host) (back.slots host)
  funext base
  have first := out.replicas base
  have second := back.replicas base
  simp only [Snapshot.releaseAllocation, Snapshot.restoreAllocation] at *
  rw [second, first]
  cases snap.replicasByBase base with
  | none => rfl
  | some counts =>
    refine congrArg some ?_
    funext host
    ring

structure Committed (before after : Snapshot) (req : Request) (chosen : Text) : Prop where
  cpu : ∀ host, after.cpuUsed host = before.cpuUsed host + cpuChange req chosen host
  mem : ∀ host, after.memUsed host = before.memUsed host + memChange req chosen host
  slots : ∀ host, after.vmCount host = before.vmCount host + slotChange req chosen host
  replicas : ∀ base counts, base ≠ [] → before.replicasByBase base = some counts →
    after.replicasByBase base = some fun host => counts host + replicaChange req chosen base host
  vmHost : after.vmHost =
    if req.container then before.vmHost
    else Function.update before.vmHost req.vmName (some chosen)
  hosts : after.hosts = before.hosts
  hostsBy : after.hostsBy = before.hostsBy

theorem countReplica_of_some {base group host : Text} (counts : Text → Int)
    (named : base ≠ []) (counted : snap.replicasByBase base = some counts) :
    (snap.countReplica group host).replicasByBase base =
      some fun at' => counts at' + if at' = host ∧ base = group then 1 else 0 := by
  unfold Snapshot.countReplica
  by_cases same : base = group
  · subst same
    rw [if_neg named]
    simp only [update_self, counted, Option.getD_some]
    refine congrArg some ?_
    funext at'
    simp [bump_apply]
  · split_ifs <;> simp [counted, same]

theorem committed (snap : Snapshot) (req : Request) (chosen : Text)
    (devices : Text → List PCIDevice) :
    Committed snap (commit { snap.releaseAllocation req with devices := devices } req chosen) req
      chosen := by
  have out := adjusted snap req (-1)
  have released : snap.releaseAllocation req = snap.adjustAllocation req (-1) := rfl
  rw [released]
  have replicated {base : Text} {counts : Text → Int} {other : Snapshot}
      (same : other.replicasByBase = (snap.adjustAllocation req (-1)).replicasByBase)
      (named : base ≠ []) (counted : snap.replicasByBase base = some counts) :
      (other.countReplica req.vmBaseName chosen).replicasByBase base =
        some fun host => counts host + replicaChange req chosen base host := by
    have replicas := out.replicas base
    rw [counted, ← same] at replicas
    refine Eq.trans (countReplica_of_some _ named replicas) (congrArg some ?_)
    funext host
    simp only [replicaChange]
    ring
  unfold commit Snapshot.commitContainer Snapshot.commitPlacement
  cases container : req.container
  all_goals
    refine ⟨fun host => ?_, fun host => ?_, fun host => ?_, fun base counts named counted => ?_,
      ?_, ?_, ?_⟩
    · simp [cpuChange, container, bump_apply, out.cpu] <;> ring
    · simp [memChange, bump_apply, out.mem]
      ring
    · simp [slotChange, container, bump_apply, out.slots] <;> ring
    · exact replicated rfl named counted
    · simp [container, out.vmHost]
    · simp [out.rest]
    · simp [out.rest]

theorem mem_of_eligibleHosts {hostsBy : List HostRecord}
    (eligible : eligibleHosts snap req = some hostsBy) {host : HostRecord}
    (member : host ∈ hostsBy) : host ∈ snap.hostsBy ∨ host ∈ snap.hosts := by
  unfold eligibleHosts at eligible
  split_ifs at eligible with free
  · cases eligible
    exact .inl member
  · obtain ⟨pinned, found, rfl⟩ := Option.map_eq_some_iff.mp eligible
    obtain rfl := mem_singleton.mp member
    exact .inr (mem_of_find?_eq_some (Option.filter_eq_some_iff.mp found).1)

section Batch

variable [Ranking]

theorem mem_openHosts {host : HostRecord} (left : host ∈ openHosts snap req) :
    (host ∈ snap.hostsBy ∨ host ∈ snap.hosts) ∧ Admits (snap.releaseAllocation req) req host := by
  unfold openHosts at left
  split at left
  · cases left
  rename_i eligible
  obtain ⟨inside, passed⟩ := mem_filter.mp left
  have admits := Admits.of_rejections passed
  exact ⟨mem_of_eligibleHosts eligible inside,
    ⟨admits.cpu, admits.mem, admits.apart, admits.limit, admits.labels⟩⟩

/-- One request of a batch is refused and changes nothing, or it is placed on a host that the
filters leave to it. -/
theorem placeOne_cases (snap : Snapshot) (req : Request) :
    (∃ refusal, placeOne snap req = (snap, .refused refusal)) ∨
      ∃ host devices, host ∈ openHosts snap req ∧
        (placeOne snap req).2 = .placed host.name devices ∧
          Committed snap (placeOne snap req).1 req host.name := by
  unfold placeOne openHosts
  cases eligible : eligibleHosts snap req with
  | none => exact .inl ⟨_, rfl⟩
  | some hostsBy =>
    simp only
    cases scored : scoreCandidates ((snap.releaseAllocation req).restrict hostsBy) req with
    | error evidence => exact .inl ⟨_, by rw [restore_release]⟩
    | ok candidates =>
      obtain ⟨nonempty, passed⟩ := scoreCandidates_eq_ok scored
      obtain ⟨ranked, member, chosen⟩ := pickBest_mem nonempty
      simp only [chosen]
      exact .inr ⟨ranked.host, _, mem_filter.mpr (passed ranked member), rfl,
        committed snap req ranked.host.name _⟩

def placements (results : List (Request × Outcome)) : List (Request × Text) :=
  results.filterMap fun result =>
    match result.2 with
    | .placed host _ => some (result.1, host)
    | .refused _ => none

theorem placeAll_requests (snap : Snapshot) (requests : List Request) :
    (placeAll snap requests).2.map Prod.fst = requests := by
  induction requests generalizing snap with
  | nil => rfl
  | cons req rest ih => simp [placeAll, ih]

def Outcome.isPlaced : Outcome → Bool
  | .placed .. => true
  | .refused _ => false

/-- Refused requests leave no trace: those that were placed give, by themselves, the same hosts,
devices and final snapshot. -/
theorem refused_leave_no_trace (snap : Snapshot) (requests : List Request) :
    let placed := (placeAll snap requests).2.filter (·.2.isPlaced)
    placeAll snap (placed.map Prod.fst) = ((placeAll snap requests).1, placed) := by
  induction requests generalizing snap with
  | nil => rfl
  | cons req rest ih =>
    dsimp only at ih ⊢
    rcases placeOne_cases snap req with ⟨refusal, refused⟩ | ⟨host, devices, -, placed, -⟩
    · rw [placeAll, refused]
      exact ih snap
    · rw [placeAll, filter_cons_of_pos (by rw [placed]; rfl), map_cons, placeAll, ih]

omit [Ranking] in
theorem mem_placements {results : List (Request × Outcome)} {each : Request × Text} :
    each ∈ placements results ↔ ∃ devices, (each.1, Outcome.placed each.2 devices) ∈ results := by
  unfold placements
  rw [mem_filterMap]
  constructor
  · rintro ⟨⟨req, outcome⟩, member, found⟩
    cases outcome with
    | placed host devices =>
      cases found
      exact ⟨devices, member⟩
    | refused refusal => cases found
  · rintro ⟨devices, member⟩
    exact ⟨_, member, rfl⟩

/-! ## The counters after a batch -/

def afterAll (start : Text → Int) (change : Request → Text → Text → Int)
    (placed : List (Request × Text)) (host : Text) : Int :=
  start host + (placed.map fun each => change each.1 each.2 host).sum

theorem placeAll_counter (counter : Snapshot → Text → Int)
    (change : Request → Text → Text → Int)
    (changes : ∀ before after req chosen, Committed before after req chosen →
      ∀ host, counter after host = counter before host + change req chosen host)
    (snap : Snapshot) (requests : List Request) (host : Text) :
    counter (placeAll snap requests).1 host =
      afterAll (counter snap) change (placements (placeAll snap requests).2) host := by
  induction requests generalizing snap with
  | nil => simp [placeAll, placements, afterAll]
  | cons req rest ih =>
    simp only [placeAll]
    rw [ih]
    rcases placeOne_cases snap req with ⟨refusal, refused⟩ | ⟨chosen, devices, -, placed, done⟩
    · simp [refused, placements, afterAll]
    · simp only [afterAll, placements, filterMap_cons, placed, map_cons, sum_cons]
      rw [changes _ _ _ _ done]
      ring

/-! ## Capacity -/

/-- What is used on a host is within what the policy lets it hand out. -/
def Within (policy : CapacityPolicy) (host : HostRecord) (cpu mem slots : Int) : Prop :=
  cpu ≤ policy.allocatableCPU host ∧
    mem + policy.memOverheadFor slots ≤ policy.allocatableMem host

def Snapshot.Within (snap : Snapshot) (policy : CapacityPolicy) (host : HostRecord) : Prop :=
  Placement.Within policy host (snap.cpuUsed host.name) (snap.memUsed host.name)
    (snap.vmCount host.name)

variable {host : HostRecord} {policy : CapacityPolicy}

omit [Ranking] in
theorem Within.mono {cpu mem slots : Int}
    {cpu' mem' slots' : Int} (within : Within policy host cpu mem slots) (lessCPU : cpu' ≤ cpu)
    (lessMem : mem' ≤ mem) (lessSlots : slots' ≤ slots) : Within policy host cpu' mem' slots' := by
  obtain ⟨cpuFits, memFits⟩ := within
  have overhead : policy.memOverheadFor slots' ≤ policy.memOverheadFor slots :=
    Int.mul_le_mul_of_nonneg_left lessSlots (by omega)
  exact ⟨by omega, by omega⟩

variable {snap : Snapshot} {req : Request}

omit [Ranking] in
theorem Admits.within (admits : Admits snap req host) (positive : 0 < req.memMiBNeeded)
    (cpuFits : snap.cpuUsed host.name ≤ req.capacity.allocatableCPU host) :
    Within req.capacity host
      (snap.cpuUsed host.name + if req.container = false then req.cpuNeeded else 0)
      (snap.memUsed host.name + req.memMiBNeeded)
      (snap.vmCount host.name + if req.container = false then 1 else 0) := by
  have room := admits.mem positive
  unfold freeMem Request.memCharge CapacityPolicy.memChargeFor CapacityPolicy.memOverheadFor at room
  unfold Within CapacityPolicy.memOverheadFor
  cases container : req.container with
  | true =>
    simp only [Bool.true_eq_false, if_false, add_zero]
    exact ⟨cpuFits, by omega⟩
  | false =>
    rw [container, if_neg (by simp)] at room
    simp only [if_true]
    constructor
    · by_cases needed : 0 < req.cpuNeeded
      · have fits := admits.cpu needed container
        unfold freeCPU at fits
        omega
      · omega
    · rw [Int.mul_add]
      omega

theorem Snapshot.Within.placeOne
    (distinct : ∀ host other, (host ∈ snap.hostsBy ∨ host ∈ snap.hosts) →
      (other ∈ snap.hostsBy ∨ other ∈ snap.hosts) → host.name = other.name → host = other)
    (ours : req.capacity = policy) (positive : 0 < req.memMiBNeeded)
    (known : host ∈ snap.hostsBy ∨ host ∈ snap.hosts) (within : snap.Within policy host) :
    (Placement.placeOne snap req).1.Within policy host := by
  have freedCPU := req.freed_nonneg Allocation.cpu host.name
  have freedMem := req.freed_nonneg Allocation.memMiB host.name
  have freedSlots := req.freed_nonneg Allocation.slot host.name
  rcases placeOne_cases snap req with ⟨refusal, refused⟩ | ⟨chosen, devices, left, -, done⟩
  · rw [refused]
    exact within
  obtain ⟨inside, admits⟩ := mem_openHosts left
  have out := adjusted snap req (-1)
  unfold Snapshot.Within
  rw [done.cpu, done.mem, done.slots]
  by_cases here : host.name = chosen.name
  · obtain rfl := distinct host chosen known inside here
    have released := admits.within positive (by
      have before := within.1
      rw [ours, Snapshot.releaseAllocation, out.cpu]
      omega)
    rw [ours, Snapshot.releaseAllocation, out.cpu, out.mem, out.slots] at released
    refine released.mono ?_ ?_ ?_
    · simp only [cpuChange, true_and]
      omega
    · simp only [memChange, if_true]
      omega
    · simp only [slotChange, true_and]
      omega
  · refine Placement.Within.mono within ?_ ?_ ?_
    · simp only [cpuChange, here, false_and, if_false]
      omega
    · simp only [memChange, here, if_false]
      omega
    · simp only [slotChange, here, false_and, if_false]
      omega

theorem placeOne_hosts (snap : Snapshot) (req : Request) :
    (placeOne snap req).1.hosts = snap.hosts ∧ (placeOne snap req).1.hostsBy = snap.hostsBy := by
  rcases placeOne_cases snap req with ⟨refusal, refused⟩ | ⟨chosen, devices, -, -, done⟩
  · rw [refused]
    exact ⟨rfl, rfl⟩
  · exact ⟨done.hosts, done.hostsBy⟩

variable {requests : List Request}

theorem Snapshot.Within.placeAll
    (distinct : ∀ host other, (host ∈ snap.hostsBy ∨ host ∈ snap.hosts) →
      (other ∈ snap.hostsBy ∨ other ∈ snap.hosts) → host.name = other.name → host = other)
    (ours : ∀ req ∈ requests, req.capacity = policy)
    (positive : ∀ req ∈ requests, 0 < req.memMiBNeeded)
    (known : host ∈ snap.hostsBy ∨ host ∈ snap.hosts) (within : snap.Within policy host) :
    (Placement.placeAll snap requests).1.Within policy host := by
  induction requests generalizing snap with
  | nil => exact within
  | cons req rest ih =>
    obtain ⟨hosts, hostsBy⟩ := placeOne_hosts snap req
    refine ih ?_ (fun each member => ours each (mem_cons_of_mem _ member))
      (fun each member => positive each (mem_cons_of_mem _ member)) ?_
      (within.placeOne distinct (ours req (by simp)) (positive req (by simp)) known)
    · rw [hosts, hostsBy]
      exact distinct
    · rw [hosts, hostsBy]
      exact known

/-! ## Replicas -/

variable {counts : Text → Int}

omit [Ranking] in
theorem replicas_released {host : HostRecord}
    (counted : snap.replicasByBase req.vmBaseName = some counts) :
    replicas (snap.releaseAllocation req) host req.vmBaseName =
      counts host.name - req.freedReplica req.vmBaseName host.name := by
  simp only [replicas, Snapshot.releaseAllocation, (adjusted snap req (-1)).replicas, counted,
    Option.map_some, Option.getD_some]
  ring

/-- Every request of a batch meets the condition in the snapshot that it is evaluated in, beside
what was placed before. -/
def Stepwise (condition : Snapshot → List (Request × Text) → Request → Prop) :
    Snapshot → List (Request × Text) → List Request → Prop
  | _, _, [] => True
  | snap, before, req :: rest =>
    condition snap before req ∧ Stepwise condition (placeOne snap req).1
      (before ++ placements [(req, (placeOne snap req).2)]) rest

/-- On a host that the filters leave to the request and that holds an earlier one of its group
with a limit, the request has no larger limit or the earlier one's is not reached. -/
def LeavesRoom (snap : Snapshot) (before : List (Request × Text)) (req : Request) : Prop :=
  ∀ each ∈ before, each.1.vmBaseName = req.vmBaseName → req.vmBaseName ≠ [] →
    0 < each.1.maxPerNode → ∀ host ∈ openHosts snap req, host.name = each.2 →
      (0 < req.maxPerNode ∧ req.maxPerNode ≤ each.1.maxPerNode) ∨
        replicas (snap.releaseAllocation req) host req.vmBaseName < each.1.maxPerNode

/-- No host has more replicas of a group than a request placed there allows. -/
def Limited (snap : Snapshot) (before : List (Request × Text)) : Prop :=
  ∀ each ∈ before, each.1.vmBaseName ≠ [] → 0 < each.1.maxPerNode →
    ∃ counts, snap.replicasByBase each.1.vmBaseName = some counts ∧
      counts each.2 ≤ each.1.maxPerNode

variable {before : List (Request × Text)}

theorem Limited.placeOne (limited : Limited snap before) (room : LeavesRoom snap before req)
    (counted : req.vmBaseName ≠ [] → 0 < req.maxPerNode →
      ∃ counts, snap.replicasByBase req.vmBaseName = some counts) :
    Limited (Placement.placeOne snap req).1
      (before ++ placements [(req, (Placement.placeOne snap req).2)]) := by
  rcases placeOne_cases snap req with ⟨refusal, refused⟩ | ⟨chosen, devices, left, placed, done⟩
  · simpa [refused, placements] using limited
  obtain ⟨-, admits⟩ := mem_openHosts left
  have own : placements [(req, (Placement.placeOne snap req).2)] = [(req, chosen.name)] := by
    simp [placements, placed]
  rw [own]
  intro each member named positive
  have freed := req.freedReplica_nonneg each.1.vmBaseName each.2
  rcases mem_append.mp member with earlier | last
  · obtain ⟨counts, found, below⟩ := limited each earlier named positive
    refine ⟨_, done.replicas _ counts named found, ?_⟩
    by_cases here : each.2 = chosen.name ∧ each.1.vmBaseName = req.vmBaseName
    · obtain ⟨there, group⟩ := here
      rw [group] at named found freed ⊢
      have free : replicas (snap.releaseAllocation req) chosen req.vmBaseName <
          each.1.maxPerNode := by
        rcases room each earlier group named positive chosen left there.symm with
          ⟨limit, smaller⟩ | free
        · exact lt_of_lt_of_le (admits.limit limit named) smaller
        · exact free
      rw [replicas_released found, ← there] at free
      simp only [replicaChange, there, and_self, if_true] at free ⊢
      omega
    · simp only [replicaChange, here, if_false]
      omega
  · obtain rfl := mem_singleton.mp last
    obtain ⟨counts, found⟩ := counted named positive
    refine ⟨_, done.replicas _ counts named found, ?_⟩
    have free := admits.limit positive named
    rw [replicas_released found] at free
    simp only [replicaChange, and_self, if_true]
    omega

theorem placeAll_limits (stepwise : Stepwise LeavesRoom snap before requests)
    (counted : ∀ req ∈ requests, req.vmBaseName ≠ [] → 0 < req.maxPerNode →
      ∃ counts, snap.replicasByBase req.vmBaseName = some counts) (limited : Limited snap before) :
    Limited (placeAll snap requests).1 (before ++ placements (placeAll snap requests).2) := by
  induction requests generalizing snap before with
  | nil => simpa [placeAll, placements] using limited
  | cons req rest ih =>
    obtain ⟨room, later⟩ := stepwise
    have all : before ++ placements (placeAll snap (req :: rest)).2 =
        before ++ placements [(req, (placeOne snap req).2)] ++
          placements (placeAll (placeOne snap req).1 rest).2 := by
      simp only [placeAll, placements, append_assoc, ← filterMap_append, singleton_append]
    rw [all]
    refine ih later (fun other listed named positive => ?_)
      (limited.placeOne room (counted req mem_cons_self))
    obtain ⟨counts, found⟩ := counted other (mem_cons_of_mem _ listed) named positive
    rcases placeOne_cases snap req with ⟨refusal, refused⟩ | ⟨chosen, devices, -, -, done⟩
    · exact ⟨counts, by rw [refused, found]⟩
    · exact ⟨_, done.replicas _ counts named found⟩

theorem placeAll_replicas {base : Text}
    (named : base ≠ []) (counted : snap.replicasByBase base = some counts) :
    (placeAll snap requests).1.replicasByBase base =
      some (afterAll counts (fun req chosen => replicaChange req chosen base)
        (placements (placeAll snap requests).2)) := by
  induction requests generalizing snap counts with
  | nil =>
    rw [placeAll, counted]
    refine congrArg some ?_
    funext host
    simp [placements, afterAll]
  | cons req rest ih =>
    simp only [placeAll]
    rcases placeOne_cases snap req with ⟨refusal, refused⟩ | ⟨chosen, devices, -, placed, done⟩
    · simp only [refused, placements, filterMap_cons]
      exact ih counted
    rw [ih (done.replicas base counts named counted)]
    refine congrArg some ?_
    funext host
    simp only [afterAll, placements, filterMap_cons, placed, map_cons, sum_cons]
    ring

end Batch

/-! ## The start of a batch -/

theorem seedReplicasForBase_vms (snap : Snapshot) (base : Text) :
    (snap.seedReplicasForBase base).vms = snap.vms := by
  unfold Snapshot.seedReplicasForBase
  split_ifs <;> rfl

theorem seedReplicasForBase_replicas (snap : Snapshot) (base other : Text) :
    (snap.seedReplicasForBase base).replicasByBase other =
      if other = base ∧ base ≠ [] ∧ snap.replicasByBase base = none then
        some (Snapshot.liveReplicas snap.vms base)
      else snap.replicasByBase other := by
  unfold Snapshot.seedReplicasForBase
  by_cases named : base = []
  · simp [named]
  cases counted : snap.replicasByBase base with
  | some counts => simp [named]
  | none =>
    by_cases same : other = base <;> simp [same, named]

theorem seeded {bases : List Text} (fresh : ∀ base counts, snap.replicasByBase base = some counts →
      counts = Snapshot.liveReplicas snap.vms base) {base : Text} (named : base ≠ [])
    (asked : base ∈ bases ∨ (snap.replicasByBase base).isSome) :
    (bases.foldl Snapshot.seedReplicasForBase snap).replicasByBase base =
      some (Snapshot.liveReplicas snap.vms base) := by
  induction bases generalizing snap with
  | nil =>
    obtain ⟨counts, found⟩ := Option.isSome_iff_exists.mp (by simpa using asked)
    rw [foldl_nil, found, fresh base counts found]
  | cons first rest ih =>
    rw [foldl_cons, ih, seedReplicasForBase_vms]
    · intro other counts found
      rw [seedReplicasForBase_vms]
      rw [seedReplicasForBase_replicas] at found
      split_ifs at found with seeds
      · rw [seeds.1]
        exact (Option.some.inj found).symm
      · exact fresh other counts found
    · rw [seedReplicasForBase_replicas]
      split_ifs with seeds
      · exact .inr rfl
      rcases asked with member | counted
      · rcases mem_cons.mp member with rfl | later
        · refine .inr (Option.isSome_iff_ne_none.mpr fun missing => ?_)
          exact seeds ⟨rfl, named, missing⟩
        · exact .inl later
      · exact .inr counted

/-- A snapshot of the given records in which no group is counted yet. -/
structure Fresh (given : List HostRecord) (running : List VMRecord) (snap : Snapshot) : Prop where
  hosts : snap.hosts = given
  hostsBy : snap.hostsBy = given
  vms : snap.vms = running
  uncounted : ∀ base, snap.replicasByBase base = none

section Start

variable {hosts : List HostRecord} {vms : List VMRecord} {snap : Snapshot}

theorem Fresh.countVM (fresh : Fresh hosts vms snap) (vm : VMRecord) :
    Fresh hosts vms (snap.countVM vm) := by
  unfold Snapshot.countVM
  split_ifs
  · exact ⟨fresh.hosts, fresh.hostsBy, fresh.vms, fresh.uncounted⟩
  · exact fresh

theorem Fresh.addCapacityObservation (fresh : Fresh hosts vms snap)
    (observed : HostCapacityObservation) :
    Fresh hosts vms (snap.addCapacityObservation observed) := by
  unfold Snapshot.addCapacityObservation
  split_ifs <;> exact ⟨fresh.hosts, fresh.hostsBy, fresh.vms, fresh.uncounted⟩

variable (hosts vms) (devices : Text → List PCIDevice) (containerMemMiB : List (Text × Int))
  (observations : List HostCapacityObservation) (requests : List Request)

theorem fresh_gathered :
    Fresh hosts vms (((buildSnapshotFrom hosts vms).addContainerMemory
      containerMemMiB).addCapacityObservations observations) := by
  have built : Fresh hosts vms (buildSnapshotFrom hosts vms) :=
    List.foldlRecOn vms _ ⟨rfl, rfl, rfl, fun _ => rfl⟩ fun _ fresh vm _ => fresh.countVM vm
  exact List.foldlRecOn observations _
    ⟨built.hosts, built.hostsBy, built.vms, built.uncounted⟩
    fun _ fresh observed _ => fresh.addCapacityObservation observed

theorem gathered_vmHost :
    (((buildSnapshotFrom hosts vms).addContainerMemory
      containerMemMiB).addCapacityObservations observations).vmHost =
        (buildSnapshotFrom hosts vms).vmHost := by
  refine List.foldlRecOn (motive := fun snap : Snapshot =>
    snap.vmHost = (buildSnapshotFrom hosts vms).vmHost) observations _ rfl
    fun snap kept each _ => ?_
  rw [← kept]
  unfold Snapshot.addCapacityObservation
  split_ifs <;> rfl

theorem seedReplicasForBase_hosts (snap : Snapshot) (base : Text) :
    (snap.seedReplicasForBase base).hosts = snap.hosts ∧
      (snap.seedReplicasForBase base).hostsBy = snap.hostsBy := by
  unfold Snapshot.seedReplicasForBase
  split_ifs <;> exact ⟨rfl, rfl⟩

theorem batchSnapshot_hosts :
    (batchSnapshot hosts vms devices containerMemMiB observations requests).hosts = hosts ∧
      (batchSnapshot hosts vms devices containerMemMiB observations requests).hostsBy = hosts := by
  have fresh := fresh_gathered hosts vms containerMemMiB observations
  refine List.foldlRecOn
    (motive := fun snap : Snapshot => snap.hosts = hosts ∧ snap.hostsBy = hosts) _ _
    ⟨fresh.hosts, fresh.hostsBy⟩ fun snap kept base _ => ?_
  rw [(seedReplicasForBase_hosts snap base).1, (seedReplicasForBase_hosts snap base).2]
  exact kept

theorem batchSnapshot_replicas {req : Request} (member : req ∈ requests)
    (named : req.vmBaseName ≠ []) (positive : 0 < req.maxPerNode) :
    (batchSnapshot hosts vms devices containerMemMiB observations requests).replicasByBase
      req.vmBaseName = some (Snapshot.liveReplicas vms req.vmBaseName) := by
  have fresh := fresh_gathered hosts vms containerMemMiB observations
  have asked : req.vmBaseName ∈
      (requests.filter fun req => 0 < req.maxPerNode && req.vmBaseName ≠ []).map
        Request.vmBaseName :=
    mem_map_of_mem (mem_filter.mpr ⟨member, by simp [positive, named]⟩)
  unfold batchSnapshot
  rw [seeded _ named (.inl asked), fresh.vms]
  intro base counts found
  rw [fresh.uncounted base] at found
  cases found

end Start

/-! ## Batches never overcommit -/

@[reducible] def flatRanking : Ranking where
  devicesFit _ _ _ := some 0
  topologyScore _ _ := []
  strained _ _ _ := false
  score _ _ _ _ := 0

def worker (name : String) : HostRecord where
  name := name.toList
  state := "active".toList
  role := "worker".toList
  region := []
  labels := []

/-- Eight processors and four gigabytes on every host. -/
def evenPolicy : CapacityPolicy := ⟨fun _ => 8, fun _ => 4096, 128⟩

/-- The name without a trailing number behind a dash. -/
def vmBaseName (name : Text) : Text :=
  let digits := name.reverse.takeWhile (· ≠ '-')
  match name.reverse.dropWhile (· ≠ '-') with
  | [] => name
  | _ :: front => if digits ≠ [] ∧ digits.all Char.isDigit then front.reverse else name

/-- `buildPlacementRequest` of the planner, for a VM with a limit and a pin (either may be empty):
a group is named only beside a limit. -/
def plannedRequest (name : String) (limit : Int) (pin : String) : Request where
  vmName := name.toList
  cpuNeeded := 1
  memMiBNeeded := 512
  capacity := evenPolicy
  policy := .balance
  pinHost := pin.toList
  requireLabels := []
  antiAffinity := []
  requireRegion := []
  preferLabels := []
  affinity := []
  spread := false
  maxPerNode := if 0 < limit then limit else 0
  vmBaseName := if 0 < limit then vmBaseName name.toList else []
  devices := []
  replaces := none
  container := false

attribute [local instance] flatRanking

end Litevirt.Placement

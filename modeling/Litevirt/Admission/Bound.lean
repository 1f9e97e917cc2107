import Litevirt.Admission.Ledger
import Litevirt.Lib.Outcome

/-!
# Admission stays within its bounds

What a passed verification means for every pool, and the invariant of whole runs: committed usage
and the claims that the current authorities can attribute never exceed a bound.  All admitted
claims together can, through a claim of a superseded authority epoch or a sum that wraps around.
-/

namespace Litevirt.Admission

open Litevirt.Lib List Int64 Bool Table

theorem toInt_toInt (size : Size) : (toInt size).toInt = size.val :=
  toInt_ofNat_of_lt size.isLt

/-! ## The scan -/

variable {rows : List (String × Operation)}

theorem scan_eq_filter {reserves : String → Operation → Except String Bool}
    {out : List (String × Operation)} (scanned : scan reserves rows = .ok out) :
    out = rows.filter fun row => reserves row.1 row.2 = .ok true := by
  induction rows generalizing out with
  | nil =>
    cases scanned
    rfl
  | cons row rest ih =>
    obtain ⟨live, first, remaining⟩ := bind_eq_ok scanned
    obtain ⟨kept, others, finished⟩ := bind_eq_ok remaining
    rw [← Except.ok.inj finished, ih others]
    cases live <;> simp [first]

/-- Whether the admission `opID` yields to an operation's claim. -/
def Node.yieldsTo (node : Node) (opID : String) (row : String × Operation) : Bool :=
  node.reserves row.1 row.2 = .ok true &&
    reservationCounts row.1 opID row.2.vector row.2.admitted

/-- The claims on a pool that the admission `opID` yields to. -/
def Node.reservedBefore (node : Node) (opID : String) (pool : Pool) : Nat :=
  node.operations.total fun id op =>
    if node.yieldsTo opID (id, op) then op.vector.claim pool else 0

variable {node : Node} {opID : String}

theorem countedBefore_eq (counted : countedBefore node opID = .ok rows) :
    rows = node.operations.rows.filter (node.yieldsTo opID) := by
  obtain ⟨out, scanned, rfl⟩ := map_eq_ok counted
  rw [scan_eq_filter scanned, filter_filter]
  refine filter_congr fun row _ => ?_
  rw [Node.yieldsTo, Bool.and_comm]

theorem sum_counted (counted : countedBefore node opID = .ok rows) (p : String × Operation → Bool)
    (f : String × Operation → Nat) (pool : Pool)
    (measured : ∀ row, (if p row then f row else 0) = row.2.vector.claim pool) :
    (rows.filter p).foldl (fun sum row => sum + Int64.ofNat (f row)) 0 =
      Int64.ofNat (node.reservedBefore opID pool) := by
  have summed := foldl_add_ofNat f (rows.filter p) 0
  rw [Nat.zero_add, sum_map_filter, countedBefore_eq counted, sum_map_filter] at summed
  rw [countedBefore_eq counted]
  refine summed.trans (congrArg Int64.ofNat (congrArg List.sum (map_congr_left ?_)))
  intro row _
  simp only [measured]

variable {host : String}

theorem hostReservedBefore_eq {reserved : Int64 × Int64} (named : host ≠ "")
    (summed : hostReservedBefore node host opID = .ok reserved) :
    reserved.1 = Int64.ofNat (node.reservedBefore opID (.cpu host)) ∧
      reserved.2 = Int64.ofNat (node.reservedBefore opID (.mem host)) := by
  obtain ⟨rows, counted, rfl⟩ := map_eq_ok summed
  constructor
  · exact sum_counted counted _ (fun row => row.2.vector.targetCPU.val) _
      fun row => by simp [ReservationVector.claim, named]
  · exact sum_counted counted _ (fun row => row.2.vector.targetMemMiB.val) _
      fun row => by simp [ReservationVector.claim, named]

theorem get_foldl_add (rows : List (String × Operation)) (start : QuotaAmount Int64) (dim : Dim) :
    (rows.foldl (fun sum row => sum.add (row.2.vector.amount.map toInt)) start).get dim =
      rows.foldl (fun sum row => sum + toInt (row.2.vector.amount.get dim)) (start.get dim) := by
  induction rows generalizing start with
  | nil => rfl
  | cons row rest ih => simp only [foldl_cons, ih, QuotaAmount.get_add, QuotaAmount.get_map]

variable {project : String}

theorem projectReservedBefore_eq {reserved : QuotaAmount Int64} (named : project ≠ "")
    (summed : projectReservedBefore node project opID = .ok reserved) (dim : Dim) :
    reserved.get dim = Int64.ofNat (node.reservedBefore opID (.quota project dim)) := by
  obtain ⟨rows, counted, rfl⟩ := map_eq_ok summed
  have start : (QuotaAmount.zero.map toInt).get dim = 0 := by cases dim <;> rfl
  rw [get_foldl_add, start]
  exact sum_counted counted _ (fun row => (row.2.vector.amount.get dim).val) _
    fun row => by simp [ReservationVector.claim, named]

/-! ## What is counted while a request is decided -/

/-- What every state reached has: each operation is decided, and no reservation is
stamped with an epoch above the current one of its project. -/
structure Journal (node : Node) : Prop where
  decided : ∀ id op, node.operations.find id = some op → op.admitted = true ∨ op.completed = true
  stamped : ∀ id op facts, node.operations.find id = some op → op.facts = some facts →
    ∃ current, node.currentProjectAuthority op.project = some current ∧
      facts.authorityEpoch ≤ current.epoch

theorem reservationCounts_self (id : String) (vector : ReservationVector) (admitted : Bool) :
    reservationCounts id id vector admitted = false := if_pos rfl

variable {id : String}

theorem reservationCounts_admitted (other : id ≠ opID) (vector : ReservationVector) :
    reservationCounts id opID vector true = true := by
  simp [reservationCounts, other]

variable {op : Operation}

theorem not_completed_of_reserves (reserves : node.reserves id op = .ok true) :
    op.completed = false := by
  unfold Node.reserves Operation.reserves at reserves
  split at reserves
  · cases reserves
  · exact eq_false_iff.mpr (by assumption)

theorem reservedBefore_published (journal : Journal node) (fresh : node.operations.find opID = none)
    (op : Operation) (pool : Pool) :
    (node.setOperation opID op).reservedBefore opID pool = node.attributed pool := by
  have own : (node.setOperation opID op).yieldsTo opID (opID, op) = false := by
    simp [Node.yieldsTo, reservationCounts_self]
  have replaced := node.operations.total_put
    (fun id op' => if (node.setOperation opID op).yieldsTo opID (id, op') then
      op'.vector.claim pool else 0) opID op
  rw [fresh, Option.elim_none, own, if_neg Bool.false_ne_true, Nat.add_zero,
    Nat.add_zero] at replaced
  refine replaced.trans (total_congr fun row member => ?_)
  obtain ⟨id, found⟩ := row
  have held : node.operations.find id = some found := mem_rows_iff.mp member
  have other : id ≠ opID := by
    rintro rfl
    rw [fresh] at held
    cases held
  have same : (node.setOperation opID op).reserves id found = node.reserves id found := rfl
  rcases journal.decided id found held with admitted | completed
  · simp [Node.yieldsTo, Node.counts, same, admitted, reservationCounts_admitted other]
  have idle : node.reserves id found ≠ .ok true := fun reserves => by
    rw [not_completed_of_reserves reserves] at completed
    cases completed
  simp [Node.yieldsTo, Node.counts, same, idle]

/-! ## Host capacity -/

theorem used_cpu (limits : Limits) (node : Node) (host : String) :
    node.used limits (.cpu host) =
      groupTotal Workload.host (·.cpuActual.val) node.runningVMs host := by
  unfold Node.used Table.total groupTotal Node.runningVMs Node.rows
  rw [sum_map_filter, sum_map_filter, map_map]
  refine congrArg List.sum (map_congr_left fun row _ => ?_)
  by_cases running : row.2.isRunning .vm = true <;> simp [Workload.charge, running]

theorem used_mem (limits : Limits) (node : Node) (host : String) :
    node.used limits (.mem host) =
      groupTotal Workload.host (·.memActual.val) node.runningVMs host +
        groupTotal Workload.host (·.spec.memMiB.val) node.cappedContainers host +
        limits.vmMemOverheadMiB.val *
          groupTotal Workload.host (fun _ => 1) node.runningVMs host := by
  unfold Node.used Table.total groupTotal Node.runningVMs Node.cappedContainers Node.rows
  simp only [sum_map_filter, map_map]
  rw [← sum_map_mul_left, ← sum_map_add, ← sum_map_add]
  refine congrArg List.sum (map_congr_left fun row _ => ?_)
  obtain ⟨key, kind, place, project, running, spec, cpu, mem⟩ := row
  by_cases here : place = host
  · cases kind <;> cases running <;>
      simp +decide [Workload.charge, Workload.isRunning, here]
  · simp [Workload.charge, here]

variable {consumed : List Int64}

/-- A remainder is not negative, and a positive one is what the amounts leave. -/
theorem remainingAfter_spec {capacity remaining : Int64}
    (nonneg : 0 ≤ capacity.toInt) (left : remainingAfter capacity consumed = .ok remaining) :
    0 ≤ remaining.toInt ∧ (0 < remaining.toInt →
      remaining.toInt + (consumed.map Int64.toInt).sum = capacity.toInt) := by
  induction consumed generalizing capacity with
  | nil =>
    cases left
    exact ⟨nonneg, fun _ => by simp⟩
  | cons amount rest ih =>
    unfold remainingAfter at left
    split at left
    · cases left
    rename_i spent
    have spent : 0 ≤ amount.toInt := Int.not_lt.mp fun below =>
      spent (lt_iff_toInt_lt.mpr below)
    split at left
    · cases left
      exact ⟨Int.le_refl 0, fun positive => absurd positive (by decide)⟩
    rename_i enough
    have enough : amount.toInt < capacity.toInt := Int.not_le.mp fun above =>
      enough (le_iff_toInt_le.mpr above)
    have difference := toInt_sub_of_nonneg nonneg spent
    obtain ⟨floor, rest⟩ := ih (by omega) left
    refine ⟨floor, fun positive => ?_⟩
    rw [map_cons, sum_cons]
    omega

theorem sqlSum_eq_ok {sum : Option Int64} {total : Int64} (summed : sqlSum sum = .ok total) :
    sum = some total := by
  cases sum with
  | none => cases summed
  | some value =>
    cases summed
    rfl

theorem remainingCapacity_spec {allocatable : Size} {remaining : Int64}
    (left : remainingCapacity (toInt allocatable) consumed = .ok remaining) :
    0 ≤ remaining.toInt ∧ (0 < remaining.toInt →
      remaining.toInt + (consumed.map Int64.toInt).sum = allocatable.val) := by
  unfold remainingCapacity at left
  split at left
  · cases left
  rw [← toInt_toInt]
  refine remainingAfter_spec ?_ left
  rw [toInt_toInt]
  exact Int.natCast_nonneg _

/-- A figure of free capacity: never negative, and what `drawn` leaves when positive. -/
structure FreeOf (capacity : Size) (drawn : Nat) (free : Int64) : Prop where
  nonneg : 0 ≤ free.toInt
  left : 0 < free.toInt → free.toInt + drawn = capacity.val

variable {capacity : Capacity} {limits : Limits}

theorem hostFree_spec (named : host ≠ "") (known : limits.capacity host = some capacity)
    (fitsCPU : node.used limits (.cpu host) + node.reservedBefore opID (.cpu host) ≤
      capacity.cpu.val)
    (fitsMem : node.used limits (.mem host) + node.reservedBefore opID (.mem host) ≤
      capacity.memMiB.val) {free : Option (Int64 × Int64)}
    (computed : hostFreeCapacityBefore limits node host opID = .ok free) :
    ∃ cpu mem, free = some (cpu, mem) ∧
      FreeOf capacity.cpu
        (node.used limits (.cpu host) + node.reservedBefore opID (.cpu host)) cpu ∧
      FreeOf capacity.memMiB
        (node.used limits (.mem host) + node.reservedBefore opID (.mem host)) mem := by
  obtain ⟨reserved, scanned, afterScan⟩ := bind_eq_ok computed
  obtain ⟨resCPU, resMem⟩ := hostReservedBefore_eq named scanned
  simp only [hostFreeWithReserved, known] at afterScan
  obtain ⟨cpuUsed, cpuSum, afterCPU⟩ := bind_eq_ok afterScan
  obtain ⟨memUsed, memSum, afterMem⟩ := bind_eq_ok afterCPU
  obtain ⟨ctMem, ctSum, afterSums⟩ := bind_eq_ok afterMem
  obtain ⟨freeCPU, leftCPU, afterFree⟩ := bind_eq_ok afterSums
  obtain ⟨freeMem, leftMem, finished⟩ := bind_eq_ok afterFree
  obtain ⟨cpuFits, rfl⟩ := checkedGroupSum_eq_some (sqlSum_eq_ok cpuSum)
  obtain ⟨memFits, rfl⟩ := checkedGroupSum_eq_some (sqlSum_eq_ok memSum)
  obtain ⟨ctFits, rfl⟩ := checkedGroupSum_eq_some (sqlSum_eq_ok ctSum)
  have cpuUse := used_cpu limits node host
  have memUse := used_mem limits node host
  refine ⟨freeCPU, freeMem, (Except.ok.inj finished).symm, ?_, ?_⟩
  · obtain ⟨floor, left⟩ := remainingCapacity_spec (mapError_eq_ok leftCPU)
    refine ⟨floor, fun positive => ?_⟩
    rw [resCPU] at left
    simp only [map_cons, map_nil, sum_cons, sum_nil,
      toInt_ofNat_of_lt cpuFits,
      toInt_ofNat_of_lt (n := node.reservedBefore opID (.cpu host)) (by omega)] at left
    omega
  · obtain ⟨floor, left⟩ := remainingCapacity_spec (mapError_eq_ok leftMem)
    refine ⟨floor, fun positive => ?_⟩
    rw [resMem, toInt, ← ofNat_mul] at left
    simp only [map_cons, map_nil, sum_cons, sum_nil,
      toInt_ofNat_of_lt memFits, toInt_ofNat_of_lt ctFits,
      toInt_ofNat_of_lt (n := node.reservedBefore opID (.mem host)) (by omega),
      toInt_ofNat_of_lt (n := limits.vmMemOverheadMiB.val *
        groupTotal Workload.host (fun _ => 1) node.runningVMs host) (by omega)] at left
    omega

theorem FreeOf.fits {capacity extra delta : Size} {drawn : Nat} {free : Int64}
    (figure : FreeOf capacity drawn free) (within : drawn ≤ capacity.val)
    (fits : ¬ free - toInt extra < toInt delta) : drawn + delta.val ≤ capacity.val := by
  have nonneg : 0 ≤ (toInt extra).toInt := by
    rw [toInt_toInt]
    exact Int.natCast_nonneg _
  rw [lt_iff_toInt_lt, toInt_sub_of_nonneg figure.nonneg nonneg, toInt_toInt,
    toInt_toInt] at fits
  rcases Nat.eq_zero_or_pos delta.val with none | some
  · omega
  · have left := figure.left (by omega)
    omega

variable {request : Request}

/-! ## Project quota -/

def Node.projectTotal (node : Node) (kind : Kind) (project : String) (dim : Dim) : Nat :=
  ((node.projectRows kind project).map fun row => (row.spec.get dim).val).sum

theorem used_quota (limits : Limits) (node : Node) (project : String) (dim : Dim) :
    node.used limits (.quota project dim) = node.projectTotal .vm project dim +
      if dim = .disk then 0 else node.projectTotal .container project dim := by
  unfold Node.used Table.total Node.projectTotal Node.projectRows Node.rows
  rw [sum_map_filter, sum_map_filter, map_map, map_map]
  by_cases disk : dim = .disk
  on_goal 1 => rw [if_pos disk]
  on_goal 2 => rw [if_neg disk, ← sum_map_add]
  all_goals
    refine congrArg List.sum (map_congr_left fun row _ => ?_)
    obtain ⟨key, kind, place, owner, running, spec, cpu, mem⟩ := row
    cases kind <;> by_cases mine : owner = project <;>
      simp [Workload.charge, Workload.quotaCharge, mine, disk]

variable {dim : Dim}

theorem projectSum_eq_ok {kind : Kind} {sum : Int64}
    (summed : sqlSum (projectSum node kind project dim) = .ok sum) :
    sum = Int64.ofNat (node.projectTotal kind project dim) :=
  (checkedSum_eq_some (sqlSum_eq_ok summed)).2

theorem sumProjectUsage_eq {used : QuotaAmount Int64}
    (summed : sumProjectUsage node project = .ok used) (dim : Dim)
    (fits : node.used limits (.quota project dim) < 2 ^ 63) :
    used.get dim = Int64.ofNat (node.used limits (.quota project dim)) := by
  obtain ⟨vmCPU, first, afterFirst⟩ := bind_eq_ok summed
  obtain ⟨vmMem, second, afterSecond⟩ := bind_eq_ok afterFirst
  obtain ⟨ctCPU, third, afterThird⟩ := bind_eq_ok afterSecond
  obtain ⟨ctMem, fourth, finished⟩ := bind_eq_ok afterThird
  rw [← Except.ok.inj finished]
  have counted : ∀ kind, (node.projectRows kind project).foldl
      (fun sum row => sum + toInt row.spec.nic) 0 =
        Int64.ofNat (node.projectTotal kind project .nic) := fun kind => by
    have folded := foldl_add_ofNat (fun row => row.spec.nic.val) (node.projectRows kind project) 0
    rw [Nat.zero_add] at folded
    exact folded
  cases dim with
  | vcpu =>
    rw [used_quota, if_neg (by decide), ofNat_add, ← projectSum_eq_ok first,
      ← projectSum_eq_ok third]
    rfl
  | memory =>
    rw [used_quota, if_neg (by decide), ofNat_add, ← projectSum_eq_ok second,
      ← projectSum_eq_ok fourth]
    rfl
  | disk =>
    rw [used_quota, if_pos rfl] at fits ⊢
    have disks : projectSum node .vm project .disk = some _ := checkedSum_of_lt fits
    simp only [QuotaAmount.get, disks, Option.getD_some]
    rfl
  | nic =>
    rw [used_quota, if_neg (by decide), ofNat_add, ← counted, ← counted]
    rfl

variable {delta : QuotaAmount Size}

/-- A passed verdict leaves room in every bounded dimension whose sum fits an integer. -/
theorem quotaVerdict_spec {limits : QuotaAmount Size} {used reserved : QuotaAmount Int64}
    (passed : quotaVerdict project limits used reserved delta = .ok ())
    {u r : Nat} (usage : used.get dim = Int64.ofNat u)
    (reservations : reserved.get dim = Int64.ofNat r) (fits : u + r + (delta.get dim).val < 2 ^ 63)
    (limited : 0 < (limits.get dim).val) : u + r + (delta.get dim).val ≤ (limits.get dim).val := by
  have passed := forM_eq_ok.mp passed dim dim.mem_all
  split at passed
  · cases passed
  rename_i within
  have positive : 0 < toInt (limits.get dim) := by
    rw [lt_iff_toInt_lt, toInt_toInt]
    exact Int.ofNat_lt.mpr limited
  have below : ¬ toInt (limits.get dim) <
      used.get dim + reserved.get dim + toInt (delta.get dim) :=
    fun above => within ⟨positive, above⟩
  rw [usage, reservations, toInt, toInt, ← ofNat_add, ← ofNat_add,
    lt_iff_toInt_lt, toInt_ofNat_of_lt fits,
    toInt_ofNat_of_lt (limits.get dim).isLt] at below
  omega

variable {bound : Nat}

theorem checkProjectQuotaBefore_spec
    (checked : checkProjectQuotaBefore limits node project delta opID = .ok ())
    (bounded : limits.bound (.quota project dim) = some bound)
    (fits : node.used limits (.quota project dim) +
      node.reservedBefore opID (.quota project dim) + (delta.get dim).val < 2 ^ 63) :
    node.used limits (.quota project dim) + node.reservedBefore opID (.quota project dim) +
      (delta.get dim).val ≤ bound := by
  obtain ⟨quota, known, limit⟩ := Option.bind_eq_some_iff.mp bounded
  have named : project ≠ "" := by
    rintro rfl
    rw [limits.unnamed] at known
    cases known
  split at limit
  · rename_i limited
    cases limit
    simp only [checkProjectQuotaBefore, known] at checked
    obtain ⟨used, summed, afterUsage⟩ := bind_eq_ok checked
    obtain ⟨reserved, counted, verdict⟩ := bind_eq_ok afterUsage
    exact quotaVerdict_spec verdict
      (sumProjectUsage_eq (mapError_eq_ok summed) dim (by omega))
      (projectReservedBefore_eq named (mapError_eq_ok counted) dim) fits limited
  · cases limit

/-! ## One step -/

/-- The node's journal is in order and no pool is drawn beyond its bound. -/
structure Within (limits : Limits) (node : Node) : Prop where
  journal : Journal node
  bounded : ∀ pool bound, limits.bound pool = some bound →
    node.used limits pool + node.attributed pool ≤ bound

/-- The condition on a step: the sums of an admission that the quota bounds fit an integer,
and a claim becomes a row only while its authority is the current one. -/
def Attributable (limits : Limits) (node : Node) : Event → Prop
  | .reserve request => request.withQuota = true → ∀ dim bound,
      limits.bound (.quota request.project dim) = some bound →
        node.used limits (.quota request.project dim) +
          node.attributed (.quota request.project dim) + (request.quota.get dim).val < 2 ^ 63
  | .release _ => True
  | .land id _ _ => ∀ op, node.operations.find id = some op → node.reserves id op = .ok true
  | .move _ _ => True

theorem no_target (valid : request.vector.validate = .ok ()) (nowhere : request.host = "") :
    request.cpuDelta.val = 0 ∧ request.memDelta.val = 0 := by
  unfold ReservationVector.validate at valid
  split at valid
  · cases valid
  · rename_i untargeted
    have none := not_or.mp fun some => untargeted ⟨nowhere, some⟩
    exact ⟨congrArg Fin.val (not_not.mp none.1), congrArg Fin.val (not_not.mp none.2)⟩

/-- A passed check of the host leaves room for the request in both of its pools. -/
theorem host_room (within : Within limits node) (valid : request.vector.validate = .ok ())
    (fresh : node.operations.find request.opID = none)
    (checked : checkHostCapacityBefore limits (node.setOperation request.opID op) request = .ok ())
    (known : limits.capacity request.host = some capacity) :
    node.used limits (.cpu request.host) + node.attributed (.cpu request.host) +
        request.cpuDelta.val ≤ capacity.cpu.val ∧
      node.used limits (.mem request.host) + node.attributed (.mem request.host) +
        request.memDelta.val ≤ capacity.memMiB.val := by
  have cpuRoom := within.bounded (.cpu request.host) capacity.cpu.val
    (by rw [Limits.bound, known]; rfl)
  have memRoom := within.bounded (.mem request.host) capacity.memMiB.val
    (by rw [Limits.bound, known]; rfl)
  by_cases named : request.host = ""
  · obtain ⟨noCPU, noMem⟩ := no_target valid named
    omega
  simp only [← reservedBefore_published within.journal fresh op] at cpuRoom memRoom ⊢
  unfold checkHostCapacityBefore at checked
  cases computed : hostFreeCapacityBefore limits (node.setOperation request.opID op)
      request.host request.opID with
  | error err => simp [computed] at checked
  | ok free =>
    obtain ⟨cpu, mem, rfl, cpuFree, memFree⟩ := hostFree_spec named known cpuRoom memRoom computed
    simp only [computed] at checked
    split at checked
    · cases checked
    · rename_i room
      obtain ⟨enoughCPU, enoughMem⟩ := not_or.mp room
      exact ⟨cpuFree.fits cpuRoom enoughCPU, memFree.fits memRoom enoughMem⟩

/-- A verified request fits every pool beside the usage and the attributed claims. -/
theorem verify_spec (within : Within limits node) (valid : request.vector.validate = .ok ())
    (attributable : Attributable limits node (.reserve request))
    (fresh : node.operations.find request.opID = none)
    (verified : verify limits (node.setOperation request.opID op) request = .ok ()) {pool : Pool}
    (bounded : limits.bound pool = some bound) :
    node.used limits pool + node.attributed pool + request.vector.claim pool ≤ bound := by
  have idle := within.bounded pool bound bounded
  obtain ⟨_, host, project⟩ := bind_eq_ok verified
  cases pool with
  | cpu name =>
    by_cases here : request.host = name
    · subst here
      obtain ⟨capacity, known, rfl⟩ := Option.map_eq_some_iff.mp bounded
      simpa [ReservationVector.claim, Request.vector] using
        (host_room within valid fresh host known).1
    · simpa [ReservationVector.claim, Request.vector, here] using idle
  | mem name =>
    by_cases here : request.host = name
    · subst here
      obtain ⟨capacity, known, rfl⟩ := Option.map_eq_some_iff.mp bounded
      simpa [ReservationVector.claim, Request.vector] using
        (host_room within valid fresh host known).2
    · simpa [ReservationVector.claim, Request.vector, here] using idle
  | quota name dim =>
    by_cases mine : request.project = name
    · subst mine
      by_cases charged : request.withQuota = true
      · rw [if_pos charged] at project
        have fits := attributable charged dim bound bounded
        have room := checkProjectQuotaBefore_spec project bounded
        simp only [reservedBefore_published within.journal fresh op] at room
        have claim : request.vector.claim (.quota request.project dim) =
            (request.quota.get dim).val := by
          simp [ReservationVector.claim, Request.vector, charged]
        rw [claim]
        exact room fits
      · have free : (QuotaAmount.zero.get dim).val = 0 := by cases dim <;> rfl
        simpa [ReservationVector.claim, Request.vector, charged, free] using idle
    · simpa [ReservationVector.claim, Request.vector, mine] using idle

/-! ## Steps keep the bounds -/

theorem attributed_set (node : Node) (id : String) (op : Operation) (pool : Pool) :
    (node.setOperation id op).attributed pool +
        (node.operations.find id).elim 0 (node.counts pool id) =
      node.attributed pool + node.counts pool id op :=
  node.operations.total_put (node.counts pool) id op

theorem counts_le (node : Node) (pool : Pool) (id : String) (op : Operation) :
    node.counts pool id op ≤ op.vector.claim pool := by
  unfold Node.counts
  split
  · exact Nat.le_refl _
  · exact Nat.zero_le _

theorem counts_completed (node : Node) (pool : Pool) (id : String) (op : Operation)
    (completed : op.completed = true) : node.counts pool id op = 0 := by
  unfold Node.counts
  split
  · rename_i counted
    have reserves := of_decide_eq_true (and_eq_true_iff.mp counted).2
    rw [not_completed_of_reserves reserves] at completed
    cases completed
  · rfl

theorem Journal.write (journal : Journal node) (decided : op.admitted = true ∨ op.completed = true)
    (stamped : ∀ facts, op.facts = some facts →
      ∃ current, node.currentProjectAuthority op.project = some current ∧
        facts.authorityEpoch ≤ current.epoch) : Journal (node.setOperation id op) := by
  constructor
  · intro other found held
    rw [Node.setOperation, find_put] at held
    split at held
    · cases held
      exact decided
    · exact journal.decided other found held
  · intro other found facts held stamp
    rw [Node.setOperation, find_put] at held
    split at held
    · cases held
      exact stamped facts stamp
    · exact journal.stamped other found facts held stamp

theorem within_write (journal : Journal (node.setOperation id op))
    (room : ∀ pool bound, limits.bound pool = some bound →
      node.used limits pool + node.attributed pool + node.counts pool id op ≤
        bound + (node.operations.find id).elim 0 (node.counts pool id)) :
    Within limits (node.setOperation id op) := by
  refine ⟨journal, fun pool bound bounded => ?_⟩
  have set := attributed_set node id op pool
  have room := room pool bound bounded
  have kept : (node.setOperation id op).used limits pool = node.used limits pool := rfl
  omega

theorem stampFacts_epoch {authority : Option Authority} {facts : ReservationFacts}
    (stamped : stampFacts authority project = some facts) :
    ∃ current, authority = some current ∧ facts.authorityEpoch ≤ current.epoch := by
  obtain ⟨current, known, given⟩ := Option.bind_eq_some_iff.mp stamped
  obtain rfl := Option.some.inj (Option.ite_none_left_eq_some.mp given).2
  exact ⟨current, known, Nat.le_refl _⟩

theorem setOperation_setOperation (node : Node) (id : String) (first second : Operation) :
    (node.setOperation id first).setOperation id second = node.setOperation id second := by
  simp only [Node.setOperation, put_put]

theorem Within.refused (within : Within limits node) {facts : Option ReservationFacts}
    (stamped : ∀ stamp, facts = some stamp →
      ∃ current, node.currentProjectAuthority request.project = some current ∧
        stamp.authorityEpoch ≤ current.epoch) :
    Within limits (node.setOperation request.opID
      { request.operation facts with completed := true }) := by
  refine within_write (within.journal.write (.inr rfl) stamped) fun pool bound bounded => ?_
  have idle := within.bounded pool bound bounded
  have counts := counts_completed node pool request.opID
    { request.operation facts with completed := true } rfl
  omega

theorem Within.reserve (within : Within limits node)
    (attributable : Attributable limits node (.reserve request)) :
    Within limits (admitReserved limits node request).1 := by
  unfold admitReserved
  split
  · exact within
  rename_i valid
  unfold decideReservation
  split
  · exact within
  rename_i fresh
  simp only
  have current (stamp : ReservationFacts)
      (present : stampFacts (node.currentProjectAuthority request.project) request.project =
        some stamp) :
      ∃ current, node.currentProjectAuthority request.project = some current ∧
        stamp.authorityEpoch ≤ current.epoch :=
    stampFacts_epoch present
  generalize stampFacts (node.currentProjectAuthority request.project) request.project = facts
    at current ⊢
  split
  · rw [setOperation_setOperation]
    exact within.refused current
  rename_i verified
  rw [setOperation_setOperation]
  refine within_write (within.journal.write (.inl rfl) current)
    fun pool bound bounded => ?_
  have room := verify_spec within valid attributable fresh verified bounded
  have counts := counts_le node pool request.opID
    { request.operation facts with admitted := true }
  exact Nat.le_add_right_of_le (Nat.le_trans (Nat.add_le_add_left counts _) room)

theorem Journal.complete (journal : Journal node) (found : node.operations.find id = some op) :
    Journal (node.setOperation id { op with completed := true }) :=
  journal.write (.inr rfl) fun facts stamp => journal.stamped id op facts found stamp

theorem attributed_complete (found : node.operations.find id = some op) (pool : Pool) :
    (node.setOperation id { op with completed := true }).attributed pool +
      node.counts pool id op = node.attributed pool := by
  have set := attributed_set node id { op with completed := true } pool
  rw [found, counts_completed node pool id { op with completed := true } rfl] at set
  exact set

theorem Within.release (within : Within limits node) (found : node.operations.find id = some op) :
    Within limits (node.setOperation id { op with completed := true }) := by
  refine ⟨within.journal.complete found, fun pool bound bounded => ?_⟩
  have idle := within.bounded pool bound bounded
  have freed := attributed_complete found pool
  have kept : (node.setOperation id { op with completed := true }).used limits pool =
    node.used limits pool := rfl
  omega

variable {row : Workload}

theorem charge_le_of_covers {overhead : Nat} {vector : ReservationVector}
    {old : Option Workload} (covered : covers overhead vector old row = true) (pool : Pool) :
    row.charge overhead pool ≤ old.elim 0 (·.charge overhead pool) + vector.claim pool := by
  by_cases own : pool ∈ row.pools
  · exact of_decide_eq_true (all_eq_true.mp covered pool own)
  have none : row.charge overhead pool = 0 := by
    cases pool with
    | cpu host | mem host =>
      have elsewhere : row.host ≠ host := fun here => own (by simp [Workload.pools, here])
      simp [Workload.charge, elsewhere]
    | quota project dim =>
      have other : row.project ≠ project := fun same =>
        own (by simp [Workload.pools, same, dim.mem_all])
      simp [Workload.charge, other]
  omega

theorem Within.land (within : Within limits node) {key : String}
    (found : node.operations.find id = some op) (admitted : op.admitted = true)
    (attributable : node.reserves id op = .ok true)
    (covered : covers limits.vmMemOverheadMiB.val op.vector (node.workloads.find key) row = true) :
    Within limits { node.setOperation id { op with completed := true } with
      workloads := node.workloads.put key row } := by
  constructor
  · have journal := within.journal.complete found
    exact ⟨journal.decided, journal.stamped⟩
  intro pool bound bounded
  have idle := within.bounded pool bound bounded
  have freed := attributed_complete found pool
  have counted : node.counts pool id op = op.vector.claim pool := by
    simp [Node.counts, admitted, attributable]
  have replaced := node.workloads.total_put
    (fun _ row => row.charge limits.vmMemOverheadMiB.val pool) key row
  have drawn := charge_le_of_covers covered pool
  have grown : (node.workloads.put key row).total
      (fun _ row => row.charge limits.vmMemOverheadMiB.val pool) ≤
        node.used limits pool + op.vector.claim pool := by
    unfold Node.used
    omega
  calc (node.workloads.put key row).total
          (fun _ row => row.charge limits.vmMemOverheadMiB.val pool) +
        (node.setOperation id { op with completed := true }).attributed pool
      ≤ node.used limits pool + op.vector.claim pool +
        (node.setOperation id { op with completed := true }).attributed pool :=
          Nat.add_le_add_right grown _
    _ = node.used limits pool + node.attributed pool := by omega
    _ ≤ bound := idle

theorem current_moveAuthority (node : Node) (project holder other : String) :
    (node.moveAuthority project holder).currentProjectAuthority other =
      if projectOrDefault other = projectOrDefault project then
        some ⟨projectOrDefault project,
          (node.currentProjectAuthority project).elim 0 (·.epoch) + 1, holder⟩
      else node.currentProjectAuthority other := rfl

theorem reserves_of_moved (journal : Journal node) {holder : String}
    (found : node.operations.find id = some op)
    (reserves : (node.moveAuthority project holder).reserves id op = .ok true) :
    node.reserves id op = .ok true := by
  unfold Node.reserves at reserves ⊢
  rw [current_moveAuthority] at reserves
  split at reserves
  · rename_i moved
    have same : node.currentProjectAuthority op.project = node.currentProjectAuthority project :=
      congrArg node.authorities moved
    unfold Operation.reserves at reserves
    split at reserves
    · cases reserves
    split at reserves
    · cases reserves
    cases stamp : op.facts with
    | none => simp [stamp] at reserves
    | some facts =>
      obtain ⟨current, known, below⟩ := journal.stamped id op facts found stamp
      rw [same] at known
      have later : facts.authorityEpoch ≠ current.epoch + 1 := by omega
      simp only [stamp, known, Option.elim_some] at reserves
      split at reserves <;> cases reserves
  · exact reserves

theorem Journal.move (journal : Journal node) (project holder : String) :
    Journal (node.moveAuthority project holder) := by
  refine ⟨journal.decided, fun id op facts found stamp => ?_⟩
  obtain ⟨current, known, below⟩ := journal.stamped id op facts found stamp
  rw [current_moveAuthority]
  split
  · rename_i moved
    have same : node.currentProjectAuthority op.project = node.currentProjectAuthority project :=
      congrArg node.authorities moved
    refine ⟨_, rfl, ?_⟩
    rw [← same, known]
    exact Nat.le_succ_of_le below
  · exact ⟨current, known, below⟩

theorem Within.move (within : Within limits node) (project holder : String) :
    Within limits (node.moveAuthority project holder) := by
  refine ⟨within.journal.move project holder, fun pool bound bounded => ?_⟩
  have fewer : (node.moveAuthority project holder).attributed pool ≤ node.attributed pool := by
    refine total_le fun row member => ?_
    have found := mem_rows_iff.mp member
    unfold Node.counts
    split
    · rename_i counted
      obtain ⟨admitted, reserves⟩ := and_eq_true_iff.mp counted
      have before := reserves_of_moved within.journal found (of_decide_eq_true reserves)
      rw [admitted, before]
      exact Nat.le_refl _
    · exact Nat.zero_le _
  exact Nat.le_trans (Nat.add_le_add_left fewer _) (within.bounded pool bound bounded)

theorem Within.step {next : Node} {event : Event} (attributable : Attributable limits node event)
    (stepped : step limits node event = some next) (within : Within limits node) :
    Within limits next := by
  cases event with
  | reserve request =>
    cases stepped
    exact within.reserve attributable
  | release id =>
    obtain ⟨op, found, rfl⟩ := Option.map_eq_some_iff.mp stepped
    exact within.release found
  | land id key row =>
    obtain ⟨op, found, landed⟩ := Option.bind_eq_some_iff.mp stepped
    split at landed
    · rename_i enabled
      cases landed
      obtain ⟨outstanding, covered⟩ := and_eq_true_iff.mp enabled
      exact within.land found (and_eq_true_iff.mp outstanding).1
        (attributable op found) covered
    · cases landed
  | move project holder =>
    cases stepped
    exact within.move project holder

/-- From committed usage within the bounds and no operations, in every run whose sums fit
an integer and whose claims land under the authority that admitted them, committed usage and
the attributed claims stay within every bound. -/
theorem admissions_within {limits : Limits} {start node : Node}
    (none : start.operations = Table.empty)
    (committed : ∀ pool bound, limits.bound pool = some bound → start.used limits pool ≤ bound)
    (run : Run (step limits) (Attributable limits) start node) :
    ∀ pool bound, limits.bound pool = some bound →
      node.used limits pool + node.attributed pool ≤ bound := by
  have first : Within limits start := by
    refine ⟨⟨fun id op found => ?_, fun id op facts found => ?_⟩, fun pool bound bounded => ?_⟩
    · rw [none] at found
      cases found
    · rw [none] at found
      cases found
    · have idle : start.attributed pool = 0 := by
        unfold Node.attributed
        rw [none]
        rfl
      rw [idle]
      exact committed pool bound bounded
  have last := run.invariant (Within limits) first
    fun _ _ _ attributable stepped within => within.step attributable stepped
  exact last.bounded

/-! ## One host and one project -/

/-- A host with four vCPUs and 8 GiB, and a project that is limited to ten interfaces. -/
def oneHost : Limits where
  capacity := fun host => if host = "h" then some ⟨4, 8192⟩ else none
  vmMemOverheadMiB := 128
  quotas := fun project => if project = "p" then some ⟨0, 0, 0, 10⟩ else none
  unnamed := rfl

def idleNode : Node := ⟨Table.empty, fun _ => none, Table.empty⟩

theorem used_idle (pool : Pool) : idleNode.used oneHost pool = 0 := rfl

/-- A request of the project for the vCPUs and interfaces given, and 1 GiB on the host. -/
def ask (opID : String) (cpu nic : Size) : Event :=
  .reserve ⟨opID, "p", "h", cpu, 1152, true, ⟨cpu, 1024, 0, nic⟩, ⟨0, 0⟩⟩

def machine (cpu nic : Size) : Workload := ⟨.vm, "h", "p", true, ⟨cpu, 1024, 0, nic⟩, cpu, 1024⟩

def attributable (limits : Limits) (node : Node) : Event → Bool
  | .reserve request => Dim.all.all fun dim =>
    node.used limits (.quota request.project dim) +
      node.attributed (.quota request.project dim) + (request.quota.get dim).val < 2 ^ 63
  | .release _ => true
  | .land id _ _ => (node.operations.find id).all fun op => node.reserves id op = .ok true
  | .move _ _ => true

theorem attributable_sound (limits : Limits) (node : Node) (event : Event)
    (decided : attributable limits node event = true) : Attributable limits node event := by
  cases event with
  | reserve request =>
    intro _ dim _ _
    exact of_decide_eq_true (all_eq_true.mp decided dim dim.mem_all)
  | release id => trivial
  | land id key row =>
    intro op found
    simpa [attributable, found] using decided
  | move project holder => trivial

/-- One machine lands, the authority is established, and of two more that would fill the
host the second, with the smaller id, is refused. -/
theorem admissions_within_after_landing : ∃ node,
    Run (step oneHost) (Attributable oneHost) idleNode node ∧
      node.held (.cpu "h") = 2 ∧ node.used oneHost (.cpu "h") = 2 ∧
      ∀ pool bound, oneHost.bound pool = some bound →
        node.used oneHost pool + node.attributed pool ≤ bound := by
  obtain ⟨node, run, claims, usage⟩ : ∃ node,
      Run (step oneHost) (Attributable oneHost) idleNode node ∧
      node.held (.cpu "h") = 2 ∧ node.used oneHost (.cpu "h") = 2 :=
    Run.executed (attributable_sound oneHost) [ask "c" 2 1, .land "c" "vm:a" (machine 2 1),
      .move "p" "n", ask "b" 2 1, ask "a" 2 1] (by decide +kernel)
  exact ⟨node, run, claims, usage, admissions_within rfl
    (fun pool bound _ => (used_idle pool).trans_le (Nat.zero_le bound)) run⟩

/-- An authority that is established between two admissions takes the first claim out of
the count, and the host is handed out twice.  A request whose sum with the usage wraps
passes the quota. -/
theorem admissions_exceed :
    (∃ node, Run (step oneHost) (fun _ _ => True) idleNode node ∧
      oneHost.bound (.cpu "h") = some 4 ∧
      node.used oneHost (.cpu "h") + node.held (.cpu "h") = 8) ∧
    ∃ node, Run (step oneHost) (fun _ _ => True) idleNode node ∧
      oneHost.bound (.quota "p" .nic) = some 10 ∧
      node.used oneHost (.quota "p" .nic) + node.held (.quota "p" .nic) = 2 ^ 63 := by
  have reached {pool bound total} (isBound : oneHost.bound pool = some bound) (ran : ∃ node,
      Run (step oneHost) (fun _ _ => True) idleNode node ∧
        node.used oneHost pool + node.held pool = total) :=
    ran.imp fun _ ⟨run, sum⟩ => And.intro run (And.intro isBound sum)
  exact ⟨reached rfl (Run.reaches [ask "a" 4 1, .move "p" "n", ask "b" 4 1] (by decide +kernel)),
    reached rfl (Run.reaches [ask "a" 1 1, ask "b" 1 (2 ^ 63 - 1)] (by decide +kernel))⟩

end Litevirt.Admission

import Litevirt.Lib.Totals
import Litevirt.Lib.Transition

/-!
# Reserve-then-verify admission

`decideReservation`, `checkHostCapacityBefore`, `checkProjectQuotaBefore` and `quotaVerdict` of
`internal/grpcapi/reservation_admission.go`, over the scan of
`internal/corrosion/reservation.go`. An operation row is published, attributed to the project's
current authority, verified against what it must yield to and marked admitted, all under one
lock.
-/

namespace Litevirt.Admission

open Litevirt.Lib

/-- The dimensions a project quota bounds. -/
inductive Dim where
  | vcpu
  | memory
  | disk
  | nic
  deriving DecidableEq

def Dim.all : List Dim := [.vcpu, .memory, .disk, .nic]

def Dim.name : Dim → String
  | .vcpu => "vCPU"
  | .memory => "memory"
  | .disk => "disk GiB"
  | .nic => "NIC"

theorem Dim.mem_all (dim : Dim) : dim ∈ Dim.all := by cases dim <;> decide

structure QuotaAmount (α : Type) where
  vcpu : α
  memMiB : α
  diskGiB : α
  nic : α
  deriving DecidableEq

namespace QuotaAmount

def get {α : Type} (amount : QuotaAmount α) : Dim → α
  | .vcpu => amount.vcpu
  | .memory => amount.memMiB
  | .disk => amount.diskGiB
  | .nic => amount.nic

def map {α β : Type} (f : α → β) (amount : QuotaAmount α) : QuotaAmount β :=
  ⟨f amount.vcpu, f amount.memMiB, f amount.diskGiB, f amount.nic⟩

@[simp] theorem get_map {α β : Type} (f : α → β) (amount : QuotaAmount α) (dim : Dim) :
    (amount.map f).get dim = f (amount.get dim) := by cases dim <;> rfl

/-- The dimension-wise sum, in machine integers. -/
def add (a b : QuotaAmount Int64) : QuotaAmount Int64 :=
  ⟨a.vcpu + b.vcpu, a.memMiB + b.memMiB, a.diskGiB + b.diskGiB, a.nic + b.nic⟩

@[simp] theorem get_add (a b : QuotaAmount Int64) (dim : Dim) :
    (a.add b).get dim = a.get dim + b.get dim := by cases dim <;> rfl

def zero : QuotaAmount Size := ⟨0, 0, 0, 0⟩

end QuotaAmount

def toInt (size : Size) : Int64 := Int64.ofNat size.val

inductive Kind where
  | vm
  | container
  deriving DecidableEq

/-- A live workload row.  Of a container only the declared limits are recorded. -/
structure Workload where
  kind : Kind
  host : String
  project : String
  running : Bool
  spec : QuotaAmount Size
  cpuActual : Size
  memActual : Size
  deriving DecidableEq

structure Authority where
  project : String
  epoch : Nat
  holder : String
  deriving DecidableEq

structure ReservationFacts where
  project : String
  authorityEpoch : Nat
  authorityHost : String
  deriving DecidableEq

structure ReservationVector where
  project : String
  amount : QuotaAmount Size
  targetHost : String
  targetCPU : Size
  targetMemMiB : Size
  provisional : Bool
  deriving DecidableEq

/-- An operation with its steps: `facts` is what its `reserved` step says, `admitted` and
`completed` whether it has the step of that name. -/
structure Operation where
  project : String
  vector : ReservationVector
  facts : Option ReservationFacts
  admitted : Bool
  completed : Bool
  deriving DecidableEq

/-- What a host may hand to workloads (`HostAllocatable`). -/
structure Capacity where
  cpu : Size
  memMiB : Size

/-- What admission decides against.  `UpsertProjectQuota` refuses the empty name, so it
has no quota row. -/
structure Limits where
  capacity : String → Option Capacity
  vmMemOverheadMiB : Size
  quotas : String → Option (QuotaAmount Size)
  unnamed : quotas "" = none

structure Node where
  workloads : Table String Workload
  authorities : String → Option Authority
  operations : Table String Operation

def Node.setOperation (node : Node) (id : String) (op : Operation) : Node :=
  { node with operations := node.operations.put id op }

def defaultProject : String := "_default"

def projectOrDefault (project : String) : String :=
  if project = "" then defaultProject else project

def Node.currentProjectAuthority (node : Node) (project : String) : Option Authority :=
  node.authorities (projectOrDefault project)

/-- Whether an operation's row still reserves capacity, as one turn of the scan decides. -/
def Operation.reserves (authority : Option Authority) (id : String) (op : Operation) :
    Except String Bool :=
  if op.completed then .ok false
  else if op.project ≠ "" ∧ op.vector.project ≠ op.project then
    .error ("reservation " ++ id ++ " project " ++ op.vector.project.quote ++
      " does not match operation project " ++ op.project.quote)
  else
    match authority with
    | none => .ok true
    | some current =>
      match op.facts with
      | none => .ok false
      | some facts =>
        if facts.project = "" ∨ facts.authorityEpoch = 0 ∨ facts.authorityHost = "" then
          .error ("reservation " ++ id ++ " has malformed authority facts")
        else if facts.authorityEpoch ≠ current.epoch then .ok false
        else if projectOrDefault facts.project ≠ current.project ∨
            facts.authorityHost ≠ current.holder then
          .error ("reservation " ++ id ++ " has invalid current-authority facts")
        else .ok true

/-- Whether the operation's row reserves capacity in a state of the node. -/
def Node.reserves (node : Node) (id : String) (op : Operation) : Except String Bool :=
  op.reserves (node.currentProjectAuthority op.project) id

/-- The rows that reserve capacity; the first row that cannot be read fails the scan. -/
def scan (reserves : String → Operation → Except String Bool) :
    List (String × Operation) → Except String (List (String × Operation))
  | [] => .ok []
  | row :: rest => do
      let live ← reserves row.1 row.2
      let others ← scan reserves rest
      .ok (if live then row :: others else others)

def nonterminalReservationsByID (node : Node) : Except String (List (String × Operation)) :=
  scan node.reserves node.operations.rows

def reservationCounts (id opID : String) (vector : ReservationVector) (admitted : Bool) : Bool :=
  if id = opID then false
  else if id < opID then true
  else !vector.provisional || admitted

def countedBefore (node : Node) (opID : String) : Except String (List (String × Operation)) :=
  (nonterminalReservationsByID node).map fun rows =>
    rows.filter fun row => reservationCounts row.1 opID row.2.vector row.2.admitted

/-- The host half of `reservedBefore`. -/
def hostReservedBefore (node : Node) (host opID : String) : Except String (Int64 × Int64) :=
  (countedBefore node opID).map fun rows =>
    let targeting := rows.filter fun row => host ≠ "" ∧ row.2.vector.targetHost = host
    (targeting.foldl (fun sum row => sum + toInt row.2.vector.targetCPU) 0,
      targeting.foldl (fun sum row => sum + toInt row.2.vector.targetMemMiB) 0)

def projectReservedBefore (node : Node) (project opID : String) :
    Except String (QuotaAmount Int64) :=
  (countedBefore node opID).map fun rows =>
    (rows.filter fun row => project ≠ "" ∧ row.2.vector.project = project).foldl
      (fun sum row => sum.add (row.2.vector.amount.map toInt)) (QuotaAmount.zero.map toInt)

/-- What is left of the capacity after each amount in turn, never below zero. -/
def remainingAfter : Int64 → List Int64 → Except String Int64
  | remaining, [] => .ok remaining
  | remaining, amount :: rest =>
    if amount < 0 then .error "consumed capacity cannot be negative"
    else if remaining ≤ amount then .ok 0
    else remainingAfter (remaining - amount) rest

def remainingCapacity (allocatable : Int64) (consumed : List Int64) : Except String Int64 :=
  if allocatable < 0 then .error "allocatable capacity cannot be negative"
  else remainingAfter allocatable consumed

def Workload.isRunning (kind : Kind) (row : Workload) : Bool := row.kind = kind && row.running

def Node.rows (node : Node) : List Workload := node.workloads.rows.map Prod.snd

def Node.runningVMs (node : Node) : List Workload := node.rows.filter (Workload.isRunning .vm)

/-- The containers `SumContainerMemoryByHost` counts: running ones with a memory limit. -/
def Node.cappedContainers (node : Node) : List Workload :=
  node.rows.filter fun row => row.isRunning .container && 0 < row.spec.memMiB

/-- A sum of the database; SQLite refuses one that does not fit an integer. -/
def sqlSum (sum : Option Int64) : Except String Int64 :=
  match sum with
  | some total => .ok total
  | none => .error "integer overflow"

def hostFreeWithReserved (limits : Limits) (node : Node) (host : String)
    (resCPU resMem : Int64) : Except String (Option (Int64 × Int64)) :=
  match limits.capacity host with
  | none => .ok none
  | some allocatable => do
      let cpuUsed ← sqlSum (checkedGroupSum Workload.host (·.cpuActual.val) node.runningVMs host)
      let memUsed ← sqlSum (checkedGroupSum Workload.host (·.memActual.val) node.runningVMs host)
      let ctMem ←
        sqlSum (checkedGroupSum Workload.host (·.spec.memMiB.val) node.cappedContainers host)
      let count := groupTotal Workload.host (fun _ => 1) node.runningVMs host
      let freeCPU ← (remainingCapacity (toInt allocatable.cpu) [cpuUsed, resCPU]).mapError
        ("calculate host " ++ host.quote ++ " free CPU: " ++ ·)
      let freeMem ← (remainingCapacity (toInt allocatable.memMiB)
        [memUsed, ctMem, resMem, toInt limits.vmMemOverheadMiB * Int64.ofNat count]).mapError
          ("calculate host " ++ host.quote ++ " free memory: " ++ ·)
      .ok (some (freeCPU, freeMem))

def hostFreeCapacityBefore (limits : Limits) (node : Node) (host opID : String) :
    Except String (Option (Int64 × Int64)) := do
  let reserved ← hostReservedBefore node host opID
  hostFreeWithReserved limits node host reserved.1 reserved.2

inductive Code where
  | internal
  | resourceExhausted
  deriving DecidableEq

structure Refusal where
  code : Code
  message : String
  deriving DecidableEq

/-- Load the runtime inventory sees and the database does not record. -/
structure RuntimeLoad where
  cpu : Size
  memMiB : Size

structure Request where
  opID : String
  project : String
  host : String
  cpuDelta : Size
  memDelta : Size
  withQuota : Bool
  quota : QuotaAmount Size
  extra : RuntimeLoad

def insufficient (request : Request) (freeCPU freeMem : Int64) : String :=
  let extraCPU := toInt request.extra.cpu
  let extraMem := toInt request.extra.memMiB
  let suffix :=
    if 0 < extraCPU ∨ 0 < extraMem then
      ", of which " ++ toString extraCPU ++ " vCPU/" ++ toString extraMem ++
        " MiB is runtime-only load the database does not record"
    else ""
  "host " ++ request.host ++ " has insufficient free capacity for +" ++
    toString (toInt request.cpuDelta) ++ " vCPU/+" ++ toString (toInt request.memDelta) ++
    " MiB (free: " ++ toString (freeCPU - extraCPU) ++ " vCPU/" ++
    toString (freeMem - extraMem) ++ " MiB after earlier reservations" ++ suffix ++ ")"

def checkHostCapacityBefore (limits : Limits) (node : Node) (request : Request) :
    Except Refusal Unit :=
  match hostFreeCapacityBefore limits node request.host request.opID with
  | .error err => .error ⟨.internal, "check host capacity: " ++ err⟩
  | .ok none => .ok ()
  | .ok (some free) =>
    if free.1 - toInt request.extra.cpu < toInt request.cpuDelta ∨
        free.2 - toInt request.extra.memMiB < toInt request.memDelta then
      .error ⟨.resourceExhausted, insufficient request free.1 free.2⟩
    else .ok ()

def Node.projectRows (node : Node) (kind : Kind) (project : String) : List Workload :=
  node.rows.filter fun row => row.kind = kind && row.project = project

def projectSum (node : Node) (kind : Kind) (project : String) (dim : Dim) : Option Int64 :=
  checkedSum ((node.projectRows kind project).map fun row => (row.spec.get dim).val)

/-- A failed sum over the disks is dropped, and the interfaces are counted, not summed. -/
def sumProjectUsage (node : Node) (name : String) : Except String (QuotaAmount Int64) := do
  let vmCPU ← sqlSum (projectSum node .vm name .vcpu)
  let vmMem ← sqlSum (projectSum node .vm name .memory)
  let ctCPU ← sqlSum (projectSum node .container name .vcpu)
  let ctMem ← sqlSum (projectSum node .container name .memory)
  let nics := fun kind => (node.projectRows kind name).foldl
    (fun sum row => sum + toInt row.spec.nic) 0
  .ok ⟨vmCPU + ctCPU, vmMem + ctMem, (projectSum node .vm name .disk).getD 0,
    nics .vm + nics .container⟩

def exceeded (project : String) (limit : Size) (used reserved : Int64) (delta : Size)
    (dim : Dim) : Refusal :=
  ⟨.resourceExhausted, "project " ++ project.quote ++ " " ++ dim.name ++
    " quota exceeded (used " ++ toString used ++ " + reserved " ++ toString reserved ++
    " + new " ++ toString (toInt delta) ++ " > limit " ++ toString (toInt limit) ++ ")"⟩

/-- The dimensions are compared in order and the first one exceeded is the refusal. -/
def quotaVerdict (project : String) (limits : QuotaAmount Size)
    (used reserved : QuotaAmount Int64) (delta : QuotaAmount Size) : Except Refusal Unit :=
  Dim.all.forM fun dim =>
    if 0 < toInt (limits.get dim) ∧
        toInt (limits.get dim) < used.get dim + reserved.get dim + toInt (delta.get dim) then
      .error (exceeded project (limits.get dim) (used.get dim) (reserved.get dim)
        (delta.get dim) dim)
    else .ok ()

def checkProjectQuotaBefore (limits : Limits) (node : Node) (project : String)
    (delta : QuotaAmount Size) (opID : String) : Except Refusal Unit :=
  match limits.quotas project with
  | none => .ok ()
  | some quota => do
      let used ← (sumProjectUsage node project).mapError
        fun err => ⟨.internal, "sum project usage: " ++ err⟩
      let reserved ← (projectReservedBefore node project opID).mapError
        fun err => ⟨.internal, "sum project reservations: " ++ err⟩
      quotaVerdict project quota used reserved delta

/-- The verification `admitReserved` passes: the host, then the project if it is charged. -/
def verify (limits : Limits) (node : Node) (request : Request) : Except Refusal Unit := do
  checkHostCapacityBefore limits node request
  if request.withQuota then
    checkProjectQuotaBefore limits node request.project request.quota request.opID

/-- The vector a request publishes: a host-only admission leaves the project at zero. -/
def Request.vector (request : Request) : ReservationVector where
  project := request.project
  amount := if request.withQuota then request.quota else QuotaAmount.zero
  targetHost := request.host
  targetCPU := request.cpuDelta
  targetMemMiB := request.memDelta
  provisional := true

/-- What is left of `Validate` for sizes that cannot be negative. -/
def ReservationVector.validate (vector : ReservationVector) : Except String Unit :=
  if vector.targetHost = "" ∧ (vector.targetCPU ≠ 0 ∨ vector.targetMemMiB ≠ 0) then
    .error "reservation target_host is required for target capacity"
  else .ok ()

def reservationFactsFor (project : String) (epoch : Nat) (holder : String) :
    Option ReservationFacts :=
  if epoch = 0 ∨ holder = "" then none else some ⟨projectOrDefault project, epoch, holder⟩

/-- The facts of the `reserved` step: none for a project without an authority. -/
def stampFacts (authority : Option Authority) (project : String) : Option ReservationFacts :=
  authority.bind fun current => reservationFactsFor project current.epoch current.holder

def Request.operation (request : Request) (facts : Option ReservationFacts) : Operation :=
  ⟨request.project, request.vector, facts, false, false⟩

def decideReservation (limits : Limits) (node : Node) (request : Request) :
    Node × Except Refusal String :=
  match node.operations.find request.opID with
  | some _ =>
    (node, .error ⟨.internal, "reserve capacity: UNIQUE constraint failed: operations.id"⟩)
  | none =>
    let facts := stampFacts (node.currentProjectAuthority request.project) request.project
    let published := node.setOperation request.opID (request.operation facts)
    match verify limits published request with
    | .error refusal =>
      (published.setOperation request.opID
        { request.operation facts with completed := true }, .error refusal)
    | .ok () =>
      (published.setOperation request.opID
        { request.operation facts with admitted := true }, .ok request.opID)

/-- `admitReserved` from the encoding of the vector on. -/
def admitReserved (limits : Limits) (node : Node) (request : Request) :
    Node × Except Refusal String :=
  match request.vector.validate with
  | .error err => (node, .error ⟨.internal, "encode reservation: " ++ err⟩)
  | .ok () => decideReservation limits node request

/-- One bounded resource: a host's vCPUs, its memory, or one dimension of a project. -/
inductive Pool where
  | cpu (host : String)
  | mem (host : String)
  | quota (project : String) (dim : Dim)
  deriving DecidableEq

/-- The bound on a pool; a quota limit of zero is none. -/
def Limits.bound (limits : Limits) : Pool → Option Nat
  | .cpu host => (limits.capacity host).map (·.cpu.val)
  | .mem host => (limits.capacity host).map (·.memMiB.val)
  | .quota project dim => (limits.quotas project).bind fun quota =>
    if 0 < (quota.get dim).val then some (quota.get dim).val else none

/-- What a row is charged in a dimension of its project; no disk is recorded of a
container. -/
def Workload.quotaCharge (row : Workload) (dim : Dim) : Nat :=
  if row.kind = .container ∧ dim = .disk then 0 else (row.spec.get dim).val

def Workload.charge (overhead : Nat) (row : Workload) : Pool → Nat
  | .cpu host => if row.isRunning .vm ∧ row.host = host then row.cpuActual.val else 0
  | .mem host =>
    if row.host ≠ host then 0
    else if row.isRunning .vm then row.memActual.val + overhead
    else if row.isRunning .container then row.spec.memMiB.val
    else 0
  | .quota project dim => if row.project = project then row.quotaCharge dim else 0

def ReservationVector.claim (vector : ReservationVector) : Pool → Nat
  | .cpu host => if vector.targetHost = host then vector.targetCPU.val else 0
  | .mem host => if vector.targetHost = host then vector.targetMemMiB.val else 0
  | .quota project dim => if vector.project = project then (vector.amount.get dim).val else 0

def Workload.pools (row : Workload) : List Pool :=
  [.cpu row.host, .mem row.host] ++ Dim.all.map (Pool.quota row.project)

/-- A claim covers a row when the row draws no more than the one it replaces and the
claim together: a create, a start or a grow of the size that was admitted. -/
def covers (overhead : Nat) (vector : ReservationVector) (old : Option Workload)
    (row : Workload) : Bool :=
  row.pools.all fun pool =>
    row.charge overhead pool ≤ old.elim 0 (·.charge overhead pool) + vector.claim pool

/-- `ClaimInitialProjectAuthority` and `TakeoverProjectAuthority`: the next epoch. -/
def Node.moveAuthority (node : Node) (project holder : String) : Node :=
  let moved := projectOrDefault project
  let epoch := (node.authorities moved).elim 0 (·.epoch) + 1
  { node with authorities := fun name =>
      if name = moved then some ⟨moved, epoch, holder⟩ else node.authorities name }

inductive Event where
  | reserve (request : Request)
  | release (id : String)
  | land (id key : String) (row : Workload)
  | move (project holder : String)

def step (limits : Limits) (node : Node) : Event → Option Node
  | .reserve request => some (admitReserved limits node request).1
  | .release id => (node.operations.find id).map fun op =>
    node.setOperation id { op with completed := true }
  | .land id key row => (node.operations.find id).bind fun op =>
    if op.admitted && !op.completed &&
        covers limits.vmMemOverheadMiB.val op.vector (node.workloads.find key) row then
      some { node.setOperation id { op with completed := true } with
        workloads := node.workloads.put key row }
    else none
  | .move project holder => some (node.moveAuthority project holder)

def Node.used (limits : Limits) (node : Node) (pool : Pool) : Nat :=
  node.workloads.total fun _ row => row.charge limits.vmMemOverheadMiB.val pool

def Node.held (node : Node) (pool : Pool) : Nat :=
  node.operations.total fun _ op =>
    if op.admitted && !op.completed then op.vector.claim pool else 0

/-- What an operation counts for in a pool: its claim, when it is admitted and the current
authority can attribute it. -/
def Node.counts (node : Node) (pool : Pool) (id : String) (op : Operation) : Nat :=
  if op.admitted && node.reserves id op = .ok true then op.vector.claim pool else 0

/-- The claims on a pool that the current authorities can attribute. -/
def Node.attributed (node : Node) (pool : Pool) : Nat := node.operations.total (node.counts pool)

end Litevirt.Admission

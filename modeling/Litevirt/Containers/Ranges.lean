import Litevirt.Lib.Transition

/-!
# Host id ranges of containers

An unprivileged container runs in a range of host ids
(`internal/grpcapi/container_security.go`).  Allocation reads rows and a ledger that may lag, and
a container that arrives keeps its range.  `StartContainer` checks for overlaps; the restart
policy of the container checker starts a container without that check
(`internal/health/containercheck.go`), so what keeps containers apart has to hold on the disk
for every container that the checker may start.
-/

namespace Litevirt.Containers

open Litevirt.Lib List Option

/-- `lxc.IDMapSize`. -/
def idMapSize : Int := 65536

/-- Every range is allocated with the one size. -/
structure IDMap where
  base : Int
  size : Int
  sized : size = idMapSize
  deriving DecidableEq

def IDMap.ofBase (base : Int) : IDMap := ⟨base, idMapSize, rfl⟩

/-- `lxc.Security` of a container on the disk, whether it runs, and what the checker reads in its
row. -/
structure Container where
  /-- `none` for a privileged container. -/
  idMap : Option IDMap
  converting : Bool
  /-- The target that an interrupted convert recorded. -/
  convertTo : Option IDMap
  running : Bool
  /-- The condition of the restart policy is `on-failure` or `always`. -/
  restartPolicy : Bool
  /-- The state detail is `created` or `operator-stop`. -/
  staysDown : Bool

/-- An entry of the ledger; `time` is in nanoseconds. -/
structure IdmapLedgerEntry where
  base : Int
  name : String
  time : Int

/-- A live row of `containers`, with the base in its create spec. -/
structure ContainerRecord where
  hostName : String
  name : String
  idMapBase : Int

structure Host where
  hostName : String
  /-- FNV-1a of the host name. -/
  nameHash : Nat
  /-- `containers.idmap_base` and `containers.idmap_ranges` as they are configured. -/
  idmapBase : Int
  idmapRanges : Int
  ledger : List IdmapLedgerEntry
  disk : String → Option Container

def idmapLedgerTTL : Int := 24 * 3600 * 1000000000

/-- `takenBases`: the range of the config, and the target of an unfinished convert. -/
def takenBases (sec : Container) : List Int :=
  (sec.idMap.map IDMap.base).toList ++
    if sec.converting then (sec.convertTo.map IDMap.base).toList else []

/-- What an operation reads: the live rows, the names on the disk whose configs can be read,
and the time. -/
structure Readings where
  rows : List ContainerRecord
  names : List String
  now : Int

namespace Host

variable (host : Host)

def idmapConfig : Int × Nat :=
  (if host.idmapBase ≤ 0 then 1000000000 else host.idmapBase,
    if host.idmapRanges ≤ 0 then 30000 else host.idmapRanges.toNat)

def idmapSlotBase (slot : Nat) : Int := host.idmapConfig.1 + slot * idMapSize

def idmapStartSlot : Nat := host.nameHash % host.idmapConfig.2

/-- `localContainerSecurity`, of the names that can be read. -/
def localContainerSecurity (names : List String) : List (String × Container) :=
  names.filterMap fun name => (host.disk name).map fun sec => (name, sec)

/-- The entries of the ledger that still hold their range. -/
def heldLedger (now : Int) : List IdmapLedgerEntry :=
  host.ledger.filter fun entry => now - entry.time < idmapLedgerTTL

/-- The bases of the live rows, of the ledger and of the configs that can be read. -/
def usedBases (read : Readings) : List Int :=
  (read.rows.map (·.idMapBase)).filter (· ≠ 0) ++ (host.heldLedger read.now).map (·.base) ++
    (host.localContainerSecurity read.names).flatMap fun row => takenBases row.2

/-- `allocateIDMapBase`: the range and the ledger that records it; `none` when every range is
in use. -/
def allocateIDMapBase (read : Readings) (name : String) : Option (Int × Host) :=
  let n := host.idmapConfig.2
  let slots := (List.range n).map fun i => host.idmapSlotBase ((host.idmapStartSlot + i) % n)
  (slots.find? (· ∉ host.usedBases read)).map fun base =>
    (base, { host with ledger := host.heldLedger read.now ++ [⟨base, name, read.now⟩] })

/-- `refuseOverlappingRange`: whether the start is refused. -/
def refuseOverlappingRange (names : List String) (name : String) : Bool :=
  let all := host.localContainerSecurity names
  match (all.find? fun row => row.1 = name).bind fun row => row.2.idMap with
  | none => false
  | some mine => all.any fun row => row.1 ≠ name && (takenBases row.2).any fun other =>
      !(other + idMapSize ≤ mine.base || mine.base + mine.size ≤ other)

/-- The question of `remapRestoredRange`: another container holds the range. -/
def rangeTaken (read : Readings) (name : String) (base : Int) : Bool :=
  (read.rows.any fun row =>
    !(row.hostName = host.hostName && row.name = name) && row.idMapBase = base) ||
  (host.localContainerSecurity read.names).any fun row =>
    row.1 ≠ name && (takenBases row.2).any fun other =>
      other < base + idMapSize && base < other + idMapSize

def put (name : String) (sec : Option Container) : Host :=
  { host with disk := Function.update host.disk name sec }

def place (name : String) (sec : Container) : Host := host.put name (some sec)

end Host

inductive Event where
  | create (name : String) (privileged restartPolicy : Bool) (read : Readings)
  /-- `recorded` is the base in the row of the source. -/
  | clone (source target : String) (recorded : Int) (read : Readings)
  /-- `ConvertContainer --unprivileged`; it may be interrupted. -/
  | convert (name : String) (read : Readings) (finishes : Bool)
  /-- A restore of a backup with the range; 0 is a privileged container.  The row has the policy
  and the state detail of the backup. -/
  | restore (name : String) (base : Int) (restartPolicy staysDown : Bool) (read : Readings)
  /-- A container comes from another host with the range it has there. -/
  | arrive (name : String) (base : Option Int) (restartPolicy staysDown : Bool)
  /-- The daemon restarts with another configuration. -/
  | configure (base ranges : Int)
  /-- The container stops, by `StopContainer` or out of band. -/
  | stop (name : String) (operator : Bool)
  | delete (name : String)
  /-- `StartContainer`, which reads the configs of the names. -/
  | start (name : String) (names : List String)
  /-- The restart policy of the container checker. -/
  | restart (name : String)

/-- A container on the disk that does not run. -/
def idle (idMap : Option IDMap) (restartPolicy staysDown : Bool) : Container :=
  ⟨idMap, false, none, false, restartPolicy, staysDown⟩

/-- `runtime.Start`: an unfinished conversion refuses to start.  The start clears the state
detail. -/
def Host.run (host : Host) (name : String) : Option Host :=
  match host.disk name with
  | some sec =>
    if sec.converting then none
    else some (host.place name { sec with running := true, staysDown := false })
  | none => none

/-- One operation; `none` when it is refused. -/
def step (host : Host) : Event → Option Host
  | .create name privileged restartPolicy read =>
    if (host.disk name).isSome then none
    else if privileged then some (host.place name (idle none restartPolicy true))
    else (host.allocateIDMapBase read name).map fun (base, next) =>
      next.place name (idle (some (.ofBase base)) restartPolicy true)
  | .clone source target recorded read =>
    match host.disk source, host.disk target with
    | some sec, none =>
      if recorded = 0 then some (host.place target (idle sec.idMap sec.restartPolicy true))
      else (host.allocateIDMapBase read target).map fun (base, next) =>
        next.place target (idle (some (.ofBase base)) sec.restartPolicy true)
    | _, _ => none
  | .convert name read finishes =>
    match host.disk name with
    | some sec =>
      if sec.running then none
      else
        -- an interrupted convert is finished to the range it recorded
        match if sec.converting then sec.convertTo else none with
        | some target =>
          some (host.place name (idle (some target) sec.restartPolicy sec.staysDown))
        | none => (host.allocateIDMapBase read name).map fun (base, next) =>
            next.place name
              (if finishes then idle (some (.ofBase base)) sec.restartPolicy sec.staysDown
              else { sec with converting := true, convertTo := some (.ofBase base) })
    | none => none
  | .restore name base restartPolicy staysDown read =>
    if (host.disk name).isSome then none
    else if base = 0 then some (host.place name (idle none restartPolicy staysDown))
    else if host.rangeTaken read name base then
      (host.allocateIDMapBase read name).map fun (fresh, next) =>
        next.place name (idle (some (.ofBase fresh)) restartPolicy staysDown)
    else some (host.place name (idle (some (.ofBase base)) restartPolicy staysDown))
  | .arrive name base restartPolicy staysDown =>
    if (host.disk name).isSome then none
    else some (host.place name (idle (base.map .ofBase) restartPolicy staysDown))
  | .configure base ranges => some { host with idmapBase := base, idmapRanges := ranges }
  | .stop name operator => (host.disk name).map fun sec =>
      host.place name { sec with running := false, staysDown := sec.staysDown || operator }
  | .delete name => some (host.put name none)
  | .start name names => if host.refuseOverlappingRange names name then none else host.run name
  | .restart name =>
    if (host.disk name).any fun sec => sec.restartPolicy && !sec.staysDown then host.run name
    else none

/-- The range that a container runs with. -/
def Container.range (sec : Container) : Option IDMap := if sec.running then sec.idMap else none

/-- The range that the container of a name runs with. -/
def Host.range (host : Host) (name : String) : Option IDMap :=
  (host.disk name).bind Container.range

/-- No host id is in both ranges. -/
abbrev Apart (a b : IDMap) : Prop := a.base + a.size ≤ b.base ∨ b.base + b.size ≤ a.base

/-- No host id is in both ranges at the bases. -/
abbrev BasesApart (a b : Int) : Prop := a + idMapSize ≤ b ∨ b + idMapSize ≤ a

/-- A container that runs, or that the checker may start at any time. -/
def Container.Live (sec : Container) : Prop :=
  sec.running = true ∨ sec.restartPolicy = true ∧ sec.staysDown = false

namespace Host

/-- The container of a name is live and takes the range at the base. -/
def Takes (host : Host) (name : String) (base : Int) : Prop :=
  ∃ sec, host.disk name = some sec ∧ sec.Live ∧ base ∈ takenBases sec

/-- No live container other than `name` takes a host id of the range at the base. -/
def Clear (host : Host) (name : String) (base : Int) : Prop :=
  ∀ other taken, other ≠ name → host.Takes other taken → BasesApart base taken

/-- The live containers other than `name` with a range have a config among those of the names. -/
def Covers (host : Host) (name : String) (names : List String) : Prop :=
  ∀ other taken, other ≠ name → host.Takes other taken → other ∈ names

/-- Each range that a live container other than `name` takes is, for every configured slot, away
from the slot, or it is the slot and a row, the ledger or a config that can be read says so. -/
def Recorded (host : Host) (name : String) (read : Readings) : Prop :=
  ∀ other taken, other ≠ name → host.Takes other taken → ∀ slot < host.idmapConfig.2,
    BasesApart (host.idmapSlotBase slot) taken ∨
      host.idmapSlotBase slot = taken ∧ taken ∈ host.usedBases read

/-- The ranges that two live containers take share no host id. -/
def Spaced (host : Host) : Prop :=
  ∀ name base, host.Takes name base → host.Clear name base

end Host

/-- The condition on a step.  It is about containers that the checker may start, and about the
configs that a check can read. -/
def Accounted (host : Host) : Event → Prop
  | .convert name read _ => ∀ sec, host.disk name = some sec → sec.Live →
      (sec.converting = true → sec.convertTo = none) → host.Recorded name read
  | .restore name base restartPolicy staysDown read =>
    restartPolicy = true → staysDown = false → base ≠ 0 →
      host.Covers name read.names ∧
        (host.rangeTaken read name base = true → host.Recorded name read)
  | .arrive name base restartPolicy staysDown =>
    restartPolicy = true → staysDown = false → ∀ taken ∈ base, host.Clear name taken
  | .start name names => ∀ sec, host.disk name = some sec → ¬ sec.Live → sec.idMap.isSome = true →
      name ∈ names ∧ host.Covers name names
  | _ => True

variable {host next : Host} {name : String} {sec : Container} {read : Readings} {base : Int}

theorem BasesApart.symm {a b : Int} (apart : BasesApart a b) : BasesApart b a := Or.symm apart

theorem takes_put {host : Host} {name other : String} {sec : Option Container} {base : Int} :
    (host.put name sec).Takes other base ↔
      if other = name then ∃ placed, sec = some placed ∧ placed.Live ∧ base ∈ takenBases placed
      else host.Takes other base := by
  unfold Host.Takes Host.put
  by_cases same : other = name
  · simp [same]
  · simp [same]

/-- A container may be put on the disk when its ranges are clear if it is live. -/
theorem spaced_put {sec : Option Container} (spaced : host.Spaced)
    (clear : ∀ placed, sec = some placed → placed.Live → ∀ base ∈ takenBases placed,
      host.Clear name base) : (host.put name sec).Spaced := by
  intro first base takes second base' different takes'
  rw [takes_put] at takes takes'
  by_cases isFirst : first = name
  · rw [if_pos isFirst] at takes
    rw [if_neg fun isSecond => different (isSecond.trans isFirst.symm)] at takes'
    obtain ⟨placed, held, live, taken⟩ := takes
    exact clear placed held live base taken second base' (isFirst ▸ different) takes'
  · rw [if_neg isFirst] at takes
    by_cases isSecond : second = name
    · rw [if_pos isSecond] at takes'
      obtain ⟨placed, held, live, taken⟩ := takes'
      exact (clear placed held live base' taken first base isFirst takes).symm
    · rw [if_neg isSecond] at takes'
      exact spaced first base takes second base' different takes'

theorem spaced_place (spaced : host.Spaced)
    (clear : sec.Live → ∀ base ∈ takenBases sec, host.Clear name base) :
    (host.place name sec).Spaced :=
  spaced_put spaced fun _ held => Option.some.inj held ▸ clear

theorem takenBases_idle (idMap : Option IDMap) (restartPolicy staysDown : Bool) :
    takenBases (idle idMap restartPolicy staysDown) = (idMap.map IDMap.base).toList := by
  simp [takenBases, idle]

theorem live_idle {idMap : Option IDMap} {restartPolicy staysDown : Bool} :
    (idle idMap restartPolicy staysDown).Live ↔ restartPolicy = true ∧ staysDown = false := by
  simp [Container.Live, idle]

/-- The allocated range is a slot that nothing which was read uses. -/
theorem allocateIDMapBase_eq_some
    (allocated : host.allocateIDMapBase read name = some (base, next)) :
    next = { host with ledger := host.heldLedger read.now ++ [⟨base, name, read.now⟩] } ∧
      base ∉ host.usedBases read ∧
      ∃ slot < host.idmapConfig.2, host.idmapSlotBase slot = base := by
  obtain ⟨slotBase, found, same⟩ := map_eq_some_iff.mp allocated
  obtain ⟨rfl, rfl⟩ := Prod.mk.inj same
  refine ⟨rfl, by simpa using find?_some found, ?_⟩
  obtain ⟨i, inRange, isSlot⟩ := mem_map.mp (mem_of_find?_eq_some found)
  exact ⟨_, Nat.mod_lt _ (Nat.zero_lt_of_lt (mem_range.mp inRange)), isSlot⟩

/-- A fresh range is clear of the ranges that are recorded. -/
theorem clear_of_allocated {other : String} (recorded : host.Recorded name read)
    (allocated : host.allocateIDMapBase read other = some (base, next)) :
    host.Clear name base := by
  obtain ⟨-, fresh, slot, inConfig, rfl⟩ := allocateIDMapBase_eq_some allocated
  intro holder taken different takes
  rcases recorded holder taken different takes slot inConfig with apart | ⟨same, used⟩
  · exact apart
  · exact absurd (same ▸ used) fresh

/-- A fresh range goes to a container; the ledger has no part in what the disk takes. -/
theorem spaced_allocated {other : String} (spaced : host.Spaced)
    (allocated : host.allocateIDMapBase read other = some (base, next))
    (clear : sec.Live → ∀ base ∈ takenBases sec, host.Clear name base) :
    (next.place name sec).Spaced := by
  obtain ⟨rfl, -⟩ := allocateIDMapBase_eq_some allocated
  exact spaced_place spaced clear

variable {names : List String}

theorem mem_localContainerSecurity (listed : name ∈ names)
    (held : host.disk name = some sec) : (name, sec) ∈ host.localContainerSecurity names :=
  mem_filterMap.mpr ⟨name, listed, by rw [held, map_some]⟩

theorem find_localContainerSecurity (listed : name ∈ names) (held : host.disk name = some sec) :
    (host.localContainerSecurity names).find? (fun row => row.1 = name) = some (name, sec) := by
  have member := mem_localContainerSecurity listed held
  cases found : (host.localContainerSecurity names).find? (fun row => row.1 = name) with
  | none => exact absurd (find?_eq_none.mp found _ member) (by simp)
  | some row =>
    obtain ⟨other, -, read⟩ := mem_filterMap.mp (mem_of_find?_eq_some found)
    obtain ⟨sec', held', rfl⟩ := map_eq_some_iff.mp read
    obtain rfl : other = name := by simpa using find?_some found
    rw [held] at held'
    rw [Option.some.inj held']

/-- A range that `remapRestoredRange` leaves is clear of the containers it read. -/
theorem clear_of_not_rangeTaken (covers : host.Covers name read.names)
    (free : host.rangeTaken read name base = false) : host.Clear name base := by
  intro other taken different takes
  have listed := covers other taken different takes
  obtain ⟨sec, held, -, isTaken⟩ := takes
  have noneHolds := (Bool.or_eq_false_iff.mp free).2
  have notOther := any_eq_false.mp noneHolds _ (mem_localContainerSecurity listed held)
  simp only [ne_eq, different, not_false_eq_true, decide_true, Bool.true_and] at notOther
  have apart := any_eq_false.mp (Bool.eq_false_iff.mpr notOther) _ isTaken
  simp only [Bool.and_eq_true, decide_eq_true_eq] at apart
  omega

/-- What the check of `StartContainer` lets pass is clear of the containers it read. -/
theorem clear_of_passes {range : IDMap} (listed : name ∈ names) (covers : host.Covers name names)
    (passes : host.refuseOverlappingRange names name = false) (held : host.disk name = some sec)
    (own : sec.idMap = some range) : host.Clear name range.base := by
  intro other taken different takes
  have otherListed := covers other taken different takes
  obtain ⟨sec', held', -, isTaken⟩ := takes
  simp only [Host.refuseOverlappingRange, find_localContainerSecurity listed held,
    bind_some, own] at passes
  have notOther := any_eq_false.mp passes _ (mem_localContainerSecurity otherListed held')
  simp only [ne_eq, different, not_false_eq_true, decide_true, Bool.true_and] at notOther
  have apart := any_eq_false.mp (Bool.eq_false_iff.mpr notOther) _ isTaken
  simp only [Bool.not_eq_true, Bool.not_eq_false', Bool.or_eq_true, decide_eq_true_eq,
    range.sized] at apart
  exact apart.symm

/-- A start keeps ranges apart when those of the container are clear if it was not live. -/
theorem spaced_run (spaced : host.Spaced)
    (clear : ∀ sec, host.disk name = some sec → sec.converting = false → ¬ sec.Live →
      ∀ base ∈ takenBases sec, host.Clear name base)
    (runs : host.run name = some next) : next.Spaced := by
  unfold Host.run at runs
  split at runs
  · rename_i sec held
    split at runs
    · cases runs
    · rename_i finished
      obtain rfl := Option.some.inj runs
      refine spaced_place spaced fun _ base taken => ?_
      by_cases live : sec.Live
      · exact spaced name base ⟨sec, held, live, taken⟩
      · exact clear sec held (Bool.eq_false_iff.mpr finished) live base taken
  · cases runs

theorem spaced_start (accounted : Accounted host (.start name names)) (spaced : host.Spaced)
    (started : step host (.start name names) = some next) : next.Spaced := by
  simp only [step] at started
  split at started
  · cases started
  rename_i passes
  refine spaced_run spaced (fun sec held finished dormant base taken => ?_) started
  rw [takenBases, finished] at taken
  obtain ⟨range, own, rfl⟩ : ∃ range, sec.idMap = some range ∧ range.base = base := by
    simpa using taken
  obtain ⟨listed, covers⟩ := accounted sec held dormant (own ▸ rfl)
  exact clear_of_passes listed covers (Bool.eq_false_iff.mpr passes) held own

/-- A convert leaves the ranges that the container took, or moves it to a fresh one. -/
theorem spaced_convert {finishes : Bool} (accounted : Accounted host (.convert name read finishes))
    (spaced : host.Spaced) (converted : step host (.convert name read finishes) = some next) :
    next.Spaced := by
  simp only [step] at converted
  split at converted
  swap
  · cases converted
  rename_i sec held
  split at converted
  · cases converted
  rename_i stopped
  have same : ∀ {idMap}, (idle idMap sec.restartPolicy sec.staysDown).Live → sec.Live :=
    fun live => .inr (live_idle.mp live)
  split at converted
  · rename_i target recorded
    cases converted
    obtain ⟨converting, recorded⟩ := ite_none_right_eq_some.mp recorded
    refine spaced_place spaced fun live base taken => spaced name base ⟨sec, held, same live, ?_⟩
    rw [takenBases_idle, map_some, toList_some, mem_singleton] at taken
    simp [takenBases, converting, recorded, taken]
  · rename_i unrecorded
    obtain ⟨⟨fresh, between⟩, allocated, rfl⟩ := map_eq_some_iff.mp converted
    have none : sec.converting = true → sec.convertTo = none := fun converting => by
      simpa [converting] using unrecorded
    refine spaced_allocated spaced allocated fun live base taken => ?_
    cases finishes with
    | true =>
      rw [if_pos rfl, takenBases_idle, map_some, toList_some, mem_singleton] at taken
      exact taken ▸ clear_of_allocated (accounted sec held (same live) none) allocated
    | false =>
      rw [if_neg Bool.false_ne_true] at live taken
      have live : sec.Live := live
      simp only [takenBases, if_true, map_some, toList_some, mem_append, mem_singleton] at taken
      rcases taken with before | rfl
      · exact spaced name base ⟨sec, held, live, by simp [takenBases, before]⟩
      · exact clear_of_allocated (accounted sec held live none) allocated

theorem spaced_restore {restartPolicy staysDown : Bool}
    (accounted : Accounted host (.restore name base restartPolicy staysDown read))
    (spaced : host.Spaced)
    (restored : step host (.restore name base restartPolicy staysDown read) = some next) :
    next.Spaced := by
  simp only [step] at restored
  split at restored
  · cases restored
  split at restored
  · cases restored
    refine spaced_place spaced fun _ base taken => ?_
    simp [takenBases_idle] at taken
  rename_i unprivileged
  split at restored
  · rename_i taken
    obtain ⟨⟨fresh, between⟩, allocated, rfl⟩ := map_eq_some_iff.mp restored
    refine spaced_allocated spaced allocated fun live base isFresh => ?_
    obtain ⟨policy, up⟩ := live_idle.mp live
    rw [takenBases_idle, map_some, toList_some, mem_singleton] at isFresh
    exact isFresh ▸ clear_of_allocated ((accounted policy up unprivileged).2 taken) allocated
  · rename_i free
    cases restored
    refine spaced_place spaced fun live base' own => ?_
    obtain ⟨policy, up⟩ := live_idle.mp live
    rw [takenBases_idle, map_some, toList_some, mem_singleton] at own
    exact own ▸ clear_of_not_rangeTaken (accounted policy up unprivileged).1
      (Bool.eq_false_iff.mpr free)

theorem spaced_step {event : Event} (accounted : Accounted host event)
    (stepped : step host event = some next) (spaced : host.Spaced) : next.Spaced := by
  -- the checker leaves a container alone that was created or cloned and never started
  have created {idMap restartPolicy} : ¬ (idle idMap restartPolicy true).Live := by
    simp [live_idle]
  cases event with
  | create name privileged restartPolicy read =>
    simp only [step] at stepped
    split at stepped
    · cases stepped
    split at stepped
    · cases stepped
      exact spaced_place spaced fun live => absurd live created
    · obtain ⟨_, allocated, rfl⟩ := map_eq_some_iff.mp stepped
      exact spaced_allocated spaced allocated fun live => absurd live created
  | clone source target recorded read =>
    simp only [step] at stepped
    split at stepped
    · split at stepped
      · cases stepped
        exact spaced_place spaced fun live => absurd live created
      · obtain ⟨_, allocated, rfl⟩ := map_eq_some_iff.mp stepped
        exact spaced_allocated spaced allocated fun live => absurd live created
    · cases stepped
  | convert name read finishes => exact spaced_convert accounted spaced stepped
  | restore name base restartPolicy staysDown read => exact spaced_restore accounted spaced stepped
  | arrive name base restartPolicy staysDown =>
    simp only [step] at stepped
    split at stepped
    · cases stepped
    · cases stepped
      refine spaced_place spaced fun live taken own => ?_
      obtain ⟨policy, up⟩ := live_idle.mp live
      refine accounted policy up taken ?_
      simpa [takenBases_idle, IDMap.ofBase] using own
  | configure base ranges =>
    cases stepped
    exact spaced
  | stop name operator =>
    obtain ⟨sec, held, rfl⟩ := map_eq_some_iff.mp stepped
    refine spaced_place spaced fun live base taken => spaced name base ⟨sec, held, .inr ?_, taken⟩
    simpa [Container.Live] using live.imp_right fun up => ⟨up.1, (Bool.or_eq_false_iff.mp up.2).1⟩
  | delete name =>
    cases stepped
    exact spaced_put spaced nofun
  | start name names => exact spaced_start accounted spaced stepped
  | restart name =>
    simp only [step] at stepped
    split at stepped
    · rename_i restarts
      refine spaced_run spaced (fun sec held _ dormant => absurd (Or.inr ?_) dormant) stepped
      simpa [held] using restarts
    · cases stepped

/-- A host with four ranges and nothing on its disk. -/
def newHost : Host := ⟨"h", 0, 0, 4, [], fun _ => none⟩

/-- The new host with a ledger and the containers, the last change first. -/
def hostAfter (ledger : List IdmapLedgerEntry) : List (String × Container) → Host
  | [] => { newHost with ledger }
  | (name, sec) :: changes => (hostAfter ledger changes).place name sec

theorem mem_of_disk_hostAfter {ledger : List IdmapLedgerEntry}
    {changes : List (String × Container)} {name : String} {sec : Container}
    (held : (hostAfter ledger changes).disk name = some sec) : (name, sec) ∈ changes := by
  induction changes with
  | nil => cases held
  | cons change changes ih =>
    by_cases same : name = change.1
    · simp only [hostAfter, Host.place, Host.put, same, Function.update_self,
        Option.some.injEq] at held
      rw [same, ← held]
      exact mem_cons_self
    · simp only [hostAfter, Host.place, Host.put, ne_eq, same, not_false_eq_true,
        Function.update_of_ne] at held
      exact mem_cons_of_mem _ (ih held)

/-- A container in the range at the base, with its restart policy. -/
def ranged (base : Int) (running restartPolicy staysDown : Bool) : Container :=
  ⟨some (.ofBase base), false, none, running, restartPolicy, staysDown⟩

/-- `web`, which has a restart policy, goes down; `old` arrives with its range, is converted and
started; `db` is restored with that range too and gets another. -/
def changesOfThree : List (String × Container) :=
  [("db", ranged 1000131072 false true false), ("old", ranged 1000065536 true false false),
    ("old", ranged 1000065536 false false false), ("old", ranged 1000000000 false false false),
    ("web", ranged 1000000000 false true false), ("web", ranged 1000000000 true true false),
    ("web", ranged 1000000000 false true true)]

def ledgerOfThree : List IdmapLedgerEntry :=
  [⟨1000000000, "web", 0⟩, ⟨1000065536, "old", 1⟩, ⟨1000131072, "db", 2⟩]

/-- A condition on the ranges that are taken, over the changes that made the disk. -/
theorem forall_takes_hostAfter {ledger : List IdmapLedgerEntry}
    {changes : List (String × Container)} {name : String} {ok : String → Int → Prop}
    (each : ∀ change ∈ changes, change.1 ≠ name → ∀ taken ∈ takenBases change.2,
      ok change.1 taken) (other : String) (taken : Int) (different : other ≠ name)
    (takes : (hostAfter ledger changes).Takes other taken) : ok other taken := by
  obtain ⟨sec, held, -, isTaken⟩ := takes
  exact each _ (mem_of_disk_hostAfter held) different taken isTaken

/-- The policy restarts `db` and `web`. -/
def hostOfThree : Host :=
  hostAfter ledgerOfThree (("web", ranged 1000000000 true true false) ::
    ("db", ranged 1000131072 true true false) :: changesOfThree)

theorem run_of_three : Run step Accounted newHost hostOfThree := by
  have created : Run step Accounted newHost
      (hostAfter (ledgerOfThree.take 1) (changesOfThree.drop 6)) :=
    .tail (.refl _) (show Accounted newHost (.create "web" false true ⟨[], [], 0⟩) from trivial) rfl
  have started : Run step Accounted newHost
      (hostAfter (ledgerOfThree.take 1) (changesOfThree.drop 5)) :=
    created.tail (show Accounted _ (.start "web" ["web"]) from fun _ _ _ _ =>
      ⟨by decide, forall_takes_hostAfter (by decide)⟩) rfl
  have down : Run step Accounted newHost
      (hostAfter (ledgerOfThree.take 1) (changesOfThree.drop 4)) :=
    started.tail (show Accounted _ (.stop "web" false) from trivial) rfl
  have arrived : Run step Accounted newHost
      (hostAfter (ledgerOfThree.take 1) (changesOfThree.drop 3)) :=
    down.tail (show Accounted _ (.arrive "old" (some 1000000000) false false) from nofun) rfl
  have converted : Run step Accounted newHost
      (hostAfter (ledgerOfThree.take 2) (changesOfThree.drop 2)) := by
    refine arrived.tail (show Accounted _ (.convert "old" ⟨[], ["web"], 1⟩ true) from ?_) rfl
    intro sec held live
    cases held
    exact absurd live (by simp [Container.Live, ranged])
  have second : Run step Accounted newHost
      (hostAfter (ledgerOfThree.take 2) (changesOfThree.drop 1)) :=
    converted.tail (show Accounted _ (.start "old" ["web", "old"]) from fun _ _ _ _ =>
      ⟨by decide, forall_takes_hostAfter (by decide)⟩) rfl
  have restored : Run step Accounted newHost (hostAfter ledgerOfThree changesOfThree) :=
    second.tail
      (show Accounted _ (.restore "db" 1000000000 true false ⟨[], ["web", "old"], 2⟩) from
        fun _ _ _ => ⟨forall_takes_hostAfter (by decide), fun _ =>
          forall_takes_hostAfter (by decide)⟩) rfl
  have restarted := restored.tail (show Accounted _ (.restart "db") from trivial) rfl
  exact restarted.tail (show Accounted _ (.restart "web") from trivial) rfl

end Litevirt.Containers

import Litevirt.Sync.Cell

/-!
# Resolving clock ties

`internal/corrosion/resolver.go`: two rows of one key with equal clocks are settled by
the table's chain of rules.  A rule passes, keeps one of the rows, or leaves the tie
unresolved, and the first rule that does not pass decides.
-/

namespace Litevirt.Sync

open Litevirt.Lib Litevirt.Hlc

/-- The tie categories that the chains use. -/
inductive TieCategory where
  | runtimeOwned
  | tenancy
  | controlPlane
  | policy
  | opaqueBlob
  | authFactor
  | authPointer
  | lbToken
  | uncategorized
  deriving DecidableEq, Repr

/-- The metric label of the deciding rule. -/
inductive ResolverLabel where
  | tombstone
  | numericMax
  | timestampMax
  | nonNullWins
  | lbGeneration
  | contentMax
  deriving DecidableEq, Repr

inductive TieDecision where
  | pass
  | keepLocal (resolver : ResolverLabel)
  | takeIncoming (resolver : ResolverLabel)
  | unresolved (category : TieCategory)
  deriving DecidableEq, Repr

/-- `rowView`: two rows aligned to the columns of a dump. -/
structure RowView where
  cols : List Column
  localRow : List Cell
  incomingRow : List Cell

namespace RowView

/-- `colIdx`: of equal names the last one counts. -/
def colIdx (cols : List Column) (col : Column) : Option Nat :=
  (cols.zipIdx.reverse.find? fun entry => entry.1 == col).map Prod.snd

def has (rv : RowView) (col : Column) : Bool := (colIdx rv.cols col).isSome

def cellStr [GoValues] (row : List Cell) (cols : List Column) (col : Column) : Bytes :=
  match colIdx cols col with
  | none => []
  | some i =>
    match row[i]? with
    | none => []
    | some cell => coerceString cell

def localStr [GoValues] (rv : RowView) (col : Column) : Bytes := cellStr rv.localRow rv.cols col

def incomingStr [GoValues] (rv : RowView) (col : Column) : Bytes :=
  cellStr rv.incomingRow rv.cols col

end RowView

inductive Rule where
  | tombstone
  | colUnresolved (col : Column) (category : TieCategory)
  | anyColUnresolved (cols : List Column) (category : TieCategory)
  | numericMax (col : Column)
  | timestampMax (col : Column)
  | nonNullWins (col : Column)
  | lbGeneration (col : Column)
  | contentMax
  | unresolved (category : TieCategory)
  deriving DecidableEq, Repr

def setWins (label : ResolverLabel) (l i : Bool) : TieDecision :=
  if l && !i then .keepLocal label
  else if !l && i then .takeIncoming label
  else .pass

def ruleTombstone [GoValues] (rv : RowView) : TieDecision :=
  if !rv.has (bytes "deleted_at") then .pass
  else setWins .tombstone (rv.localStr (bytes "deleted_at") ≠ [])
    (rv.incomingStr (bytes "deleted_at") ≠ [])

def ruleColUnresolved [GoValues] (col : Column) (category : TieCategory) (rv : RowView) :
    TieDecision :=
  if !rv.has col then .pass
  else if rv.localStr col ≠ rv.incomingStr col then .unresolved category
  else .pass

def ruleAnyColUnresolved [GoValues] (cols : List Column) (category : TieCategory)
    (rv : RowView) : TieDecision :=
  if cols.any fun col => rv.has col && decide (rv.localStr col ≠ rv.incomingStr col) then
    .unresolved category
  else .pass

def ruleNumericMax [GoValues] (col : Column) (rv : RowView) : TieDecision :=
  if !rv.has col then .pass
  else
    match parseInt 64 (trimSpace (rv.localStr col)), parseInt 64 (trimSpace (rv.incomingStr col))
      with
    | some l, some i =>
      if l = i then .pass
      else if i < l then .keepLocal .numericMax
      else .takeIncoming .numericMax
    | _, _ => .pass

def parseInstant [GoLayout] (s : Bytes) : Option Int := if s = [] then none else timeParse s

def ruleTimestampMax [GoLayout] [GoValues] (col : Column) (rv : RowView) : TieDecision :=
  if !rv.has col then .pass
  else if rv.localStr col = rv.incomingStr col then .pass
  else
    match parseInstant (rv.localStr col), parseInstant (rv.incomingStr col) with
    | some _, none => .keepLocal .timestampMax
    | none, some _ => .takeIncoming .timestampMax
    | none, none => .pass
    | some lt, some it =>
      if lt = it then .pass
      else if it < lt then .keepLocal .timestampMax
      else .takeIncoming .timestampMax

def ruleNonNullWins [GoValues] (col : Column) (rv : RowView) : TieDecision :=
  if !rv.has col then .pass
  else setWins .nonNullWins (rv.localStr col ≠ []) (rv.incomingStr col ≠ [])

def ruleLBGeneration [GoValues] (col : Column) (rv : RowView) : TieDecision :=
  if !rv.has col then .pass
  else if rv.localStr col = rv.incomingStr col then .pass
  else if rv.localStr col ≠ [] ∧ rv.incomingStr col = [] then .keepLocal .lbGeneration
  else if rv.localStr col = [] ∧ rv.incomingStr col ≠ [] then .takeIncoming .lbGeneration
  else .unresolved .lbToken

def ruleContentMax [GoValues] (rv : RowView) : TieDecision :=
  match encodeRowCellsV2 rv.cols rv.localRow, encodeRowCellsV2 rv.cols rv.incomingRow with
  | some a, some b =>
    if byteValues a < byteValues b then .takeIncoming .contentMax else .keepLocal .contentMax
  | _, _ => .unresolved .uncategorized

def Rule.apply [GoLayout] [GoValues] : Rule → RowView → TieDecision
  | .tombstone, rv => ruleTombstone rv
  | .colUnresolved col category, rv => ruleColUnresolved col category rv
  | .anyColUnresolved cols category, rv => ruleAnyColUnresolved cols category rv
  | .numericMax col, rv => ruleNumericMax col rv
  | .timestampMax col, rv => ruleTimestampMax col rv
  | .nonNullWins col, rv => ruleNonNullWins col rv
  | .lbGeneration col, rv => ruleLBGeneration col rv
  | .contentMax, rv => ruleContentMax rv
  | .unresolved category, _ => .unresolved category

def contentDefaultChain : List Rule := [.tombstone, .contentMax]

def contentOpaqueChain (opaqueCols : List Column) : List Rule :=
  .tombstone ::
    ((if opaqueCols = [] then [] else [.anyColUnresolved opaqueCols .opaqueBlob]) ++ [.contentMax])

def tenancyOpaqueChain (projectCol : Column) (opaqueCols : List Column) : List Rule :=
  .colUnresolved projectCol .tenancy :: contentOpaqueChain opaqueCols

def policyChain : List Rule := [.tombstone, .unresolved .policy]

def authPointerChain (pointerCol : Column) : List Rule :=
  [.tombstone, .colUnresolved pointerCol .authPointer, .contentMax]

def lbChain : List Rule := [.tombstone, .lbGeneration (bytes "generation"), .contentMax]

def vmsChain : List Rule := [
  .colUnresolved (bytes "host_name") .runtimeOwned,
  .colUnresolved (bytes "project") .tenancy,
  .colUnresolved (bytes "pending_action_id") .runtimeOwned,
  .numericMax (bytes "vm_owner_epoch"),
  .numericMax (bytes "spec_generation"),
  .colUnresolved (bytes "active_operation_id") .runtimeOwned,
  .tombstone,
  .anyColUnresolved [bytes "spec"] .opaqueBlob,
  .contentMax]

def containersChain : List Rule := [
  .colUnresolved (bytes "project") .tenancy,
  .numericMax (bytes "owner_epoch"),
  .numericMax (bytes "spec_generation"),
  .colUnresolved (bytes "active_operation_id") .runtimeOwned,
  .tombstone,
  .anyColUnresolved [bytes "create_spec"] .opaqueBlob,
  .contentMax]

def user2faChain : List Rule := [
  .tombstone,
  .numericMax (bytes "last_step"),
  .timestampMax (bytes "last_used_at"),
  .unresolved .authFactor]

/-- `capabilityMap`: the chain of every repaired table. -/
def capabilityMap : List (String × List Rule) := [
  ("vms", vmsChain),
  ("containers", containersChain),
  ("networks", tenancyOpaqueChain (bytes "project") [bytes "config"]),
  ("storage_pools", tenancyOpaqueChain (bytes "project") []),
  ("volumes", tenancyOpaqueChain (bytes "project") [bytes "config"]),
  ("backup_schedules", tenancyOpaqueChain (bytes "project_name") []),
  ("user_2fa", user2faChain),
  ("recovery_codes", [
    .tombstone,
    .nonNullWins (bytes "used_at"),
    .unresolved .authFactor]),
  ("user_2fa_sets", authPointerChain (bytes "active_epoch")),
  ("recovery_code_sets", authPointerChain (bytes "active_set_id")),
  ("lb_configs", lbChain),
  ("lb_backends", lbChain),
  ("hosts", [
    .tombstone,
    .anyColUnresolved [bytes "state", bytes "address", bytes "ssh_user", bytes "ssh_port",
      bytes "grpc_port", bytes "cert_serial", bytes "ipmi_address", bytes "ipmi_user",
      bytes "ipmi_pass", bytes "watchdog_dev", bytes "fence_strategy", bytes "role",
      bytes "schema_version", bytes "capacity_policy_hash"] .controlPlane,
    .contentMax]),
  ("host_membership", [
    .tombstone,
    .anyColUnresolved [bytes "state", bytes "isolation_epoch", bytes "isolation_reason"]
      .controlPlane,
    .contentMax]),
  ("stacks", contentOpaqueChain [bytes "spec", bytes "compose_yaml"]),
  ("vm_pci_intent", contentOpaqueChain [bytes "selector_payload"])] ++
  ["roles", "role_bindings", "users", "tokens", "projects", "project_quotas", "security_groups",
    "sg_rules", "ip_sets", "cluster_firewall_rules", "host_firewall_rules", "firewall_defaults",
    "registry_credentials", "notification_targets", "notification_routes", "cluster_policies",
    "host_fence_credentials", "user_credentials", "token_credentials"].map (·, policyChain) ++
  ["cluster", "host_labels", "host_health", "health_conditions", "health_evaluator_status",
    "host_capacity_observations", "host_networks", "images", "image_hosts", "vm_interfaces",
    "vm_disks", "vm_nics", "vm_pci_realizations", "snapshots", "dns_records", "fencing_log",
    "audit_log", "network_vteps", "bgp_peers", "ip_allocations", "container_interfaces",
    "host_pci_devices", "resource_mappings", "service_endpoints", "backup_repos",
    "quota_reservations", "replication_checkpoints", "vm_backups", "container_backups",
    "container_snapshots", "audit_signing_keys", "audit_chain_heads", "audit_key_lifecycle",
    "cluster_crl", "netbox_bindings", "netbox_objects", "netbox_host_config"].map
      (·, contentDefaultChain)

/-- The tracker and metric consequence of a tie, which runs after the commit. -/
inductive TieEffect where
  | trackUnresolved (category : TieCategory)
  | tombstoneTie
  | tieBreak (resolver : ResolverLabel) (keepLocal : Bool)
  deriving DecidableEq, Repr

structure Resolution where
  keepLocal : Bool
  isUnresolved : Bool
  effect : Option TieEffect
  deriving DecidableEq, Repr

/-- The loop of `resolveTie` over the chain. -/
def resolveChain [GoLayout] [GoValues] (rv : RowView) : List Rule → Resolution
  | [] => ⟨true, true, none⟩
  | rule :: rest =>
    match rule.apply rv with
    | .pass => resolveChain rv rest
    | .unresolved category => ⟨true, true, some (.trackUnresolved category)⟩
    | .keepLocal .tombstone => ⟨true, false, some .tombstoneTie⟩
    | .takeIncoming .tombstone => ⟨false, false, some .tombstoneTie⟩
    | .keepLocal label => ⟨true, false, some (.tieBreak label true)⟩
    | .takeIncoming label => ⟨false, false, some (.tieBreak label false)⟩

def sameImage [GoValues] (cols : List Column) (localRow incomingRow : List Cell) : Bool :=
  match encodeRowCellsV2 cols localRow, encodeRowCellsV2 cols incomingRow with
  | some a, some b => a == b
  | _, _ => false

def resolveTie [GoLayout] [GoValues] (table : String) (cols : List Column)
    (localRow incomingRow : List Cell) : Resolution :=
  if sameImage cols localRow incomingRow then ⟨true, false, none⟩
  else
    match capabilityMap.lookup table with
    | none => ⟨true, true, some (.trackUnresolved .uncategorized)⟩
    | some rules => resolveChain ⟨cols, localRow, incomingRow⟩ rules

end Litevirt.Sync

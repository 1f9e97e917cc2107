import Litevirt.Sync.Merge

/-!
# Natural-key identity

`internal/corrosion/identity.go` and `mergeIdentityRow` of `sync.go`: tables whose rows carry a
minted id and a unique natural key.  An incoming row is resolved against the local row of its key
by clock, content and id; a losing id is collapsed into the winning one.
-/

namespace Litevirt.Sync

open Litevirt.Lib Litevirt.Hlc

/-- The name of the column that holds the minted id of a row. -/
def idColumn : Column := bytes "id"

/-- `tableIdentityKeys`: the columns of a table's natural key. -/
def tableIdentityKeys : String → Option (List Column)
  | "snapshots" => some [bytes "vm_name", bytes "name"]
  | "container_snapshots" => some [bytes "host_name", bytes "ct_name", bytes "name"]
  | _ => none

/-- `identityReferenceColumns`: the columns that refer to the table's own ids. -/
def identityReferenceColumns : String → List Column
  | "snapshots" => [bytes "parent_id"]
  | _ => []

/-- A table that is resolved by its natural key. -/
structure IdentityTable extends Schema where
  natCols : List Column
  registered : tableIdentityKeys name = some natCols
  minted : pkCols = [idColumn]
  complete : toSchema.accepts columns = true
  natCols_known : ∀ col ∈ natCols, col ∈ columns
  references_known : ∀ col ∈ identityReferenceColumns name, col ∈ columns
  store_id : ∀ s, store idColumn (.text s) = .text s

/-- The rows of a table and the natural keys of its tracked faults. -/
structure IdentityNode where
  rows : List Row
  unresolved : List RowKey

/-- What a merge depends on besides the table and the row. -/
structure IdentityEnv where
  skewGuard : Option Int
  rejects : List Row → List Cell → Bool

inductive IdentityDisposition where
  | applyNew
  | keepLocal
  | adoptSameID
  | collapse
  | contentFault
  | alreadyConverged
  deriving DecidableEq, Repr

def resolveIdentity [GoLayout] (localExists : Bool) (localTS localID incomingTS incomingID : Bytes)
    (contentEqual : Bool) : IdentityDisposition :=
  if !localExists then .applyNew
  else
    match lwwOrder localTS incomingTS with
    | .gt => .keepLocal
    | .lt => if localID = incomingID then .adoptSameID else .collapse
    | .eq =>
      if !contentEqual then .contentFault
      else if incomingID = localID then .alreadyConverged
      else if byteValues incomingID < byteValues localID then .collapse
      else .keepLocal

section Merge

variable [GoValues]

/-- `identityCellEqual`: NULL equals only NULL. -/
def identityCellEqual (a b : Cell) : Bool :=
  if a = .null ∨ b = .null then decide (a = .null ∧ b = .null)
  else decide (coerceString a = coerceString b)

/-- The cell of a column in the image that `identityContentEquivalent` builds of a row;
a later column of the same name replaces an earlier one. -/
def imageOf (cols : List Column) (vals : List Cell) (col : Column) : Option Cell :=
  ((cols.map toLower).zip vals).reverse.lookup (toLower col)

/-- `identityContentEquivalent`: every local column but the id is in the incoming row, with
an equal cell. -/
def identityContentEquivalent (localCols : List Column) (localRow : Row)
    (incomingCols : List Column) (incomingVals : List Cell) : Bool :=
  localCols.all fun col =>
    toLower col == idColumn ||
      (imageOf incomingCols incomingVals col).any (identityCellEqual (localRow col))

def rowById (rows : List Row) (id : Bytes) : Option Row :=
  rows.find? fun row => decide (row idColumn = .text id)

/-- `identityIDForeignNaturalKey`: the id is bound to another natural key. -/
def identityIDForeignNaturalKey (table : IdentityTable) (rows : List Row) (incomingID : Bytes)
    (cols : List Column) (cells : List Cell) : Bool :=
  (rowById rows incomingID).any fun row =>
    table.natCols.any fun col => coerceString (row col) != coerceString (cellOf cols cells col)

/-- `identityHasChildReference`: some row refers to the id. -/
def identityHasChildReference (table : IdentityTable) (rows : List Row) (losingID : Bytes) : Bool :=
  (identityReferenceColumns table.name).any fun ref =>
    rows.any fun row => decide (row ref = .text losingID)

def sharesNaturalKey (table : IdentityTable) (cols : List Column) (cells : List Cell) (row : Row) :
    Bool :=
  table.natCols.all fun col =>
    decide (row col ≠ .null ∧ row col = table.store col (cellOf cols cells col))

def cellNonEmpty : Cell → Bool
  | .text s => !s.isEmpty
  | _ => false

/-- The natural key that a fault is tracked under, as `identityFaultPK` writes it. -/
def naturalKeyAt (table : IdentityTable) (cols : List Column) (cells : List Cell) : RowKey :=
  table.natCols.map fun col => coercePKString (cellOf cols cells col)

/-- `applyMergeRow` of an identity row: the upsert by its id. -/
def upsertById (table : IdentityTable) (cols : List Column) (cells : List Cell) (rows : List Row) :
    List Row :=
  let id := coerceString (cellOf cols cells idColumn)
  if (rowById rows id).isSome then
    rows.map fun row =>
      if row idColumn = .text id then table.upsert cols cells (some row) else row
  else rows ++ [table.upsert cols cells none]

/-- `identityCollapseUpdate`: the losing row takes every column of the incoming one. -/
def identityCollapseUpdate (table : IdentityTable) (cols : List Column) (cells : List Cell)
    (losingID : Bytes) (rows : List Row) : List Row :=
  rows.map fun row =>
    if row idColumn = .text losingID then
      fun col => if col ∈ cols then table.store col (cellOf cols cells col) else row col
    else row

/-- `trackIdentityFault`. -/
def IdentityNode.track (node : IdentityNode) (key : RowKey) : IdentityNode :=
  { node with unresolved := if key ∈ node.unresolved then node.unresolved
      else node.unresolved ++ [key] }

/-- `clearIdentityFault`. -/
def IdentityNode.clear (node : IdentityNode) (key : RowKey) : IdentityNode :=
  { node with unresolved := node.unresolved.filter (· ≠ key) }

/-- What `mergeIdentityRow` does about a disposition. -/
def applyDisposition (env : IdentityEnv) (table : IdentityTable) (cols : List Column)
    (node : IdentityNode) (cells : List Cell) (localID : Bytes) :
    IdentityDisposition → Except String (Bool × IdentityNode)
  | .contentFault => .ok (false, node.track (naturalKeyAt table cols cells))
  | .keepLocal => .ok (false, node)
  | .alreadyConverged => .ok (false, node.clear (naturalKeyAt table cols cells))
  | .applyNew | .adoptSameID =>
    if env.rejects node.rows cells then .ok (false, node)
    else
      .ok (true, { node with rows := upsertById table cols cells node.rows }.clear
        (naturalKeyAt table cols cells))
  | .collapse =>
    if identityHasChildReference table node.rows localID then
      .error ("identity collapse on " ++ table.name ++
        " would orphan a reference to the losing id")
    else if env.rejects node.rows cells then .ok (false, node)
    else
      .ok (true, { node with
        rows := identityCollapseUpdate table cols cells localID node.rows }.clear
          (naturalKeyAt table cols cells))

/-- `mergeIdentityRow`: whether the row landed, and the node after it.  An error rolls the
chunk back. -/
def mergeIdentityRow [GoLayout] (env : IdentityEnv) (table : IdentityTable) (cols : List Column)
    (node : IdentityNode) (cells : List Cell) : Except String (Bool × IdentityNode) :=
  let incomingID := coerceString (cellOf cols cells idColumn)
  let ts := incomingTS cols cells
  if (identityReferenceColumns table.name).head?.any fun ref =>
      cellNonEmpty (cellOf cols cells ref) then
    .error ("identity table " ++ table.name ++
      ": non-null reference under canonical_identity_v1 is unsupported")
  else if identityIDForeignNaturalKey table node.rows incomingID cols cells then
    .error ("identity table " ++ table.name ++
      ": incoming id already bound to a different natural key (corruption)")
  else
    let found := node.rows.find? (sharesNaturalKey table cols cells)
    let localTS := (found.map clockOf).getD []
    let localID := (found.map fun row => coerceString (row idColumn)).getD []
    if ts ≠ [] ∧ skewQuarantinesIncoming env.skewGuard localTS ts then .ok (false, node)
    else
      let contentEqual := (rowById node.rows localID).any fun row =>
        identityContentEquivalent table.columns (present row) cols cells
      applyDisposition env table cols node cells localID
        (resolveIdentity found.isSome localTS localID ts incomingID contentEqual)

end Merge

section Exchange

variable [GoLayout] [GoValues]

def dumpRow (table : IdentityTable) (row : Row) : List Cell := table.columns.map (present row)

def InGroup (table : IdentityTable) (nat : Column → Bytes) (row : Row) : Prop :=
  ∀ col ∈ table.natCols, row col = .text (nat col)

instance (table : IdentityTable) (nat : Column → Bytes) : DecidablePred (InGroup table nat) :=
  fun _ => inferInstanceAs (Decidable (∀ _ ∈ _, _))

def IdentityNode.group (node : IdentityNode) (table : IdentityTable) (nat : Column → Bytes) :
    List Row :=
  node.rows.filter fun row => decide (InGroup table nat row)

/-- Nodes, and the dumped rows of one natural key that are on their way. -/
structure IdentityCluster (ι : Type*) where
  node : ι → IdentityNode
  sent : List (List Cell)

inductive IdentityEvent (ι : Type*) where
  | dump (sender : ι)
  /-- A dumped row is merged, now or again. -/
  | merge (receiver : ι) (index : Nat)
  deriving DecidableEq

/-- One event; a merge that fails changes nothing. -/
def IdentityCluster.step {ι : Type*} [DecidableEq ι] (env : ι → IdentityEnv)
    (table : IdentityTable) (nat : Column → Bytes) (cluster : IdentityCluster ι) :
    IdentityEvent ι → Option (IdentityCluster ι)
  | .dump sender =>
    some { cluster with
      sent := cluster.sent ++ ((cluster.node sender).group table nat).map (dumpRow table) }
  | .merge receiver index =>
    (cluster.sent[index]?).map fun cells =>
      match mergeIdentityRow (env receiver) table table.columns (cluster.node receiver) cells with
      | .ok (_, next) => { cluster with node := Function.update cluster.node receiver next }
      | .error _ => cluster

/-- No exchange of rows of the natural key changes the rows of a node. -/
def IdentityCluster.Still {ι : Type*} (env : ι → IdentityEnv) (table : IdentityTable)
    (nat : Column → Bytes) (cluster : IdentityCluster ι) : Prop :=
  ∀ sender receiver, ∀ row ∈ (cluster.node sender).group table nat, ∀ landed next,
    mergeIdentityRow (env receiver) table table.columns (cluster.node receiver)
      (dumpRow table row) = .ok (landed, next) → next.rows = (cluster.node receiver).rows

end Exchange

end Litevirt.Sync

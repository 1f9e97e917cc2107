import Litevirt.Sync.MergeSpec

/-!
# Applying a replicated statement

`applyLWWGated` of `internal/corrosion/replicator.go`: a replicated INSERT or full-key UPDATE is
run unless the stored row is newer.  An INSERT runs as an upsert of the columns it names, an
UPDATE with the guards of its WHERE clause.  Names of columns are in lower case throughout.
-/

namespace Litevirt.Sync

open Litevirt.Lib Litevirt.Hlc

def deletedAt : Column := bytes "deleted_at"

def createdAt : Column := bytes "created_at"

def role : Column := bytes "role"

def username : Column := bytes "username"

/-- The right-hand side of an assignment in DO UPDATE SET: `excluded.c`, or an expression
over the stored row and the excluded one. -/
inductive Assigned where
  | excluded (col : Column)
  | other (value : Row → Row → Cell)

/-- `ON CONFLICT (primary key) DO ...`. -/
structure ConflictClause where
  doNothing : Bool
  assignments : List (Column × Assigned)
  guard : Option (Row → Row → Bool)

inductive LeadingAlgo where
  | none
  | orReplace
  | orIgnore
  deriving DecidableEq, Repr

/-- An INSERT of one row: the values of its columns, and which of them are bound
parameters. -/
structure InsertStatement where
  cols : List Column
  image : Row
  bound : Column → Bool
  leadingAlgo : LeadingAlgo
  onConflict : Option ConflictClause

def InsertStatement.vals (insert : InsertStatement) : List Cell := insert.cols.map insert.image

/-- An UPDATE of the row with the key it binds, in the form this node applies.  `run` is
the row after the statement, nothing when its WHERE clause does not match the row, or the
error of a constraint. -/
structure UpdateStatement where
  key : RowKey
  clock : Bytes
  setCols : List Column
  run : Stored → Row → Except String (Option Row)

inductive Statement where
  | insert (insert : InsertStatement)
  | update (update : UpdateStatement)

/-- `computeFullImage`: exactly the columns of the row besides its key are copied. -/
def computeFullImage (insertCols pkCols : List Column) (clause : ConflictClause) : Bool :=
  !clause.doNothing && clause.guard.isNone &&
    (clause.assignments.all fun a =>
      (match a.2 with
        | .excluded col => col == a.1
        | .other _ => false) && a.1 ∉ pkCols && a.1 ∈ insertCols) &&
    insertCols.all fun col => col ∈ pkCols || col ∈ clause.assignments.map Prod.fst

def conflictAdvancesUpdatedAt (clause : ConflictClause) : Bool :=
  match clause.assignments.lookup updatedAt with
  | some (.excluded col) => col == updatedAt
  | _ => false

section Upsert

variable (schema : Schema) (insert : InsertStatement)

def ConflictClause.onRow (clause : ConflictClause) (excluded row : Row) : Row :=
  if clause.doNothing then row
  else if clause.guard.all fun admits => admits row excluded then fun col =>
    match clause.assignments.lookup col with
    | none => row col
    | some (.excluded from_) => excluded from_
    | some (.other value) => value row excluded
  else row

/-- `insertUpsertRewrite`: what the rewritten statement leaves, given the row stored
under its key. -/
def insertUpsertRewrite : Except String (Option Row → Row) :=
  if !schema.pkCols.all (· ∈ insert.cols) then
    .error s!"INSERT into {schema.name} lacks a full bound primary key"
  else if !(updatedAt ∈ insert.cols && insert.bound updatedAt) then
    .error s!"INSERT into {schema.name} omits a bound updated_at (LWW clock would not advance)"
  else
    match insert.onConflict with
    | none => .ok (schema.upsert insert.cols insert.vals)
    | some clause =>
      if conflictAdvancesUpdatedAt clause then
        .ok fun stored =>
          let inserted := schema.upsert insert.cols insert.vals none
          match stored with
          | none => inserted
          | some row => clause.onRow inserted row
      else
        .error (s!"explicit upsert into {schema.name} does not advance updated_at " ++
          "(need updated_at = excluded.updated_at)")

/-- `replacedObservationApply`: an observation that replaces its row on the observer also
clears the tombstone here. -/
def replacedObservationApply (upsert : Option Row → Row) : Option Row → Row :=
  if schema.name = "host_health" ∧ insert.onConflict.isNone ∧
      insert.leadingAlgo = .orReplace ∧ (∃ col ∈ insert.cols, col ∉ schema.pkCols) ∧
      deletedAt ∉ insert.cols then
    fun stored =>
      match stored with
      | none => upsert none
      | some row => fun col => if col = deletedAt then .null else upsert (some row) col
  else upsert

end Upsert

section Gate

variable [GoLayout] [GoValues]

def adminRemintRefused (localRole localDeletedAt localCreatedAt incomingCreatedAt : Bytes) : Bool :=
  if localRole ≠ bytes "admin" then false
  else if localDeletedAt ≠ [] then false
  else if localCreatedAt = [] ∨ incomingCreatedAt = [] then false
  else incomingCreatedAt ≠ localCreatedAt

/-- `insertParamString`: the text that a column is bound to. -/
def insertParamString (insert : InsertStatement) (col : Column) : Option Bytes :=
  if col ∈ insert.cols ∧ insert.bound col then
    match insert.image col with
    | .text s => some s
    | _ => none
  else none

def usersInsertRemintsALiveAdmin (insert : InsertStatement) (stored : Option Row) : Bool :=
  match insertParamString insert createdAt, insertParamString insert username, stored with
  | some incomingCreatedAt, some _, some row =>
    adminRemintRefused (coerceString (row role)) (coerceString (row deletedAt))
      (coerceString (row createdAt)) incomingCreatedAt
  | _, _, _ => false

/-- `hostsTombstoneRefuses`: only a write that sets `deleted_at` reaches a tombstone. -/
def hostsTombstoneRefuses (cols : List Column) (stored : Option Row) : Bool :=
  if deletedAt ∈ cols then false
  else
    match stored with
    | none => false
    | some row => coerceString (row deletedAt) ≠ []

/-- `shouldSkipLWW` of a statement with the clock `ts`; the image is there when the
statement carries the full row. -/
def shouldSkipLWW (skewGuard : Option Int) (table : String) (stored : Option Row) (ts : Bytes)
    (image : Option (List Column × List Cell)) : Bool :=
  let localTS := (stored.map clockOf).getD []
  if skewQuarantinesIncoming skewGuard localTS ts then true
  else
    match stored with
    | none => false
    | some row =>
      if localTS = [] then false
      else
        match lwwOrder localTS ts with
        | .gt => true
        | .lt => false
        | .eq =>
          match capabilityMap.lookup table, image with
          | some _, some (cols, vals) =>
            (resolveTie table cols (cols.map (present row)) vals).keepLocal
          | _, _ => true

/-- What a replicated statement is applied under. -/
structure GateNode where
  skewGuard : Option Int
  rejects : Stored → List Cell → Bool
  incomingHLC : Bytes

/-- The clock a statement binds, or the entry's timestamp when it binds none. -/
def GateNode.clockOr (node : GateNode) (bound : Bytes) : Bytes :=
  if bound ≠ [] then bound else node.incomingHLC

def InsertStatement.fullImage (insert : InsertStatement) (schema : Schema) :
    Option (List Column × List Cell) :=
  match insert.onConflict with
  | none => some (insert.cols, insert.vals)
  | some clause =>
    if computeFullImage insert.cols schema.pkCols clause then some (insert.cols, insert.vals)
    else none

def InsertStatement.boundClock (insert : InsertStatement) : Bytes :=
  if updatedAt ∈ insert.cols ∧ insert.bound updatedAt then coerceString (insert.image updatedAt)
  else []

/-- `applyLWWGated`; an error rolls the batch back. -/
def applyLWWGated (node : GateNode) (schema : Schema) (stored : Stored) :
    Statement → Except String Stored
  | .insert insert =>
    let key := pkKeyAt schema insert.cols insert.vals
    let row := stored.find key
    if schema.name = "users" ∧ usersInsertRemintsALiveAdmin insert row then .ok stored
    else if schema.name = "hosts" ∧ hostsTombstoneRefuses insert.cols row then .ok stored
    else if shouldSkipLWW node.skewGuard schema.name row (node.clockOr insert.boundClock)
        (insert.fullImage schema) then .ok stored
    else
      match insertUpsertRewrite schema insert with
      | .error text => .error text
      | .ok upsert =>
        if node.rejects stored insert.vals then .error "constraint failed"
        else .ok (stored.put key (replacedObservationApply schema insert upsert row))
  | .update update =>
    let row := stored.find update.key
    if schema.name = "hosts" ∧ hostsTombstoneRefuses update.setCols row then .ok stored
    else if shouldSkipLWW node.skewGuard schema.name row (node.clockOr update.clock) none then
      .ok stored
    else
      match row with
      | none => .ok stored
      | some found =>
        match update.run stored found with
        | .error text => .error text
        | .ok none => .ok stored
        | .ok (some written) => .ok (stored.put update.key written)

def Statement.key (schema : Schema) : Statement → RowKey
  | .insert row => pkKeyAt schema row.cols row.vals
  | .update change => change.key

theorem find_applyLWWGated {node : GateNode} {schema : Schema} {stored written : Stored}
    {statement : Statement} {key : RowKey}
    (applied : applyLWWGated node schema stored statement = .ok written)
    (other : key ≠ statement.key schema) : written.find key = stored.find key := by
  unfold applyLWWGated at applied
  dsimp only at applied
  repeat' split at applied
  all_goals cases applied
  -- a branch keeps the table or writes the row of the statement
  all_goals first | rfl | exact Table.find_put_of_ne _ _ other

end Gate

end Litevirt.Sync

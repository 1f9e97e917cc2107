import Litevirt.Hlc.Clock
import Litevirt.Lib.Batches
import Litevirt.Sync.Ratchet

/-!
# Merging a dump

`mergeTable` and `mergeChunk` of `internal/corrosion/sync.go`: the rows of a peer's dump
are applied in chunks, each a transaction.  A chunk reads the clocks of its keys once, at
its start, and compares every row with them.  Once identities are canonical, `snapshots` and
`container_snapshots` take the path of `mergeIdentityRow` instead, by their natural keys.
-/

namespace Litevirt.Sync

open Litevirt.Lib Litevirt.Hlc

/-- The name of the column that holds the clock of a row. -/
def updatedAt : Column := bytes "updated_at"

/-- A replicated table with row clocks. -/
structure Schema where
  name : String
  columns : List Column
  pkCols : List Column
  defaults : Row
  /-- What a column holds after a value is written to it. -/
  store : Column → Cell → Cell
  keyed : pkCols ≠ []
  key_known : ∀ col ∈ pkCols, col ∈ columns
  clocked : updatedAt ∈ columns
  clock_free : updatedAt ∉ pkCols
  store_clock : ∀ s, store updatedAt (.text s) = .text s

theorem verbatim_clock (s : Bytes) :
    (fun _ cell => cell : Column → Cell → Cell) updatedAt (.text s) = .text s := rfl

abbrev RowKey := List Bytes

abbrev Stored := Table RowKey Row

def cellOf (cols : List Column) (cells : List Cell) (col : Column) : Cell :=
  ((cols.zip cells).lookup col).getD .null

def coercePKString [GoValues] : Cell → Bytes
  | .float (.whole n) => if n.natAbs < 2 ^ 53 then formatInt n else coerceString (.float (.whole n))
  | cell => coerceString cell

/-- `pkKeyAt`: the primary key of a row. -/
def pkKeyAt [GoValues] (schema : Schema) (cols : List Column) (cells : List Cell) : RowKey :=
  schema.pkCols.map fun col => coercePKString (cellOf cols cells col)

/-- `buildMergeUpsertSQL`: the columns of the row, and only those, are written. -/
def Schema.upsert (schema : Schema) (cols : List Column) (cells : List Cell) : Option Row → Row
  | none => fun col =>
    if col ∈ cols then schema.store col (cellOf cols cells col) else schema.defaults col
  | some row => fun col =>
    if col ∈ cols ∧ col ∉ schema.pkCols then schema.store col (cellOf cols cells col) else row col

/-- The clock of a stored row as `prefetchUpdatedAt` reads it. -/
def clockOf [GoValues] (row : Row) : Bytes := coerceString (row updatedAt)

/-- The clock of a row of a dump, empty when it is not a text. -/
def incomingTS (cols : List Column) (cells : List Cell) : Bytes :=
  match cellOf cols cells updatedAt with
  | .text s => s
  | _ => []

/-- `skewCutoff`, in nanoseconds. -/
def skewCutoff : Int := maxSkewMS.toInt * 1000000

def tsFutureSkewed [GoLayout] (ts : Bytes) (now : Int) : Bool :=
  match tsInstant ts with
  | none => false
  | some inst => decide (now + skewCutoff < inst)

/-- `skewQuarantinesIncoming`, with the present time when the guard is on. -/
def skewQuarantinesIncoming [GoLayout] (guard : Option Int) (localTS incomingTS : Bytes) : Bool :=
  match guard with
  | none => false
  | some now => tsFutureSkewed incomingTS now && !tsFutureSkewed localTS now

/-- What a merge depends on besides the table and the dump. -/
structure MergeNode where
  skewGuard : Option Int
  /-- The authority of the payload or a floor of the table keeps the local row. -/
  refuses : Option Row → List Cell → Bool
  rejects : Stored → List Cell → Bool

structure SyncTable where
  columns : List Column
  rows : List (List Cell)

section Merge

variable [GoLayout] [GoValues]

/-- What `mergeChunk` writes for a row, given the row stored under its key at the start
of the chunk and the one stored now. -/
def mergeRow (node : MergeNode) (schema : Schema) (cols : List Column) (seen stored : Option Row)
    (cells : List Cell) : Option Row :=
  let ts := incomingTS cols cells
  if cells.length ≠ cols.length then none
  else if node.refuses stored cells then none
  else if ts ≠ [] ∧ skewQuarantinesIncoming node.skewGuard ((seen.map clockOf).getD []) ts then none
  else if ts = [] then some (schema.upsert cols cells stored)
  else
    match seen with
    | none => some (schema.upsert cols cells stored)
    | some snapshot =>
      match lwwOrder (clockOf snapshot) ts with
      | .gt => none
      | .lt => some (schema.upsert cols cells stored)
      | .eq =>
        match stored with
        | none => some (schema.upsert cols cells none)
        | some row =>
          if (resolveTie schema.name cols (cols.map (present row)) cells).keepLocal then none
          else some (schema.upsert cols cells (some row))

/-- `applyMergeRow`: a row that a constraint rejects is skipped. -/
def applyMergeRow (node : MergeNode) (schema : Schema) (cols : List Column) :
    WriteRule RowKey Row (List Cell) := fun snapshot now cells =>
  let key := pkKeyAt schema cols cells
  if node.rejects now cells then none
  else mergeRow node schema cols (snapshot.find key) (now.find key) cells

def mergeChunk (node : MergeNode) (schema : Schema) (cols : List Column) :
    Stored → List (List Cell) → Stored :=
  writeBatch (pkKeyAt schema cols) (applyMergeRow node schema cols)

end Merge

/-- The ASCII letters of a name in lower case. -/
def toLower (name : Column) : Column :=
  name.map fun byte => if 65 ≤ byte ∧ byte ≤ 90 then byte + 32 else byte

/-- The checks of `mergeTable` on the columns of a dump. -/
def Schema.accepts (schema : Schema) (cols : List Column) : Bool :=
  !cols.isEmpty && cols.all (· ∈ schema.columns) && decide (cols.map toLower).Nodup &&
    schema.pkCols.all (· ∈ cols) && decide (updatedAt ∈ cols)

def mergeTable [GoLayout] [GoValues] (node : MergeNode) (schema : Schema) (size : Nat)
    (table : SyncTable) (stored : Stored) : Stored :=
  if schema.accepts table.columns then
    (chunksOf size table.rows).foldl (mergeChunk node schema table.columns) stored
  else stored

section Newest

variable [GoLayout] [GoValues]

/-- Merging one row into the row stored under its key: the newer one stays, and
`resolveTie` settles a tie. -/
def settle (schema : Schema) (cols : List Column) (stored : Option Row) (cells : List Cell) : Row :=
  match stored with
  | none => schema.upsert cols cells none
  | some row =>
    match lwwOrder (clockOf row) (incomingTS cols cells) with
    | .gt => row
    | .lt => schema.upsert cols cells (some row)
    | .eq =>
      if (resolveTie schema.name cols (cols.map (present row)) cells).keepLocal then row
      else schema.upsert cols cells (some row)

def rowsOf (schema : Schema) (cols : List Column) (rows : List (List Cell)) (key : RowKey) :
    List (List Cell) :=
  rows.filter fun cells => pkKeyAt schema cols cells = key

/-- Every key of the dump holds a row with a newest clock, ties are settled one row at a
time, and no other key changes. -/
structure KeepsNewest (schema : Schema) (cols : List Column) (before : Stored)
    (rows : List (List Cell)) (after : Stored) : Prop where
  held : ∀ cells ∈ rows, ∃ row, after.find (pkKeyAt schema cols cells) = some row
  newest : ∀ key row, after.find key = some row →
    (∀ old, before.find key = some old → lwwOrder (clockOf row) (clockOf old) ≠ .lt) ∧
      ∀ cells ∈ rowsOf schema cols rows key,
        lwwOrder (clockOf row) (incomingTS cols cells) ≠ .lt
  among : ∀ key row, after.find key = some row →
    (∃ old, before.find key = some old ∧ clockOf row = clockOf old) ∨
      ∃ cells ∈ rowsOf schema cols rows key, clockOf row = incomingTS cols cells
  settled : ∀ key, after.find key = (rowsOf schema cols rows key).foldl
    (fun stored cells => some (settle schema cols stored cells)) (before.find key)
  untouched : ∀ key, rowsOf schema cols rows key = [] → after.find key = before.find key

/-- The row carries an emitted clock. -/
def Clocked (row : Row) (clock : Key) : Prop := row updatedAt = .text clock.text

/-- The row of the dump carries an emitted clock. -/
def Stamped (cols : List Column) (cells : List Cell) (clock : Key) : Prop :=
  cellOf cols cells updatedAt = .text clock.text

/-- Clocks are emitted ones and no row is kept out for another reason than its clock. -/
structure Regular (node : MergeNode) (cols : List Column) (before : Stored)
    (rows : List (List Cell)) : Prop where
  complete : ∀ cells ∈ rows, cells.length = cols.length
  stamped : ∀ cells ∈ rows, ∃ clock, Stamped cols cells clock
  clocked : ∀ key row, before.find key = some row → ∃ clock, Clocked row clock
  unrefused : ∀ cells ∈ rows, ∀ stored, node.refuses stored cells = false
  unrejected : ∀ cells ∈ rows, ∀ stored, node.rejects stored cells = false
  unskewed : ∀ cells ∈ rows, ∀ localTS,
    skewQuarantinesIncoming node.skewGuard localTS (incomingTS cols cells) = false

end Newest

end Litevirt.Sync

import Litevirt.Lib.Gossip
import Litevirt.Lib.Transition
import Litevirt.Sync.Duplicates

/-!
# Duplicates collapse

Rows of one natural key under different ids, exchanged between nodes in any order.  At
rest all nodes hold newest rows, and the same one when the newest rows agree in content.
Tied rows of different content stay apart, and every exchange between them is tracked.
-/

namespace Litevirt.Sync

open Litevirt.Lib Litevirt.Hlc List Function

/-! ## Exchanges between nodes -/

section Clusters

variable [GoLayout] [GoValues] {ι : Type*} {env : ι → IdentityEnv} {table : IdentityTable}
  {nat : Column → Bytes} {start cluster : IdentityCluster ι}

/-- The row of the natural key that a node holds. -/
def IdentityCluster.held (cluster : IdentityCluster ι) (table : IdentityTable)
    (nat : Column → Bytes) (place : ι) : Option Row :=
  ((cluster.node place).group table nat).head?

def IdentityCluster.Initial (start : IdentityCluster ι) (table : IdentityTable)
    (nat : Column → Bytes) (row : Row) : Prop :=
  ∃ place, row ∈ (start.node place).group table nat

/-- No row that a node holds is newer. -/
def IdentityCluster.Newest (start : IdentityCluster ι) (table : IdentityTable)
    (nat : Column → Bytes) (row : Row) : Prop :=
  start.Initial table nat row ∧
    ∀ other, start.Initial table nat other → lwwOrder (clockOf row) (clockOf other) ≠ .lt

/-- Nodes hold rows of one natural key under different ids, with nothing else bound to
these ids and nothing that keeps a row out. -/
structure Duplicates (env : ι → IdentityEnv) (table : IdentityTable) (nat : Column → Bytes)
    (start : IdentityCluster ι) : Prop where
  single : ∀ place, ((start.node place).group table nat).length ≤ 1
  members : ∀ row, start.Initial table nat row → Member table nat row
  distinct : ∀ row other, start.Initial table nat row → start.Initial table nat other →
    idOf row = idOf other → row = other
  apart : ∀ place, ∀ row ∈ (start.node place).rows, ¬ InGroup table nat row →
    ∀ member, start.Initial table nat member → row idColumn ≠ member idColumn ∧
      ∀ ref ∈ identityReferenceColumns table.name, row ref ≠ member idColumn
  unsent : start.sent = []
  admitted : ∀ place row, start.Initial table nat row → Admits (env place) table row

omit [GoLayout] [GoValues] in
theorem Lodged.head_group {pool : Set Row} {node : IdentityNode} {held : Option Row}
    (lodged : Lodged table nat pool node.rows held) : (node.group table nat).head? = held := by
  rw [IdentityNode.group, lodged.group]
  cases held <;> rfl

theorem Supplants.trans {a b c : Row} (clockA : ∃ clock, Clocked a clock)
    (clockB : ∃ clock, Clocked b clock) (clockC : ∃ clock, Clocked c clock)
    (ab : Supplants table a b) (bc : Supplants table b c) : Supplants table a c := by
  obtain ⟨x, clockA⟩ := clockA
  obtain ⟨y, clockB⟩ := clockB
  obtain ⟨z, clockC⟩ := clockC
  simp only [Supplants, clockOf_clocked clockA, clockOf_clocked clockB, clockOf_clocked clockC,
    lwwOrder_text, cmp_eq_lt_iff, cmp_eq_eq_iff] at ab bc ⊢
  rcases ab with newer | ⟨tied, same, smaller⟩
  · rcases bc with newer' | ⟨tied', -, -⟩
    · exact .inl (newer'.trans newer)
    · exact .inl (tied' ▸ newer)
  · rcases bc with newer' | ⟨tied', same', smaller'⟩
    · exact .inl (tied ▸ newer')
    · exact .inr ⟨tied'.trans tied, same'.trans same, smaller.trans smaller'⟩

/-- `Supplants` between rows that were held at first. -/
def IdentityCluster.Wins (start : IdentityCluster ι) (table : IdentityTable) (nat : Column → Bytes)
    (a b : Row) : Prop :=
  start.Initial table nat a ∧ start.Initial table nat b ∧ Supplants table a b

/-- What holds of the nodes and the dumps after any number of exchanges. -/
structure Spread (table : IdentityTable) (nat : Column → Bytes)
    (start cluster : IdentityCluster ι) : Prop where
  lodged : ∀ place, Lodged table nat {row | start.Initial table nat row}
    (cluster.node place).rows (cluster.held table nat place)
  grown : Gossip.Grown (start.Wins table nat) (start.held table nat) (cluster.held table nat)
  sent : ∀ cells ∈ cluster.sent, ∃ row, start.Initial table nat row ∧ cells = dumpRow table row

variable {row other : Row}

theorem Spread.held_of_mem (spread : Spread table nat start cluster) {place : ι}
    (inGroup : row ∈ (cluster.node place).group table nat) :
    cluster.held table nat place = some row := by
  obtain ⟨listed, grouped⟩ := mem_filter.mp inGroup
  exact (spread.lodged place).eq_held listed (of_decide_eq_true grouped)

theorem Spread.group_eq (spread : Spread table nat start cluster) {place : ι}
    (isHeld : cluster.held table nat place = some row) :
    (cluster.node place).group table nat = [row] := by
  have group := (spread.lodged place).group
  rw [isHeld] at group
  exact group

theorem IdentityCluster.Newest.tie (newest : start.Newest table nat row)
    (newest' : start.Newest table nat other) : lwwOrder (clockOf row) (clockOf other) = .eq := by
  have notOlder := newest.2 other newest'.1
  have notNewer := newest'.2 row newest.1
  rw [lwwOrder_swap] at notNewer
  cases order : lwwOrder (clockOf row) (clockOf other) with
  | eq => rfl
  | lt => exact absurd order notOlder
  | gt => exact absurd (by rw [order]; rfl) notNewer

section Settling

variable (duplicates : Duplicates env table nat start)
include duplicates

theorem Duplicates.wins_trans (a b c : Row)
    (ab : start.Wins table nat a b) (bc : start.Wins table nat b c) : start.Wins table nat a c :=
  ⟨ab.1, bc.2.1, ab.2.2.trans (duplicates.members a ab.1).clocked
    (duplicates.members b bc.1).clocked (duplicates.members c bc.2.1).clocked bc.2.2⟩

theorem Duplicates.spread_start :
    Spread table nat start start := by
  refine ⟨fun place => ⟨?_, ?_, duplicates.apart place⟩, .refl _ _, ?_⟩
  · have single := duplicates.single place
    change (start.node place).group table nat = _
    unfold IdentityCluster.held
    match shape : (start.node place).group table nat with
    | [] => rfl
    | [_] => rfl
    | _ :: _ :: _ => simp [shape] at single
  · exact fun row isHeld => ⟨place, mem_of_mem_head? isHeld⟩
  · simp [duplicates.unsent]

theorem IdentityCluster.Newest.tied (newest : start.Newest table nat row)
    (isInitial : start.Initial table nat other)
    (tied : lwwOrder (clockOf row) (clockOf other) = .eq) : start.Newest table nat other := by
  refine ⟨isInitial, fun third isThird newer => newest.2 third isThird ?_⟩
  obtain ⟨x, rowClock⟩ := (duplicates.members row newest.1).clocked
  obtain ⟨y, otherClock⟩ := (duplicates.members other isInitial).clocked
  obtain ⟨z, thirdClock⟩ := (duplicates.members third isThird).clocked
  simp only [clockOf_clocked rowClock, clockOf_clocked otherClock, clockOf_clocked thirdClock,
    lwwOrder_text, cmp_eq_lt_iff, cmp_eq_eq_iff] at tied newer ⊢
  rwa [tied]

theorem Duplicates.wins_of_smallest {best : Row}
    (agree : ∀ a b, start.Newest table nat a → start.Newest table nat b → SameContent table a b)
    (newest : start.Newest table nat best)
    (smallest : ∀ other, start.Newest table nat other →
      byteValues (idOf best) ≤ byteValues (idOf other))
    (isInitial : start.Initial table nat row) : row = best ∨ start.Wins table nat best row := by
  have notOlder := newest.2 row isInitial
  have swapped := lwwOrder_swap (clockOf best) (clockOf row)
  cases order : lwwOrder (clockOf best) (clockOf row) with
  | lt => exact absurd order notOlder
  | gt =>
    rw [order] at swapped
    exact .inr ⟨newest.1, isInitial, .inl swapped⟩
  | eq =>
    rw [order] at swapped
    have rowNewest := newest.tied duplicates isInitial order
    rcases (smallest row rowNewest).lt_or_eq with smaller | same
    · exact .inr ⟨newest.1, isInitial, .inr ⟨swapped, agree row best rowNewest newest, smaller⟩⟩
    · exact .inl (duplicates.distinct row best isInitial newest.1
        (byteValues_injective same.symm))

theorem Duplicates.finite_initial [Finite ι] :
    {row | start.Initial table nat row}.Finite := by
  refine Set.Finite.subset
    ((Set.finite_range (start.held table nat)).preimage (Option.some_injective Row).injOn)
    fun row isInitial => ?_
  obtain ⟨place, inGroup⟩ := isInitial
  exact ⟨place, duplicates.spread_start.held_of_mem inGroup⟩

variable (spread : Spread table nat start cluster)
include spread

theorem Spread.outcome (receiver : ι) {incoming : Row}
    (isInitial : start.Initial table nat incoming) :
    ∃ landed next, mergeIdentityRow (env receiver) table table.columns (cluster.node receiver)
        (dumpRow table incoming) = .ok (landed, next) ∧
      IdentityOutcome table nat {row | start.Initial table nat row} (cluster.node receiver) next
        (cluster.held table nat receiver) incoming :=
  mergeIdentityRow_outcome duplicates.members (spread.lodged receiver) isInitial
    (duplicates.admitted receiver incoming isInitial)

theorem Spread.quiet (still : cluster.Still env table nat) :
    Gossip.Quiet (start.Wins table nat) (cluster.held table nat) := by
  intro sender receiver value isHeld
  have isInitial := (spread.lodged sender).inPool value isHeld
  obtain ⟨landed, next, merged, outcome⟩ := spread.outcome duplicates receiver isInitial
  have inGroup : value ∈ (cluster.node sender).group table nat := by
    rw [spread.group_eq isHeld]
    exact mem_singleton_self value
  have rows := still sender receiver value inGroup landed next merged
  have afterTaken : (∀ row, cluster.held table nat receiver = some row →
      Supplants table value row) → cluster.held table nat receiver = some value := by
    intro wins
    have lodged := outcome.taken wins
    rw [rows] at lodged
    exact lodged.head_group
  cases receiverHeld : cluster.held table nat receiver with
  | none =>
    have taken := afterTaken (by simp [receiverHeld])
    rw [receiverHeld] at taken
    cases taken
  | some old =>
    refine ⟨old, rfl, fun wins => ?_⟩
    have taken := afterTaken fun row isRow => by
      rw [receiverHeld] at isRow
      exact Option.some.inj isRow ▸ wins.2.2
    rw [receiverHeld] at taken
    rw [Option.some.inj taken] at wins
    exact not_supplants_self table value wins.2.2

theorem Spread.still (full : ∀ place, (cluster.node place).group table nat ≠ [])
    (calm : ∀ sender receiver, ∀ row ∈ (cluster.node sender).group table nat,
      ∀ other ∈ (cluster.node receiver).group table nat, ¬ Supplants table row other) :
    cluster.Still env table nat := by
  intro sender receiver row inGroup landed next merged
  obtain ⟨other, inReceiver⟩ := exists_mem_of_ne_nil _ (full receiver)
  have isInitial := (spread.lodged sender).inPool row (spread.held_of_mem inGroup)
  obtain ⟨landed', next', merged', outcome⟩ := spread.outcome duplicates receiver isInitial
  rw [merged] at merged'
  cases merged'
  exact outcome.kept other (spread.held_of_mem inReceiver)
    (calm sender receiver row inGroup other inReceiver)

theorem Spread.apart (still : cluster.Still env table nat)
    {sender receiver : ι} (sends : cluster.held table nat sender = some row)
    (receives : cluster.held table nat receiver = some other) (newest : start.Newest table nat row)
    (newest' : start.Newest table nat other) (different : row ≠ other) :
    ¬ SameContent table other row := by
  intro same
  obtain ⟨old, isOld, loses⟩ := spread.quiet duplicates still sender receiver row sends
  obtain ⟨old', isOld', loses'⟩ := spread.quiet duplicates still receiver sender other receives
  obtain rfl := Option.some.inj (receives.symm.trans isOld)
  obtain rfl := Option.some.inj (sends.symm.trans isOld')
  rcases lt_trichotomy (byteValues (idOf row)) (byteValues (idOf other)) with below | ids | above
  · exact loses ⟨newest.1, newest'.1, .inr ⟨newest'.tie newest, same, below⟩⟩
  · exact different (duplicates.distinct row other newest.1 newest'.1 (byteValues_injective ids))
  · exact loses' ⟨newest'.1, newest.1, .inr ⟨newest.tie newest', same.symm, above⟩⟩

variable [DecidableEq ι]

/-- A node changes, and holds the incoming row, when that row supplants the one it held. -/
theorem Spread.merge {receiver : ι} {incoming : Row} {next : IdentityNode}
    (isInitial : start.Initial table nat incoming)
    (outcome : IdentityOutcome table nat {row | start.Initial table nat row}
      (cluster.node receiver) next (cluster.held table nat receiver) incoming) :
    Spread table nat start
      { cluster with node := Function.update cluster.node receiver next } := by
  by_cases wins : ∀ row, cluster.held table nat receiver = some row → Supplants table incoming row
  · have lodged := outcome.taken wins
    have held : IdentityCluster.held
        { cluster with node := Function.update cluster.node receiver next } table nat =
          Function.update (cluster.held table nat) receiver (some incoming) := by
      funext place
      unfold IdentityCluster.held
      by_cases same : place = receiver
      · subst same
        simp only [update_self]
        exact lodged.head_group
      · simp only [update_of_ne same]
    refine ⟨fun place => ?_, ?_, spread.sent⟩
    · rw [held]
      by_cases same : place = receiver
      · subst same
        simpa only [update_self] using lodged
      · simpa only [update_of_ne same] using spread.lodged place
    · rw [held]
      refine spread.grown.adopt duplicates.wins_trans ?_ fun row isHeld => ?_
      · obtain ⟨source, inGroup⟩ := isInitial
        exact ⟨source, duplicates.spread_start.held_of_mem inGroup⟩
      · exact ⟨isInitial, (spread.lodged receiver).inPool row isHeld, wins row isHeld⟩
  · obtain ⟨row, rest⟩ := not_forall.mp wins
    obtain ⟨isHeld, loses⟩ := Classical.not_imp.mp rest
    have unchanged := outcome.kept row isHeld loses
    have rows : ∀ place, (Function.update cluster.node receiver next place).rows =
        (cluster.node place).rows := by
      intro place
      by_cases same : place = receiver
      · subst same
        rw [update_self, unchanged]
      · rw [update_of_ne same]
    have held : IdentityCluster.held
        { cluster with node := Function.update cluster.node receiver next } table nat =
          cluster.held table nat := by
      funext place
      simp only [IdentityCluster.held, IdentityNode.group, rows]
    refine ⟨fun place => ?_, ?_, spread.sent⟩
    · rw [held]
      simpa only [rows] using spread.lodged place
    · rw [held]
      exact spread.grown

theorem Spread.step {event : IdentityEvent ι}
    {next : IdentityCluster ι} (stepped : cluster.step env table nat event = some next) :
    Spread table nat start next := by
  cases event with
  | dump sender =>
    cases stepped
    refine ⟨spread.lodged, spread.grown, fun cells listed => ?_⟩
    rcases mem_append.mp listed with earlier | dumped
    · exact spread.sent cells earlier
    · obtain ⟨row, inGroup, rfl⟩ := mem_map.mp dumped
      exact ⟨row, (spread.lodged sender).inPool row (spread.held_of_mem inGroup), rfl⟩
  | merge receiver index =>
    obtain ⟨cells, found, rfl⟩ := Option.map_eq_some_iff.mp stepped
    obtain ⟨incoming, isInitial, rfl⟩ := spread.sent cells (mem_of_getElem? found)
    obtain ⟨landed, after, merged, outcome⟩ := spread.outcome duplicates receiver isInitial
    simp only [merged]
    exact spread.merge duplicates isInitial outcome

end Settling

variable [DecidableEq ι]

theorem Duplicates.spread (duplicates : Duplicates env table nat start)
    (run : Run (IdentityCluster.step env table nat) (fun _ _ => True) start cluster) :
    Spread table nat start cluster :=
  run.invariant (Spread table nat start) duplicates.spread_start
    fun _ _ _ _ stepped spread => spread.step duplicates stepped

/-- Rows of one natural key under different ids, exchanged in any order: no merge replaces
a row by a tied one of different content, and each such merge tracks a fault.  When no
exchange changes anything, every node holds one row, a newest one; all nodes hold the one
with the smallest id when the newest rows agree in content; and a merge between nodes that
hold different rows tracks a fault. -/
theorem duplicates_settle [Finite ι] (duplicates : Duplicates env table nat start)
    {last : IdentityCluster ι}
    (run : Run (IdentityCluster.step env table nat) (fun _ _ => True) start last) :
    (∀ receiver, ∀ row ∈ (last.node receiver).group table nat, ∀ incoming,
      start.Initial table nat incoming → ∃ landed next,
        mergeIdentityRow (env receiver) table table.columns (last.node receiver)
            (dumpRow table incoming) = .ok (landed, next) ∧
          (¬ Supplants table incoming row → next.rows = (last.node receiver).rows) ∧
          (lwwOrder (clockOf row) (clockOf incoming) = .eq → ¬ SameContent table row incoming →
            table.natCols.map nat ∈ next.unresolved)) ∧
      (last.Still env table nat → (∃ row, start.Initial table nat row) →
        (∀ place, ∃ row, (last.node place).group table nat = [row] ∧
          start.Newest table nat row) ∧
        ((∀ a b, start.Newest table nat a → start.Newest table nat b → SameContent table a b) →
          ∃ best, start.Newest table nat best ∧
            (∀ other, start.Newest table nat other →
              byteValues (idOf best) ≤ byteValues (idOf other)) ∧
            ∀ place, (last.node place).group table nat = [best]) ∧
        ∀ sender receiver, ∀ row ∈ (last.node sender).group table nat,
          (last.node sender).group table nat ≠ (last.node receiver).group table nat →
          ∃ landed next, mergeIdentityRow (env receiver) table table.columns (last.node receiver)
              (dumpRow table row) = .ok (landed, next) ∧
            next.rows = (last.node receiver).rows ∧
            table.natCols.map nat ∈ next.unresolved) := by
  have spread := duplicates.spread run
  refine ⟨fun receiver row inGroup incoming isInitial => ?_, fun still occupied => ?_⟩
  · obtain ⟨landed, next, merged, outcome⟩ := spread.outcome duplicates receiver isInitial
    have isHeld := spread.held_of_mem inGroup
    exact ⟨landed, next, merged, outcome.kept row isHeld, outcome.tracked row isHeld⟩
  have quiet := spread.quiet duplicates still
  obtain ⟨some_row, origin, inOrigin⟩ := occupied
  have isFirst := duplicates.spread_start.held_of_mem inOrigin
  have settled : ∀ place, ∃ row, last.held table nat place = some row ∧
      start.Newest table nat row := by
    intro place
    obtain ⟨row, isHeld⟩ := spread.grown.held quiet isFirst place
    have isInitial := (spread.lodged place).inPool row isHeld
    refine ⟨row, isHeld, isInitial, fun other isOther newer => ?_⟩
    obtain ⟨source, inGroup⟩ := isOther
    exact spread.grown.unbeaten duplicates.wins_trans quiet isHeld
      (duplicates.spread_start.held_of_mem inGroup) ⟨⟨source, inGroup⟩, isInitial, .inl newer⟩
  refine ⟨fun place => ?_, fun agree => ?_, fun sender receiver row inGroup apart => ?_⟩
  · obtain ⟨row, isHeld, newest⟩ := settled place
    exact ⟨row, spread.group_eq isHeld, newest⟩
  · obtain ⟨row, -, newest⟩ := settled origin
    obtain ⟨best, bestNewest, smallest⟩ := Set.exists_min_image {row | start.Newest table nat row}
      (fun row => byteValues (idOf row))
      (duplicates.finite_initial.subset fun _ newest => newest.1) ⟨row, newest⟩
    obtain ⟨bestPlace, inBest⟩ := bestNewest.1
    refine ⟨best, bestNewest, smallest, fun place => spread.group_eq ?_⟩
    refine spread.grown.settles duplicates.wins_trans quiet
      (duplicates.spread_start.held_of_mem inBest) (fun source value isValue => ?_) place
    exact duplicates.wins_of_smallest agree bestNewest smallest
      ⟨source, mem_of_mem_head? isValue⟩
  · obtain ⟨kept, isKept, keptNewest⟩ := settled sender
    obtain ⟨other, isOther, otherNewest⟩ := settled receiver
    have isRow := spread.held_of_mem inGroup
    obtain rfl := Option.some.inj (isRow.symm.trans isKept)
    have different : row ≠ other := by
      rintro rfl
      exact apart ((spread.group_eq isRow).trans (spread.group_eq isOther).symm)
    obtain ⟨landed, next, merged, outcome⟩ := spread.outcome duplicates receiver keptNewest.1
    refine ⟨landed, next, merged, still sender receiver row inGroup landed next merged, ?_⟩
    exact outcome.tracked other isOther (otherNewest.tie keptNewest)
      (spread.apart duplicates still isRow isOther keptNewest otherNewest different)

end Clusters

end Litevirt.Sync

namespace Litevirt.Sync

open Litevirt.Lib Litevirt.Hlc List

/-- A whole number is stored as an integer in the integer column. -/
def storeSnapshot (col : Column) (cell : Cell) : Cell :=
  match cell with
  | .float (.whole n) => if col = bytes "size_bytes" then .int (Int64.ofInt n) else cell
  | _ => cell

/-- Snapshots of containers; the size is an INTEGER column, the others are TEXT ones. -/
def containerSnapshots : IdentityTable where
  name := "container_snapshots"
  columns := [idColumn, bytes "ct_name", bytes "host_name", bytes "name", bytes "state",
    bytes "size_bytes", bytes "type", bytes "path", bytes "created_at", updatedAt,
    bytes "deleted_at"]
  pkCols := [idColumn]
  defaults := fun _ => .null
  store := storeSnapshot
  keyed := by decide
  key_known := by decide +kernel
  clocked := by decide +kernel
  clock_free := by decide +kernel
  store_clock := fun _ => rfl
  natCols := [bytes "host_name", bytes "ct_name", bytes "name"]
  registered := rfl
  minted := rfl
  complete := by decide +kernel
  natCols_known := by decide +kernel
  references_known := nofun
  store_id := fun _ => rfl

def nightly (col : Column) : Bytes :=
  if col = bytes "host_name" then bytes "h1" else if col = bytes "ct_name" then bytes "web"
  else bytes "nightly"

def snapshotRow (id state : String) : Row := fun col =>
  if col ∈ containerSnapshots.columns then
    cellOf containerSnapshots.columns [.text (bytes id), .text (bytes "web"), .text (bytes "h1"),
      .text (bytes "nightly"), .text (bytes state), .int 512, .text (bytes "tar"), .null,
      .text (bytes "2024-01-01T00:00:00Z"), .text Place.low.clock.text, .null] col
  else .null

/-- The ids and states that the rows below have. -/
def sampleSnapshots : List (String × String) := [("a", "ready"), ("b", "ready"), ("c", "failed")]

attribute [local instance] strictLayout plainValues

theorem member_snapshotRow {id state : String} (sample : (id, state) ∈ sampleSnapshots) :
    Member containerSnapshots nightly (snapshotRow id state) := by
  have cells : ∀ pair ∈ sampleSnapshots,
      InGroup containerSnapshots nightly (snapshotRow pair.1 pair.2) ∧
        (snapshotRow pair.1 pair.2 idColumn = .text (bytes pair.1) ∧ bytes pair.1 ≠ []) ∧
        snapshotRow pair.1 pair.2 updatedAt = .text Place.low.clock.text ∧
        ∀ col ∈ containerSnapshots.columns,
          containerSnapshots.store col (present (snapshotRow pair.1 pair.2) col) =
              snapshotRow pair.1 pair.2 col ∧
            (present (snapshotRow pair.1 pair.2) col = snapshotRow pair.1 pair.2 col ∨
              snapshotRow pair.1 pair.2 col = .int 512) := by
    decide +kernel
  obtain ⟨grouped, ⟨minted, named⟩, clocked, columns⟩ := cells _ sample
  have ids : idOf (snapshotRow id state) = bytes id := by
    rw [idOf.eq_1, minted]
    rfl
  refine Member.mk grouped ⟨?_, ?_⟩ ⟨_, clocked⟩ nofun ?_ ?_ ?_
  · rw [ids, minted]
  · rw [ids]
    exact named
  · intro col unlisted
    rw [snapshotRow, if_neg unlisted]
    rfl
  · exact fun col listed => (columns col listed).1
  · intro col listed text isText
    rcases (columns col listed).2 with kept | isSize
    · rw [kept, isText]
    · rw [isText] at isSize
      cases isSize

def openEnv : IdentityEnv := ⟨none, fun _ _ => false⟩

def twoNodes (first second : String × String) : IdentityCluster Bool :=
  ⟨fun isSecond => ⟨[if isSecond then snapshotRow second.1 second.2
    else snapshotRow first.1 first.2], []⟩, []⟩

variable {first second : String × String}

theorem group_twoNodes (sampleFirst : first ∈ sampleSnapshots)
    (sampleSecond : second ∈ sampleSnapshots) (isSecond : Bool) :
    ((twoNodes first second).node isSecond).group containerSnapshots nightly =
      [if isSecond then snapshotRow second.1 second.2 else snapshotRow first.1 first.2] := by
  have groupedFirst := Member.grouped (member_snapshotRow sampleFirst)
  have groupedSecond := Member.grouped (member_snapshotRow sampleSecond)
  refine filter_eq_self.mpr fun row listed => decide_eq_true ?_
  rw [mem_singleton.mp listed]
  cases isSecond
  · exact groupedFirst
  · exact groupedSecond

theorem initial_twoNodes (sampleFirst : first ∈ sampleSnapshots)
    (sampleSecond : second ∈ sampleSnapshots) {row : Row}
    (isInitial : (twoNodes first second).Initial containerSnapshots nightly row) :
    ∃ pair ∈ sampleSnapshots, (pair = first ∨ pair = second) ∧ row = snapshotRow pair.1 pair.2 := by
  obtain ⟨isSecond, inGroup⟩ := isInitial
  rw [group_twoNodes sampleFirst sampleSecond] at inGroup
  have isRow := mem_singleton.mp inGroup
  cases isSecond
  · exact ⟨first, sampleFirst, .inl rfl, isRow⟩
  · exact ⟨second, sampleSecond, .inr rfl, isRow⟩

theorem duplicates_twoNodes (sampleFirst : first ∈ sampleSnapshots)
    (sampleSecond : second ∈ sampleSnapshots) :
    Duplicates (fun _ => openEnv) containerSnapshots nightly (twoNodes first second) := by
  have ids : ∀ pair ∈ sampleSnapshots, ∀ other ∈ sampleSnapshots,
      idOf (snapshotRow pair.1 pair.2) = idOf (snapshotRow other.1 other.2) → pair = other := by
    decide +kernel
  refine Duplicates.mk ?_ ?_ ?_ ?_ rfl ?_
  · intro place
    rw [group_twoNodes sampleFirst sampleSecond]
    exact le_rfl
  · intro row isInitial
    obtain ⟨pair, sample, -, rfl⟩ := initial_twoNodes sampleFirst sampleSecond isInitial
    exact member_snapshotRow sample
  · intro row other isInitial isOther same
    obtain ⟨pair, sample, -, rfl⟩ := initial_twoNodes sampleFirst sampleSecond isInitial
    obtain ⟨pair', sample', -, rfl⟩ := initial_twoNodes sampleFirst sampleSecond isOther
    rw [ids pair sample pair' sample' same]
  · intro place row listed notGrouped
    have inGroup : row ∈ ((twoNodes first second).node place).group containerSnapshots nightly := by
      rw [group_twoNodes sampleFirst sampleSecond]
      exact listed
    exact absurd (of_decide_eq_true (mem_filter.mp inGroup).2) notGrouped
  · intro place row _
    exact Admits.mk (fun _ => rfl) fun _ => rfl

/-- Every node holds a row and none supplants another. -/
abbrev CalmNodes (cluster : IdentityCluster Bool) : Prop :=
  (∀ place, (cluster.node place).group containerSnapshots nightly ≠ []) ∧
    ∀ sender receiver, ∀ row ∈ (cluster.node sender).group containerSnapshots nightly,
      ∀ other ∈ (cluster.node receiver).group containerSnapshots nightly,
        ¬ Supplants containerSnapshots row other

/-- Two snapshots that differ in their ids only: one exchange leaves the same one. -/
theorem twin_snapshots_collapse :
    ∃ last, Run (IdentityCluster.step (fun _ => openEnv)
        containerSnapshots nightly) (fun _ _ => True) (twoNodes ("a", "ready") ("b", "ready"))
        last ∧
      ∃ best, ∀ place, (last.node place).group containerSnapshots nightly = [best] := by
  have first : ("a", "ready") ∈ sampleSnapshots := by decide +kernel
  have second : ("b", "ready") ∈ sampleSnapshots := by decide +kernel
  have duplicates := duplicates_twoNodes first second
  obtain ⟨last, run, full, calm⟩ : ∃ last, Run (IdentityCluster.step (fun _ => openEnv)
      containerSnapshots nightly) (fun _ _ => True) (twoNodes ("a", "ready") ("b", "ready")) last ∧
      CalmNodes last := Run.reaches [.dump false, .merge true 0] (by decide +kernel)
  have still := Spread.still duplicates (Duplicates.spread duplicates run) full calm
  have same : ∀ a ∈ [("a", "ready"), ("b", "ready")], ∀ b ∈ [("a", "ready"), ("b", "ready")],
      SameContent containerSnapshots (snapshotRow a.1 a.2) (snapshotRow b.1 b.2) := by
    decide +kernel
  have initial : (twoNodes ("a", "ready") ("b", "ready")).Initial containerSnapshots nightly
      (snapshotRow "a" "ready") :=
    ⟨false, by rw [group_twoNodes first second]; exact mem_singleton_self _⟩
  obtain ⟨-, settled, -⟩ := (duplicates_settle duplicates run).2 still ⟨_, initial⟩
  obtain ⟨best, -, -, collapsed⟩ := settled fun a b newestA newestB => by
    obtain ⟨pair, -, named, rfl⟩ := initial_twoNodes first second newestA.1
    obtain ⟨other, -, named', rfl⟩ := initial_twoNodes first second newestB.1
    exact same pair (by simpa using named) other (by simpa using named')
  exact ⟨last, run, best, collapsed⟩

/-- Two snapshots with one clock and different states stay apart. -/
theorem tied_snapshots_stay_apart :
    Duplicates (fun _ => openEnv) containerSnapshots nightly
        (twoNodes ("a", "ready") ("c", "failed")) ∧
      IdentityCluster.Still (fun _ => openEnv) containerSnapshots
        nightly (twoNodes ("a", "ready") ("c", "failed")) ∧
      ¬ ∃ row, ∀ place, ((twoNodes ("a", "ready") ("c", "failed")).node place).group
        containerSnapshots nightly = [row] := by
  have ready : ("a", "ready") ∈ sampleSnapshots := by decide +kernel
  have failed : ("c", "failed") ∈ sampleSnapshots := by decide +kernel
  have duplicates := duplicates_twoNodes ready failed
  obtain ⟨full, calm⟩ : CalmNodes (twoNodes ("a", "ready") ("c", "failed")) := by decide +kernel
  refine ⟨duplicates, ?_, ?_⟩
  · exact Spread.still duplicates (Duplicates.spread_start duplicates) full calm
  rintro ⟨row, same⟩
  have first := same false
  have second := same true
  rw [group_twoNodes ready failed] at first second
  have rows : snapshotRow "a" "ready" = snapshotRow "c" "failed" :=
    (List.cons.inj first).1.trans (List.cons.inj second).1.symm
  exact absurd (congrFun rows idColumn) (by decide +kernel)

end Litevirt.Sync

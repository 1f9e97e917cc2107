import Litevirt.Sync.Identity
import Litevirt.Sync.MergeSpec

/-!
# Duplicates of a natural key

A row of a natural key that is merged into a table with one such row: it replaces that row
exactly when it is newer, or tied with equal content and a smaller id, and a tie with
different content is tracked.
-/

namespace Litevirt.Sync

open Litevirt.Lib Litevirt.Hlc List

/-! ## Content -/

section Content

variable [GoValues]

theorem identityCellEqual_iff (a b : Cell) :
    identityCellEqual a b = true ↔
      (a = .null ↔ b = .null) ∧ coerceString a = coerceString b := by
  unfold identityCellEqual
  split
  · rename_i isNull
    rcases isNull with rfl | rfl
    · simp only [true_and, decide_eq_true_eq, true_iff]
      exact ⟨fun isNull => ⟨isNull, by rw [isNull]⟩, And.left⟩
    · simp only [and_true, decide_eq_true_eq, iff_true]
      exact ⟨fun isNull => ⟨isNull, by rw [isNull]⟩, And.left⟩
  · rename_i present
    obtain ⟨presentA, presentB⟩ := not_or.mp present
    simp [presentA, presentB]

/-- The rows agree in every column but the id, as a dump presents them. -/
def SameContent (table : IdentityTable) (a b : Row) : Prop :=
  ∀ col ∈ table.columns, col ≠ idColumn →
    identityCellEqual (present a col) (present b col) = true

instance (table : IdentityTable) (a b : Row) : Decidable (SameContent table a b) :=
  inferInstanceAs (Decidable (∀ _ ∈ _, _))

variable {table : IdentityTable}

theorem SameContent.trans {a b c : Row} (ab : SameContent table a b)
    (bc : SameContent table b c) : SameContent table a c := by
  intro col listed other
  obtain ⟨nullAB, textAB⟩ := (identityCellEqual_iff _ _).mp (ab col listed other)
  obtain ⟨nullBC, textBC⟩ := (identityCellEqual_iff _ _).mp (bc col listed other)
  exact (identityCellEqual_iff _ _).mpr ⟨nullAB.trans nullBC, textAB.trans textBC⟩

theorem SameContent.symm {a b : Row} (ab : SameContent table a b) :
    SameContent table b a := by
  intro col listed other
  obtain ⟨nulls, texts⟩ := (identityCellEqual_iff _ _).mp (ab col listed other)
  exact (identityCellEqual_iff _ _).mpr ⟨nulls.symm, texts.symm⟩

end Content

/-! ## Dumps of whole rows -/

section Dumps

variable {table : IdentityTable}

theorem lookup_of_nodup {κ ν : Type*} [BEq κ] [LawfulBEq κ] {pairs : List (κ × ν)} {key : κ}
    {value : ν} (distinct : (pairs.map Prod.fst).Nodup) (listed : (key, value) ∈ pairs) :
    pairs.lookup key = some value := by
  induction pairs with
  | nil => cases listed
  | cons pair rest ih =>
    obtain ⟨fresh, distinctRest⟩ := nodup_cons.mp distinct
    rcases mem_cons.mp listed with rfl | inRest
    · exact lookup_cons_self
    have other : (key == pair.1) = false := by
      refine beq_false_of_ne ?_
      rintro rfl
      exact fresh (mem_map.mpr ⟨_, inRest, rfl⟩)
    rw [lookup_cons, other]
    exact ih distinctRest inRest

theorem IdentityTable.lower_nodup (table : IdentityTable) :
    (table.columns.map toLower).Nodup := by
  have complete := table.complete
  simp only [Schema.accepts, Bool.and_eq_true, decide_eq_true_eq] at complete
  exact complete.1.1.2

theorem IdentityTable.id_known (table : IdentityTable) : idColumn ∈ table.columns :=
  table.key_known idColumn (by simp [table.minted])

variable {col : Column}

theorem IdentityTable.toLower_eq_id (table : IdentityTable)
    (listed : col ∈ table.columns) : toLower col = idColumn ↔ col = idColumn := by
  have lowered : toLower idColumn = idColumn := by decide +kernel
  refine ⟨fun named => ?_, fun isId => by rw [isId, lowered]⟩
  exact inj_on_of_nodup_map table.lower_nodup listed table.id_known (named.trans lowered.symm)

variable [GoValues]

theorem cellOf_dumpRow (row : Row) (listed : col ∈ table.columns) :
    cellOf table.columns (dumpRow table row) col = present row col :=
  cellOf_map (present row) listed

theorem imageOf_dumpRow (row : Row) (listed : col ∈ table.columns) :
    imageOf table.columns (dumpRow table row) col = some (present row col) := by
  have paired : (table.columns.map toLower).zip (dumpRow table row) =
      table.columns.map fun name => (toLower name, present row name) := by
    rw [dumpRow, zip_map']
  unfold imageOf
  rw [paired]
  refine lookup_of_nodup ?_ ?_
  · rw [map_reverse, nodup_reverse, map_map]
    exact table.lower_nodup
  · rw [mem_reverse]
    exact mem_map.mpr ⟨col, listed, rfl⟩

theorem identityContentEquivalent_dumpRow (a b : Row) :
    identityContentEquivalent table.columns (present a) table.columns (dumpRow table b) = true ↔
      SameContent table a b := by
  unfold identityContentEquivalent SameContent
  rw [all_eq_true]
  refine forall₂_congr fun col listed => ?_
  rw [imageOf_dumpRow b listed]
  simp only [Bool.or_eq_true, beq_iff_eq, Option.any_some, table.toLower_eq_id listed]
  exact or_iff_not_imp_left

end Dumps

/-! ## Rows of a natural key -/

section Members

variable [GoValues] {table : IdentityTable} {nat : Column → Bytes}

def idOf (row : Row) : Bytes := coerceString (row idColumn)

/-- A row of the natural key with an id and an emitted clock, without a reference, whose
cells a dump keeps. -/
structure Member (table : IdentityTable) (nat : Column → Bytes) (row : Row) : Prop where
  grouped : InGroup table nat row
  minted : row idColumn = .text (idOf row) ∧ idOf row ≠ []
  clocked : ∃ clock, Clocked row clock
  parentless : ∀ ref ∈ identityReferenceColumns table.name, cellNonEmpty (present row ref) = false
  ofTable : ∀ col, col ∉ table.columns → row col = table.defaults col
  stored : ∀ col ∈ table.columns, table.store col (present row col) = row col
  texts : ∀ col ∈ table.columns, ∀ s, row col = .text s → present row col = .text s

variable {row : Row}

variable (member : Member table nat row)
include member

variable {col : Column}

theorem Member.cell_natCol (listed : col ∈ table.natCols) :
    cellOf table.columns (dumpRow table row) col = .text (nat col) := by
  have known := table.natCols_known col listed
  rw [cellOf_dumpRow row known]
  exact member.texts col known _ (member.grouped col listed)

theorem Member.cell_id :
    cellOf table.columns (dumpRow table row) idColumn = .text (idOf row) := by
  rw [cellOf_dumpRow row table.id_known]
  exact member.texts idColumn table.id_known _ member.minted.1

theorem Member.incomingTS_dumpRow :
    incomingTS table.columns (dumpRow table row) = clockOf row := by
  obtain ⟨clock, clocked⟩ := member.clocked
  have stamped : Stamped table.columns (dumpRow table row) clock := by
    rw [Stamped, cellOf_dumpRow row table.clocked]
    exact member.texts updatedAt table.clocked _ clocked
  rw [incomingTS_stamped stamped, clockOf_clocked clocked]

theorem Member.naturalKeyAt_dumpRow :
    naturalKeyAt table table.columns (dumpRow table row) = table.natCols.map nat := by
  refine map_congr_left fun col listed => ?_
  rw [member.cell_natCol listed]
  rfl

/-- The rows found for a dumped row are those of its natural key. -/
theorem Member.sharesNaturalKey_iff (other : Row) :
    sharesNaturalKey table table.columns (dumpRow table row) other = true ↔
      InGroup table nat other := by
  unfold sharesNaturalKey InGroup
  rw [all_eq_true]
  refine forall₂_congr fun col listed => ?_
  have known := table.natCols_known col listed
  have written : table.store col (cellOf table.columns (dumpRow table row) col) =
      .text (nat col) := by
    rw [cellOf_dumpRow row known, member.stored col known, member.grouped col listed]
  rw [written, decide_eq_true_eq]
  exact ⟨And.right, fun same => ⟨by simp [same], same⟩⟩

theorem Member.written (listed : col ∈ table.columns) :
    table.store col (cellOf table.columns (dumpRow table row) col) = row col := by
  rw [cellOf_dumpRow row listed, member.stored col listed]

theorem Member.insert_dumpRow :
    table.upsert table.columns (dumpRow table row) none = row := by
  funext col
  simp only [Schema.upsert]
  split
  · rename_i listed
    exact member.written listed
  · rename_i unlisted
    exact (member.ofTable col unlisted).symm

variable {old : Row}

theorem Member.update_dumpRow
    (oldMember : Member table nat old) (same : old idColumn = row idColumn) :
    table.upsert table.columns (dumpRow table row) (some old) = row := by
  funext col
  simp only [Schema.upsert, table.minted, mem_singleton]
  split
  · rename_i written
    exact member.written written.1
  rename_i kept
  by_cases listed : col ∈ table.columns
  · have isId : col = idColumn := by
      by_contra other
      exact kept ⟨listed, other⟩
    rw [isId, same]
  · rw [oldMember.ofTable col listed, member.ofTable col listed]

theorem Member.collapse_dumpRow (oldMember : Member table nat old) :
    (fun col => if col ∈ table.columns then
      table.store col (cellOf table.columns (dumpRow table row) col) else old col) = row := by
  funext col
  split
  · rename_i listed
    exact member.written listed
  · rename_i unlisted
    rw [oldMember.ofTable col unlisted, member.ofTable col unlisted]

end Members

/-! ## A table with one row of the natural key -/

section Lodged

variable [GoValues] {table : IdentityTable} {nat : Column → Bytes} {pool : Set Row}
  {rows : List Row} {held : Option Row} {row : Row}

/-- The table holds at most one row of the natural key, one of the pool, and no other row
has or refers to an id of the pool. -/
structure Lodged (table : IdentityTable) (nat : Column → Bytes) (pool : Set Row) (rows : List Row)
    (held : Option Row) : Prop where
  group : rows.filter (fun row => decide (InGroup table nat row)) = held.toList
  inPool : ∀ row, held = some row → row ∈ pool
  apart : ∀ row ∈ rows, ¬ InGroup table nat row → ∀ member ∈ pool,
    row idColumn ≠ member idColumn ∧
      ∀ ref ∈ identityReferenceColumns table.name, row ref ≠ member idColumn

omit [GoValues] in
theorem rowById_some {id : Bytes} (found : rowById rows id = some row) :
    row ∈ rows ∧ row idColumn = .text id := by
  have isId := find?_some found
  exact ⟨mem_of_find?_eq_some found, of_decide_eq_true isId⟩

omit [GoValues] in
theorem Lodged.eq_held (lodged : Lodged table nat pool rows held) (listed : row ∈ rows)
    (grouped : InGroup table nat row) : held = some row := by
  have inFilter : row ∈ rows.filter fun row => decide (InGroup table nat row) :=
    mem_filter.mpr ⟨listed, decide_eq_true grouped⟩
  rw [lodged.group, Option.mem_toList] at inFilter
  exact inFilter

omit [GoValues] in
theorem Lodged.held_mem (lodged : Lodged table nat pool rows (some row)) :
    row ∈ rows ∧ InGroup table nat row := by
  have inFilter : row ∈ rows.filter fun row => decide (InGroup table nat row) := by
    rw [lodged.group]
    exact mem_singleton_self row
  obtain ⟨listed, grouped⟩ := mem_filter.mp inFilter
  exact ⟨listed, of_decide_eq_true grouped⟩

omit [GoValues] in
theorem Lodged.eq_held_of_id (lodged : Lodged table nat pool rows held) {member : Row}
    (inPool : member ∈ pool) (listed : row ∈ rows) (same : row idColumn = member idColumn) :
    held = some row := by
  by_cases grouped : InGroup table nat row
  · exact lodged.eq_held listed grouped
  · exact absurd same (lodged.apart row listed grouped member inPool).1

variable (members : ∀ row ∈ pool, Member table nat row)
include members

theorem Lodged.find_key (lodged : Lodged table nat pool rows held) (inPool : row ∈ pool) :
    rows.find? (sharesNaturalKey table table.columns (dumpRow table row)) = held := by
  have same : sharesNaturalKey table table.columns (dumpRow table row) =
      fun other => decide (InGroup table nat other) := by
    funext other
    rw [Bool.eq_iff_iff, (members row inPool).sharesNaturalKey_iff, decide_eq_true_eq]
  rw [same, ← head?_filter, lodged.group]
  cases held <;> rfl

theorem Lodged.rowById_held (lodged : Lodged table nat pool rows (some row)) :
    rowById rows (idOf row) = some row := by
  obtain ⟨listed, -⟩ := lodged.held_mem
  have inPool := lodged.inPool row rfl
  have minted := (members row inPool).minted.1
  cases found : rowById rows (idOf row) with
  | none =>
    have absent := find?_eq_none.mp found row listed
    simp [minted] at absent
  | some other =>
    obtain ⟨inRows, isId⟩ := rowById_some found
    rw [← minted] at isId
    exact (lodged.eq_held_of_id inPool inRows isId).symm

theorem Lodged.not_foreign (lodged : Lodged table nat pool rows held) (inPool : row ∈ pool) :
    identityIDForeignNaturalKey table rows (idOf row) table.columns (dumpRow table row) =
      false := by
  unfold identityIDForeignNaturalKey
  cases found : rowById rows (idOf row) with
  | none => rfl
  | some other =>
    obtain ⟨inRows, isId⟩ := rowById_some found
    rw [← (members row inPool).minted.1] at isId
    have isHeld := lodged.eq_held_of_id inPool inRows isId
    have grouped := (members other (lodged.inPool other isHeld)).grouped
    rw [Option.any_some, any_eq_false]
    intro col listed
    rw [grouped col listed, (members row inPool).cell_natCol listed]
    simp

theorem Lodged.no_reference (lodged : Lodged table nat pool rows held) (inPool : row ∈ pool) :
    identityHasChildReference table rows (idOf row) = false := by
  have minted := (members row inPool).minted
  refine any_eq_false.mpr fun ref registered => ?_
  rw [Bool.not_eq_true]
  refine any_eq_false.mpr fun other listed refers => ?_
  have target := of_decide_eq_true refers
  by_cases grouped : InGroup table nat other
  · have member := members other (lodged.inPool other (lodged.eq_held listed grouped))
    have empty := member.parentless ref registered
    rw [member.texts ref (table.references_known ref registered) _ target] at empty
    simp [cellNonEmpty, minted.2] at empty
  · rw [← minted.1] at target
    exact (lodged.apart other listed grouped row inPool).2 ref registered target

theorem Lodged.replace {old : Row} (lodged : Lodged table nat pool rows (some old))
    (inPool : row ∈ pool) {write : Row → Row} (written : write old = row) :
    Lodged table nat pool
      (rows.map fun other => if other idColumn = .text (idOf old) then write other else other)
      (some row) := by
  have oldPool := lodged.inPool old rfl
  have minted := (members old oldPool).minted.1
  have replaced : ∀ other ∈ rows, other idColumn = .text (idOf old) → other = old := by
    intro other listed isId
    rw [← minted] at isId
    exact (Option.some.inj (lodged.eq_held_of_id oldPool listed isId)).symm
  have same : ∀ other ∈ rows,
      InGroup table nat (if other idColumn = .text (idOf old) then write other else other) ↔
        InGroup table nat other := by
    intro other listed
    split
    · rename_i isId
      rw [replaced other listed isId, written]
      exact iff_of_true (members row inPool).grouped (members old oldPool).grouped
    · exact Iff.rfl
  refine ⟨?_, fun other isRow => Option.some.inj isRow ▸ inPool, ?_⟩
  · rw [filter_map]
    have kept : rows.filter ((fun row => decide (InGroup table nat row)) ∘ fun other =>
        if other idColumn = .text (idOf old) then write other else other) = [old] := by
      refine Eq.trans (filter_congr fun other listed => ?_) lodged.group
      exact decide_eq_decide.mpr (same other listed)
    rw [kept]
    simp [minted, written]
  · intro other listed notGrouped
    obtain ⟨source, inRows, rfl⟩ := mem_map.mp listed
    have sourceApart := (same source inRows).not.mp notGrouped
    have unchanged : ¬ source idColumn = .text (idOf old) := by
      intro isId
      rw [replaced source inRows isId] at sourceApart
      exact sourceApart (members old oldPool).grouped
    simp only [unchanged, ↓reduceIte]
    exact lodged.apart source inRows sourceApart

theorem Lodged.insert (lodged : Lodged table nat pool rows none) (inPool : row ∈ pool) :
    Lodged table nat pool (rows ++ [row]) (some row) := by
  have grouped := (members row inPool).grouped
  refine ⟨?_, fun other isRow => Option.some.inj isRow ▸ inPool, ?_⟩
  · rw [filter_append, lodged.group]
    simp [grouped]
  intro other listed notGrouped
  rcases mem_append.mp listed with earlier | isRow
  · exact lodged.apart other earlier notGrouped
  · rw [mem_singleton.mp isRow] at notGrouped
    exact absurd grouped notGrouped

theorem Lodged.upsertById (lodged : Lodged table nat pool rows held) (inPool : row ∈ pool)
    (same : ∀ old, held = some old → idOf old = idOf row) :
    Lodged table nat pool (upsertById table table.columns (dumpRow table row) rows)
      (some row) := by
  have member := members row inPool
  have id : coerceString (cellOf table.columns (dumpRow table row) idColumn) = idOf row := by
    rw [member.cell_id]
    rfl
  unfold Sync.upsertById
  simp only [id]
  cases held with
  | none =>
    have free : rowById rows (idOf row) = none := by
      refine find?_eq_none.mpr fun other listed isId => ?_
      have same := of_decide_eq_true isId
      rw [← member.minted.1] at same
      cases lodged.eq_held_of_id inPool listed same
    simp only [free, Option.isSome_none, Bool.false_eq_true, ↓reduceIte, member.insert_dumpRow]
    exact lodged.insert members inPool
  | some old =>
    have oldMember := members old (lodged.inPool old rfl)
    have ids := same old rfl
    have found := lodged.rowById_held members
    have sameId : old idColumn = row idColumn := by
      rw [oldMember.minted.1, member.minted.1, ids]
    have written := member.update_dumpRow oldMember sameId
    rw [← ids, found, Option.isSome_some]
    exact lodged.replace members inPool written

end Lodged

/-! ## One exchange -/

section Exchanges

variable [GoLayout] [GoValues] {table : IdentityTable} {nat : Column → Bytes} {pool : Set Row}
  {env : IdentityEnv} {node : IdentityNode} {incoming : Row}

/-- The incoming row replaces the other one: it is newer, or tied with equal content and a
smaller id. -/
def Supplants (table : IdentityTable) (incoming row : Row) : Prop :=
  lwwOrder (clockOf row) (clockOf incoming) = .lt ∨
    lwwOrder (clockOf row) (clockOf incoming) = .eq ∧ SameContent table row incoming ∧
      byteValues (idOf incoming) < byteValues (idOf row)

instance (table : IdentityTable) : DecidableRel (Supplants table) := fun _ _ =>
  inferInstanceAs (Decidable (_ ∨ _))

theorem not_supplants_self (table : IdentityTable) (row : Row) : ¬ Supplants table row row := by
  simp [Supplants, lwwOrder_self]

/-- Neither the skew guard nor a constraint keeps the row out. -/
structure Admits (env : IdentityEnv) (table : IdentityTable) (row : Row) : Prop where
  unrejected : ∀ rows, env.rejects rows (dumpRow table row) = false
  unskewed : ∀ localTS, skewQuarantinesIncoming env.skewGuard localTS (clockOf row) = false

structure IdentityOutcome (table : IdentityTable) (nat : Column → Bytes) (pool : Set Row)
    (node next : IdentityNode) (held : Option Row) (incoming : Row) : Prop where
  taken : (∀ row, held = some row → Supplants table incoming row) →
    Lodged table nat pool next.rows (some incoming)
  kept : ∀ row, held = some row → ¬ Supplants table incoming row → next.rows = node.rows
  tracked : ∀ row, held = some row → lwwOrder (clockOf row) (clockOf incoming) = .eq →
    ¬ SameContent table row incoming → table.natCols.map nat ∈ next.unresolved

theorem IdentityOutcome.of_some {pool : Set Row} {next : IdentityNode} {row : Row}
    (taken : Supplants table incoming row → Lodged table nat pool next.rows (some incoming))
    (kept : ¬ Supplants table incoming row → next.rows = node.rows)
    (tracked : lwwOrder (clockOf row) (clockOf incoming) = .eq → ¬ SameContent table row incoming →
      table.natCols.map nat ∈ next.unresolved) :
    IdentityOutcome table nat pool node next (some row) incoming :=
  ⟨fun wins => taken (wins row rfl), fun _ isRow => Option.some.inj isRow ▸ kept,
    fun _ isRow => Option.some.inj isRow ▸ tracked⟩

section Resolution

variable {row : Row} {contentEqual : Bool}
  (content : contentEqual = true ↔ SameContent table row incoming)
include content

theorem resolveIdentity_supplants (wins : Supplants table incoming row) :
    let disposition := resolveIdentity true (clockOf row) (idOf row) (clockOf incoming)
      (idOf incoming) contentEqual
    disposition = .adoptSameID ∧ idOf row = idOf incoming ∨ disposition = .collapse := by
  rcases wins with newer | ⟨tied, same, smaller⟩
  · by_cases ids : idOf row = idOf incoming
    · exact .inl ⟨by simp [resolveIdentity, newer, ids], ids⟩
    · exact .inr (by simp [resolveIdentity, newer, ids])
  have others : idOf incoming ≠ idOf row := by
    intro ids
    rw [ids] at smaller
    exact lt_irrefl _ smaller
  simp [resolveIdentity, tied, content.mpr same, others, smaller]

theorem resolveIdentity_keeps (loses : ¬ Supplants table incoming row) :
    let disposition := resolveIdentity true (clockOf row) (idOf row) (clockOf incoming)
      (idOf incoming) contentEqual
    disposition = .keepLocal ∨ disposition = .alreadyConverged ∨ disposition = .contentFault := by
  obtain ⟨notNewer, notSmaller⟩ := not_or.mp loses
  cases order : lwwOrder (clockOf row) (clockOf incoming) with
  | gt => exact .inl (by simp [resolveIdentity, order])
  | lt => exact absurd order notNewer
  | eq =>
    by_cases same : contentEqual = true
    · have notBelow : ¬ byteValues (idOf incoming) < byteValues (idOf row) := fun smaller =>
        notSmaller ⟨order, content.mp same, smaller⟩
      by_cases ids : idOf incoming = idOf row
      · exact .inr (.inl (by simp [resolveIdentity, order, same, ids]))
      · exact .inl (by simp [resolveIdentity, order, same, ids, notBelow])
    · exact .inr (.inr (by simp [resolveIdentity, order, same]))

theorem resolveIdentity_fault (tied : lwwOrder (clockOf row) (clockOf incoming) = .eq)
    (different : ¬ SameContent table row incoming) :
    resolveIdentity true (clockOf row) (idOf row) (clockOf incoming) (idOf incoming) contentEqual =
      .contentFault := by
  have unequal : contentEqual = false := Bool.eq_false_iff.mpr (content.not.mpr different)
  simp [resolveIdentity, tied, unequal]

end Resolution

omit [GoLayout] [GoValues] in
theorem mem_unresolved_track (node : IdentityNode) (key : RowKey) :
    key ∈ (node.track key).unresolved := by
  unfold IdentityNode.track
  by_cases tracked : key ∈ node.unresolved <;> simp [tracked]

variable (members : ∀ row ∈ pool, Member table nat row)
include members

variable {held : Option Row}

theorem mergeIdentityRow_lodged (lodged : Lodged table nat pool node.rows held)
    (inPool : incoming ∈ pool) (admitted : Admits env table incoming) :
    ∃ contentEqual, (∀ row, held = some row →
        (contentEqual = true ↔ SameContent table row incoming)) ∧
      mergeIdentityRow env table table.columns node (dumpRow table incoming) =
        applyDisposition env table table.columns node (dumpRow table incoming)
          ((held.map idOf).getD [])
          (resolveIdentity held.isSome ((held.map clockOf).getD []) ((held.map idOf).getD [])
            (clockOf incoming) (idOf incoming) contentEqual) := by
  have member := members incoming inPool
  have id : coerceString (cellOf table.columns (dumpRow table incoming) idColumn) =
      idOf incoming := by
    rw [member.cell_id]
    rfl
  have parentless : ((identityReferenceColumns table.name).head?.any fun ref =>
      cellNonEmpty (cellOf table.columns (dumpRow table incoming) ref)) = false := by
    rw [Option.any_eq_false]
    intro ref first
    have registered := mem_of_mem_head? first
    rw [cellOf_dumpRow incoming (table.references_known ref registered),
      member.parentless ref registered]
  refine ⟨(rowById node.rows ((held.map idOf).getD [])).any fun row =>
    identityContentEquivalent table.columns (present row) table.columns (dumpRow table incoming),
    ?_, ?_⟩
  · rintro row rfl
    rw [Option.map_some, Option.getD_some, lodged.rowById_held members, Option.any_some,
      identityContentEquivalent_dumpRow]
  · unfold mergeIdentityRow
    simp only [id, parentless, lodged.not_foreign members inPool, lodged.find_key members inPool,
      member.incomingTS_dumpRow, admitted.unskewed, Bool.false_eq_true, and_false, ↓reduceIte]
    rfl

/-- Merging a row of the pool succeeds, and replaces the held row exactly when it
supplants it. -/
theorem mergeIdentityRow_outcome
    (lodged : Lodged table nat pool node.rows held) (inPool : incoming ∈ pool)
    (admitted : Admits env table incoming) :
    ∃ landed next, mergeIdentityRow env table table.columns node (dumpRow table incoming) =
        .ok (landed, next) ∧ IdentityOutcome table nat pool node next held incoming := by
  have member := members incoming inPool
  have key := member.naturalKeyAt_dumpRow
  have accepted := admitted.unrejected node.rows
  obtain ⟨contentEqual, content, merged⟩ := mergeIdentityRow_lodged members lodged inPool admitted
  rw [merged]
  cases held with
  | none =>
    refine ⟨true, _, if_neg (by simp [accepted]), fun _ => ?_, nofun, nofun⟩
    exact lodged.upsertById members inPool nofun
  | some row =>
    have content := content row rfl
    have rowPool := lodged.inPool row rfl
    simp only [Option.isSome_some, Option.map_some, Option.getD_some]
    by_cases wins : Supplants table incoming row
    · have same : lwwOrder (clockOf row) (clockOf incoming) = .eq →
          SameContent table row incoming := by
        intro tied
        rcases wins with newer | ⟨-, same, -⟩
        · rw [newer] at tied
          cases tied
        · exact same
      rcases resolveIdentity_supplants content wins with ⟨adopts, ids⟩ | collapses
      · rw [adopts]
        refine ⟨true, _, if_neg (by simp [accepted]), .of_some (fun _ => ?_) (absurd wins)
          fun tied different => absurd (same tied) different⟩
        refine lodged.upsertById members inPool fun other isRow => ?_
        rw [← Option.some.inj isRow, ids]
      · rw [collapses]
        have unreferenced := lodged.no_reference members rowPool
        refine ⟨true, _, (if_neg (by simp [unreferenced])).trans (if_neg (by simp [accepted])),
          .of_some (fun _ => ?_) (absurd wins) fun tied different => absurd (same tied) different⟩
        exact lodged.replace members inPool (member.collapse_dumpRow (members row rowPool))
    · by_cases fault : lwwOrder (clockOf row) (clockOf incoming) = .eq ∧
          ¬ SameContent table row incoming
      · rw [resolveIdentity_fault content fault.1 fault.2]
        refine ⟨false, _, rfl, .of_some (absurd · wins) (fun _ => rfl) fun _ _ => ?_⟩
        rw [← key]
        exact mem_unresolved_track node _
      · rcases resolveIdentity_keeps content wins with keeps | keeps | keeps <;> rw [keeps]
        all_goals
          exact ⟨false, _, rfl, .of_some (absurd · wins) (fun _ => rfl)
            fun tied different => absurd ⟨tied, different⟩ fault⟩

end Exchanges

end Litevirt.Sync

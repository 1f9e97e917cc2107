import Litevirt.Lib.Transition
import Litevirt.Sync.MergeSpec

/-!
# Incarnations of a workload

How anti-entropy merges the copies of one workload row
(`internal/corrosion/anti_entropy_authority.go` and `mergeChunk`).  Between a tombstone and a
live row the incarnations, named by `created_at`, decide; otherwise the owner epoch and the
generation do, so a copy of a deleted incarnation can come back over a live row or an older
tombstone.  A delete is terminal only where such copies lack authority.
-/

namespace Litevirt.Sync

open Litevirt.Lib Litevirt.Hlc

/-- A full row of a workload, valid as `workloadMergeAuthority` reads it; `cells` are all its
columns. -/
structure WorkloadCopy where
  ownerEpoch : Int
  generation : Int
  createdAt : Bytes
  deletedAt : Bytes
  state : Bytes
  activeOperationID : Bytes
  identityHash : Bytes
  updatedAt : Bytes
  cells : List Cell
  deriving DecidableEq

namespace WorkloadCopy

def deleted (w : WorkloadCopy) : Bool := w.deletedAt ≠ []

/-- `provisionalWorkloadBarrier`. -/
def provisional (w : WorkloadCopy) : Bool :=
  w.state = bytes "creating" ∧ w.activeOperationID ≠ []

end WorkloadCopy

/-- `mergeAuthorityDecision`. -/
inductive MergeAuthority where
  | normal
  | keepLocal
  | applyIncoming
  | applyIncomingAndSweep
  deriving DecidableEq, Repr

section Decision

variable [GoLayout]

def incarnationAfter (a b : Bytes) : Bool :=
  match timeParse a, timeParse b with
  | some ta, some tb => tb < ta
  | _, _ => false

/-- `incarnationTombstoneDecision`; `none` when it leaves the decision to the authority. -/
def incarnationTombstoneDecision (row copy : WorkloadCopy) : Option MergeAuthority :=
  if row.createdAt = [] ∨ copy.createdAt = [] then none
  else
    let same : Bool := row.createdAt = copy.createdAt
    let incomingNewer := !same && incarnationAfter copy.createdAt row.createdAt
    match row.deleted, copy.deleted with
    | true, false => some (if incomingNewer then .applyIncoming else .keepLocal)
    | false, true => some (if same || incomingNewer then .applyIncomingAndSweep else .keepLocal)
    | true, true => if incomingNewer then some .applyIncomingAndSweep else none
    | false, false => none

def authorityDecision (row copy : WorkloadCopy) : MergeAuthority :=
  if row.ownerEpoch = copy.ownerEpoch ∧ row.generation = copy.generation then
    if row.deleted ∧ ¬ copy.deleted then .keepLocal
    else if copy.deleted then
      if row.identityHash ≠ copy.identityHash then .keepLocal else .applyIncomingAndSweep
    else .normal
  else if row.ownerEpoch ≤ copy.ownerEpoch ∧ row.generation ≤ copy.generation then
    if copy.deleted then .applyIncomingAndSweep else .applyIncoming
  else .keepLocal

def workloadParentAuthorityDecision (stored : Option WorkloadCopy) (copy : WorkloadCopy) :
    MergeAuthority :=
  match stored with
  | none => if copy.deleted then .applyIncomingAndSweep else .normal
  | some row =>
    if (row.deleted || copy.deleted) && !row.provisional && !copy.provisional then
      (incarnationTombstoneDecision row copy).getD (authorityDecision row copy)
    else authorityDecision row copy

end Decision

/-- The table of the workload: its name and its columns, all of which a copy carries. -/
structure WorkloadTable where
  name : String
  columns : List Column

section Merge

variable [GoLayout] [GoValues] (table : WorkloadTable) (skewGuard : Option Int)

/-- What a row without an authority decision goes through: the skew guard, the clocks and
`resolveTie`. -/
def keepsByClock (stored : Option WorkloadCopy) (copy : WorkloadCopy) : Bool :=
  if copy.updatedAt = [] then false
  else if skewQuarantinesIncoming skewGuard ((stored.map (·.updatedAt)).getD []) copy.updatedAt then
    true
  else
    match stored with
    | none => false
    | some row =>
      match lwwOrder row.updatedAt copy.updatedAt with
      | .gt => true
      | .lt => false
      | .eq => (resolveTie table.name table.columns row.cells copy.cells).keepLocal

/-- `mergeChunk` for the one copy of the workload in a payload. -/
def mergeWorkload (stored : Option WorkloadCopy) (copy : WorkloadCopy) : Option WorkloadCopy :=
  match workloadParentAuthorityDecision stored copy with
  | .keepLocal => stored
  | .applyIncoming | .applyIncomingAndSweep => some copy
  | .normal => if keepsByClock table skewGuard stored copy then stored else some copy

/-- A replica's row of the workload, with the incarnations whose tombstones it has merged. -/
structure WorkloadReplica where
  row : Option WorkloadCopy
  buried : List Bytes

def WorkloadReplica.merge (s : WorkloadReplica) (copy : WorkloadCopy) : Option WorkloadReplica :=
  some ⟨mergeWorkload table skewGuard s.row copy,
    if copy.deleted then copy.createdAt :: s.buried else s.buried⟩

end Merge

def WorkloadReplica.HoldsLive (s : WorkloadReplica) (incarnation : Bytes) : Prop :=
  ∃ row, s.row = some row ∧ row.deleted = false ∧ row.createdAt = incarnation

instance (s : WorkloadReplica) (incarnation : Bytes) : Decidable (s.HoldsLive incarnation) :=
  decidable_of_iff (s.row.any fun row => row.deleted = false ∧ row.createdAt = incarnation) (by
    unfold WorkloadReplica.HoldsLive
    cases s.row <;> simp)

/-- The copy has at least the authority of the row. -/
def Ranks (row copy : WorkloadCopy) : Prop :=
  row.ownerEpoch ≤ copy.ownerEpoch ∧ row.generation ≤ copy.generation

instance (row copy : WorkloadCopy) : Decidable (Ranks row copy) :=
  inferInstanceAs (Decidable (_ ∧ _))

theorem authorityDecision_of_not_ranks {row copy : WorkloadCopy} (lower : ¬ Ranks row copy) :
    authorityDecision row copy = .keepLocal := by
  unfold authorityDecision
  have notEqual : ¬ (row.ownerEpoch = copy.ownerEpoch ∧ row.generation = copy.generation) :=
    fun equal => lower ⟨equal.1.le, equal.2.le⟩
  unfold Ranks at lower
  rw [if_neg notEqual, if_neg lower]

section Order

variable [GoLayout]

theorem incarnationAfter_iff {a b : Bytes} :
    incarnationAfter a b = true ↔
      ∃ ta tb, timeParse a = some ta ∧ timeParse b = some tb ∧ tb < ta := by
  unfold incarnationAfter
  cases timeParse a <;> cases timeParse b <;> simp

theorem incarnationAfter_irrefl (a : Bytes) : incarnationAfter a a = false := by
  rw [Bool.eq_false_iff]
  intro after
  obtain ⟨ta, tb, readA, readB, later⟩ := incarnationAfter_iff.mp after
  rw [readA, Option.some.injEq] at readB
  omega

theorem incarnationAfter_trans {a b c : Bytes} (first : incarnationAfter a b = true)
    (second : incarnationAfter b c = true) : incarnationAfter a c = true := by
  obtain ⟨ta, tb, readA, readB, later⟩ := incarnationAfter_iff.mp first
  obtain ⟨tb', tc, readB', readC, later'⟩ := incarnationAfter_iff.mp second
  rw [readB, Option.some.injEq] at readB'
  exact incarnationAfter_iff.mpr ⟨ta, tc, readA, readC, by omega⟩

/-- The incarnation that comes is not before the stored one: it is the same, or a later one. -/
def Succeeds (row copy : WorkloadCopy) : Prop :=
  copy.createdAt = row.createdAt ∨ incarnationAfter copy.createdAt row.createdAt = true

instance (row copy : WorkloadCopy) : Decidable (Succeeds row copy) :=
  inferInstanceAs (Decidable (_ ∨ _))

/-- A copy that names its incarnation and is not provisional. -/
structure WorkloadCopy.Plain (w : WorkloadCopy) : Prop where
  stamped : w.createdAt ≠ []
  settled : w.provisional = false

/-- A copy at a row that is live as it is live, or deleted as it is deleted, is of the same or a
later incarnation, or lacks the authority of the row. -/
def InOrder (stored : Option WorkloadCopy) (copy : WorkloadCopy) : Prop :=
  ∀ row, stored = some row → row.deleted = copy.deleted → ¬ Succeeds row copy → ¬ Ranks row copy

instance (stored : Option WorkloadCopy) (copy : WorkloadCopy) : Decidable (InOrder stored copy) :=
  match stored with
  | none => .isTrue fun _ isRow => by cases isRow
  | some row =>
    decidable_of_iff (row.deleted = copy.deleted → ¬ Succeeds row copy → ¬ Ranks row copy)
      ⟨fun ordered _ isRow => Option.some.inj isRow ▸ ordered, fun ordered => ordered row rfl⟩

/-- What a merge of a copy into a row leaves: the row, and then a tombstone that came is not of a
later incarnation; or the copy, which is of the same or a later incarnation and stays deleted if
the row was. -/
inductive Outcome (row copy : WorkloadCopy) : Option WorkloadCopy → Prop where
  | kept (late : copy.deleted = true → incarnationAfter copy.createdAt row.createdAt = false ∧
      (row.createdAt = copy.createdAt → row.deleted = true)) : Outcome row copy (some row)
  | taken (succeeds : Succeeds row copy)
      (stays : copy.createdAt = row.createdAt → row.deleted = true → copy.deleted = true) :
      Outcome row copy (some copy)

theorem decision_of_tombstone {row copy : WorkloadCopy} (rowPlain : row.Plain) (plain : copy.Plain)
    (tombstone : (row.deleted || copy.deleted) = true) :
    workloadParentAuthorityDecision (some row) copy =
      (incarnationTombstoneDecision row copy).getD (authorityDecision row copy) := by
  simp [workloadParentAuthorityDecision, tombstone, rowPlain.settled, plain.settled]

/-- What is known of the incarnations whose tombstones were merged: a row is stored, it is not of an
earlier incarnation, and it is deleted if it is of the same one. -/
structure Terminal (s : WorkloadReplica) : Prop where
  plain : ∀ row, s.row = some row → row.Plain
  buried : ∀ incarnation ∈ s.buried, ∃ row, s.row = some row ∧
    incarnationAfter incarnation row.createdAt = false ∧
    (row.createdAt = incarnation → row.deleted = true)

theorem terminal_start : Terminal ⟨none, []⟩ where
  plain _ stored := by cases stored
  buried _ member := by cases member

theorem buried_of_taken {row copy : WorkloadCopy} {incarnation : Bytes}
    (succeeds : Succeeds row copy)
    (stays : copy.createdAt = row.createdAt → row.deleted = true → copy.deleted = true)
    (notEarlier : incarnationAfter incarnation row.createdAt = false)
    (deleted : row.createdAt = incarnation → row.deleted = true) :
    incarnationAfter incarnation copy.createdAt = false ∧
      (copy.createdAt = incarnation → copy.deleted = true) := by
  rcases succeeds with same | later
  · exact ⟨same ▸ notEarlier, fun isSame => stays same (deleted (same ▸ isSame))⟩
  refine ⟨?_, fun isSame => ?_⟩
  · rw [Bool.eq_false_iff]
    intro after
    rw [incarnationAfter_trans after later] at notEarlier
    cases notEarlier
  · rw [isSame, notEarlier] at later
    cases later

end Order

section Step

variable [GoLayout] [GoValues] (table : WorkloadTable) (skewGuard : Option Int)
  {copy : WorkloadCopy}

theorem mergeWorkload_keepLocal {stored : Option WorkloadCopy}
    (keeps : workloadParentAuthorityDecision stored copy = .keepLocal) :
    mergeWorkload table skewGuard stored copy = stored := by
  rw [mergeWorkload, keeps]

theorem outcome_of_authority {row : WorkloadCopy} (inOrder : InOrder (some row) copy)
    (alike : row.deleted = copy.deleted)
    (decides : workloadParentAuthorityDecision (some row) copy = authorityDecision row copy)
    (notLater : copy.deleted = true → incarnationAfter copy.createdAt row.createdAt = false) :
    Outcome row copy (mergeWorkload table skewGuard (some row) copy) := by
  have kept : Outcome row copy (some row) := .kept fun deleted =>
    ⟨notLater deleted, fun _ => alike.trans deleted⟩
  by_cases succeeds : Succeeds row copy
  · have taken : Outcome row copy (some copy) := .taken succeeds fun _ deleted => alike ▸ deleted
    unfold mergeWorkload
    split
    · exact kept
    · exact taken
    · exact taken
    · split
      · exact kept
      · exact taken
  · rw [mergeWorkload_keepLocal]
    · exact kept
    · rw [decides, authorityDecision_of_not_ranks (inOrder row rfl alike succeeds)]

theorem mergeWorkload_outcome {row : WorkloadCopy} (rowPlain : row.Plain) (plain : copy.Plain)
    (inOrder : InOrder (some row) copy) :
    Outcome row copy (mergeWorkload table skewGuard (some row) copy) := by
  have stamped : ¬ (row.createdAt = [] ∨ copy.createdAt = []) :=
    not_or.mpr ⟨rowPlain.stamped, plain.stamped⟩
  cases rowDeleted : row.deleted <;> cases copyDeleted : copy.deleted
  · refine outcome_of_authority table skewGuard inOrder (rowDeleted.trans copyDeleted.symm) ?_ ?_
    · simp [workloadParentAuthorityDecision, rowDeleted, copyDeleted]
    · simp [copyDeleted]
  · -- a tombstone for a live row
    have decides := decision_of_tombstone rowPlain plain (by simp [copyDeleted])
    simp only [incarnationTombstoneDecision, if_neg stamped, rowDeleted, copyDeleted,
      Option.getD_some] at decides
    split at decides
    · rename_i succeeds
      rw [mergeWorkload, decides]
      refine .taken ?_ fun _ _ => copyDeleted
      simp only [Bool.or_eq_true, Bool.and_eq_true, decide_eq_true_eq] at succeeds
      exact succeeds.imp Eq.symm And.right
    rename_i earlier
    rw [mergeWorkload_keepLocal table skewGuard decides]
    simp only [Bool.or_eq_true, Bool.and_eq_true, decide_eq_true_eq, not_or, not_and,
      Bool.not_eq_true', decide_eq_false_iff_not, Bool.not_eq_true] at earlier
    exact .kept fun _ => ⟨earlier.2 earlier.1, fun same => absurd same earlier.1⟩
  · -- a live copy for a tombstone
    have decides := decision_of_tombstone rowPlain plain (by simp [rowDeleted])
    simp only [incarnationTombstoneDecision, if_neg stamped, rowDeleted, copyDeleted,
      Option.getD_some] at decides
    split at decides
    · rename_i later
      rw [mergeWorkload, decides]
      simp only [Bool.and_eq_true, Bool.not_eq_true', decide_eq_false_iff_not] at later
      exact .taken (.inr later.2) fun same _ => absurd same.symm later.1
    · rw [mergeWorkload_keepLocal table skewGuard decides]
      exact .kept fun deleted => by simp [copyDeleted] at deleted
  · -- two tombstones
    have decides := decision_of_tombstone rowPlain plain (by simp [rowDeleted])
    simp only [incarnationTombstoneDecision, if_neg stamped, rowDeleted, copyDeleted] at decides
    split at decides
    · rename_i later
      rw [mergeWorkload, decides]
      simp only [Bool.and_eq_true] at later
      exact .taken (.inr later.2) fun _ _ => copyDeleted
    rename_i notLater
    refine outcome_of_authority table skewGuard inOrder (rowDeleted.trans copyDeleted.symm) decides
      fun _ => ?_
    by_cases same : row.createdAt = copy.createdAt
    · rw [same, incarnationAfter_irrefl]
    · simpa [same] using notLater

theorem mergeWorkload_none (copy : WorkloadCopy) :
    mergeWorkload table skewGuard none copy = some copy ∨
      mergeWorkload table skewGuard none copy = none ∧ copy.deleted = false := by
  unfold mergeWorkload workloadParentAuthorityDecision
  cases copy.deleted
  · simp only [Bool.false_eq_true, if_false]
    split
    · exact .inr ⟨rfl, trivial⟩
    · exact .inl rfl
  · exact .inl rfl

theorem Terminal.step {s s' : WorkloadReplica} (terminal : Terminal s)
    (plain : copy.Plain) (inOrder : InOrder s.row copy)
    (merged : s.merge table skewGuard copy = some s') : Terminal s' := by
  obtain ⟨stored, buried⟩ := s
  cases merged
  cases stored with
  | none =>
    have nothing : buried = [] := List.eq_nil_iff_forall_not_mem.mpr fun incarnation member => by
      obtain ⟨row, isRow, -⟩ := terminal.buried incarnation member
      cases isRow
    subst nothing
    rcases mergeWorkload_none table skewGuard copy with taken | ⟨dropped, live⟩
    · refine ⟨fun row isRow => ?_, fun incarnation member => ⟨copy, taken, ?_⟩⟩
      · rw [taken] at isRow
        cases isRow
        exact plain
      · split at member
        · rename_i deleted
          rw [List.mem_singleton.mp member]
          exact ⟨incarnationAfter_irrefl _, fun _ => deleted⟩
        · cases member
    · rw [dropped, live]
      exact terminal_start
  | some row =>
    have rowPlain := terminal.plain row rfl
    have outcome := mergeWorkload_outcome table skewGuard rowPlain plain inOrder
    generalize mergeWorkload table skewGuard (some row) copy = after at outcome
    have old : ∀ incarnation ∈ buried, incarnationAfter incarnation row.createdAt = false ∧
        (row.createdAt = incarnation → row.deleted = true) := by
      intro incarnation member
      obtain ⟨_, isRow, facts⟩ := terminal.buried incarnation member
      cases isRow
      exact facts
    cases outcome with
    | kept late =>
      refine ⟨fun _ isRow => Option.some.inj isRow ▸ rowPlain, fun incarnation member => ?_⟩
      refine ⟨row, rfl, ?_⟩
      split at member
      · rename_i deleted
        rcases List.mem_cons.mp member with rfl | earlier
        · exact late deleted
        · exact old incarnation earlier
      · exact old incarnation member
    | taken succeeds stays =>
      refine ⟨fun _ isRow => Option.some.inj isRow ▸ plain, fun incarnation member => ?_⟩
      refine ⟨copy, rfl, ?_⟩
      have kept : ∀ incarnation ∈ buried, incarnationAfter incarnation copy.createdAt = false ∧
          (copy.createdAt = incarnation → copy.deleted = true) := fun incarnation member =>
        buried_of_taken succeeds stays (old incarnation member).1 (old incarnation member).2
      split at member
      · rename_i deleted
        rcases List.mem_cons.mp member with rfl | earlier
        · exact ⟨incarnationAfter_irrefl _, fun _ => deleted⟩
        · exact kept incarnation earlier
      · exact kept incarnation member

/-- In every run of merges of plain copies that come in order, no live row of an incarnation is held
once a tombstone of it was merged. -/
theorem delete_terminal_of_inOrder {s : WorkloadReplica}
    (run : Run (WorkloadReplica.merge table skewGuard)
      (fun s copy => copy.Plain ∧ InOrder s.row copy) ⟨none, []⟩ s) :
    ∀ incarnation ∈ s.buried, ¬ s.HoldsLive incarnation := by
  have terminal : Terminal s := run.invariant Terminal terminal_start
    fun _ _ _ allowed merged terminal =>
      terminal.step table skewGuard allowed.1 allowed.2 merged
  rintro incarnation member ⟨row, stored, live, same⟩
  obtain ⟨_, isRow, -, deleted⟩ := terminal.buried incarnation member
  rw [stored, Option.some.injEq] at isRow
  subst isRow
  rw [deleted same] at live
  cases live

end Step

instance (w : WorkloadCopy) : Decidable w.Plain :=
  decidable_of_iff (w.createdAt ≠ [] ∧ w.provisional = false)
    ⟨fun both => ⟨both.1, both.2⟩, fun plain => ⟨plain.stamped, plain.settled⟩⟩

def vmsTable : WorkloadTable := ⟨"vms", []⟩

/-- A copy of the row: its owner epoch, its incarnation and whether it is deleted. -/
def vmCopy (ownerEpoch : Int) (createdAt deletedAt : String) : WorkloadCopy :=
  ⟨ownerEpoch, 0, bytes createdAt, bytes deletedAt, bytes "running", [], [], [], []⟩

attribute [local instance] strictLayout plainValues

/-- A transfer that raced the delete does not revive the row. -/
theorem transfer_stays_deleted :
    ∃ s, Run (WorkloadReplica.merge vmsTable none)
        (fun s copy => copy.Plain ∧ InOrder s.row copy) ⟨none, []⟩ s ∧
      s.buried = [bytes "2026-08-01T00:00:00Z"] ∧
      ∀ incarnation ∈ s.buried, ¬ s.HoldsLive incarnation :=
  (Run.reaches [vmCopy 1 "2026-08-01T00:00:00Z" "", vmCopy 1 "2026-08-01T00:00:00Z" "gone",
    vmCopy 2 "2026-08-01T00:00:00Z" ""] (by decide +kernel)).imp fun _ ⟨run, buried⟩ =>
      ⟨run, buried, delete_terminal_of_inOrder vmsTable none run⟩

/-- After the workload is created again, the same transfer replaces the new row by the deleted
incarnation. -/
theorem transfer_revives_deleted :
    ∃ s, Run (WorkloadReplica.merge vmsTable none) (fun _ copy => copy.Plain) ⟨none, []⟩ s ∧
      bytes "2026-08-01T00:00:00Z" ∈ s.buried ∧ s.HoldsLive (bytes "2026-08-01T00:00:00Z") :=
  Run.reaches [vmCopy 1 "2026-08-01T00:00:00Z" "gone", vmCopy 0 "2026-08-02T00:00:00Z" "",
    vmCopy 2 "2026-08-01T00:00:00Z" ""] (by decide +kernel)

end Litevirt.Sync

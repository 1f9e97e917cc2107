import Litevirt.Lib.Transition
import Litevirt.Proofs.Ledger

/-!
# An abandoned proof is never executed

Every interleaving of the three transactions at one destination is a run.  The
marks remember what the run itself stored: start checkpoints and claims by this
host.  Nothing is assumed about the database the run starts from.
-/

namespace Litevirt.Proofs

open Litevirt.Lib Litevirt.Claims Host Bool

theorem isSpace_space : isSpace ' ' = true := by decide

theorem words_sqlTrim (text : List Char) : words isSpace (sqlTrim text) = words isSpace text := by
  have only : ∀ c : Char, decide (c = ' ') = true → isSpace c = true := by
    intro c blank
    rw [of_decide_eq_true blank]
    exact isSpace_space
  rw [sqlTrim, words_rdropWhile only, words_dropWhile only]

inductive Op where
  | abandon (proofID : String) (key : ClaimKey) (reason now : String)
  | claim (id executor : String) (fence : Option TermFence) (now : String)
  | startCheckpoint (id now : String)

namespace Op

/-- The transaction would execute the proof, or take it to execute it. -/
def Executes (id : String) : Op → Prop
  | abandon .. => False
  | claim id' .. => id' = id
  | startCheckpoint id' _ => id' = id

end Op

def Host.apply (h : Host) : Op → Except ProofError Host
  | .abandon proofID key reason now => h.abandonProof proofID key reason now
  | .claim id executor fence now => h.claimActionProofFenced id executor fence now
  | .startCheckpoint id now => h.appendProofStepUnlessAbandoned id startAttempted now

def Host.Abandoned (h : Host) (id : String) : Prop := (h.abandoned.find id).isSome = true

instance (h : Host) (id : String) : Decidable (h.Abandoned id) :=
  inferInstanceAs (Decidable (_ = true))

def Host.startRecorded (h : Host) (id : String) : Bool :=
  match h.proofs.find id with
  | some row => !row.deleted && proofStepDone row.stepState startAttempted
  | none => false

/-- A host and what the transactions of the run stored: the proofs whose start
checkpoint was recorded and those this host claimed. -/
structure Ledger where
  host : Host
  starts : List String
  claims : List String

namespace Ledger

/-- Perform a transaction; a failed one changes nothing. -/
def perform (l : Ledger) (op : Op) : Ledger :=
  match l.host.apply op with
  | .error _ => l
  | .ok host =>
    match op with
    | .abandon .. => { l with host := host }
    | .claim id executor _ _ =>
      { l with
        host := host
        claims := if executor = l.host.hostName then id :: l.claims else l.claims }
    | .startCheckpoint id _ =>
      { l with
        host := host
        starts := if host.startRecorded id then id :: l.starts else l.starts }

def step (l : Ledger) (op : Op) : Option Ledger := some (l.perform op)

/-- No abandoned proof has a start checkpoint or, for a reschedule or a
relocate, a claim by this host. -/
def Exclusive (l : Ledger) : Prop :=
  ∀ id, l.host.Abandoned id → id ∉ l.starts ∧
    ∀ row, l.host.proofs.find id = some row →
      row.action = .reschedule ∨ row.action = .relocate → id ∉ l.claims

end Ledger

namespace Host

/-- A live row that `AbandonProof` does not hold for executed. -/
structure Unexecuted (hostName : String) (row : ProofRow) : Prop where
  unclaimed : row.action ≠ .promote → row.executorHost ≠ hostName ∧ row.executorHost = ""
  unstarted : proofStepDone row.stepState startAttempted = false

variable {h : Host} {row : ProofRow} {proofID : String}

theorem unexecuted_of_executionOf_none (free : h.executionOf proofID row = none) :
    Unexecuted h.hostName row := by
  unfold executionOf at free
  split at free
  · cases free
  split at free
  · cases free
  rename_i notForeign
  split at free
  · cases free
  rename_i notOwn
  refine ⟨fun notPromote => ?_, ?_⟩
  · have other : row.executorHost ≠ h.hostName := fun own => notOwn ⟨own, notPromote⟩
    exact ⟨other, by_contra fun held => notForeign ⟨held, other⟩⟩
  · rw [Option.map_eq_none_iff, List.find?_eq_none] at free
    simpa using free startAttempted (by simp [proofStartSteps])

variable {h' : Host} {now : String}

/-- A stored abandonment leaves the rest alone, and its live row is unexecuted. -/
theorem abandonProof_ok {key : ClaimKey} {reason : String}
    (done : h.abandonProof proofID key reason now = .ok h') :
    h' = h ∨ ∃ stored, h' = { h with abandoned := h.abandoned.put proofID stored } ∧
      ∀ row, h.proofs.find proofID = some row → row.deleted = false →
        Unexecuted h.hostName row := by
  unfold abandonProof at done
  split at done
  · cases done
  split at done
  · cases done
    exact .inl rfl
  simp only at done
  split at done
  · cases done
  rename_i free
  cases done
  refine .inr ⟨_, rfl, fun row found live => ?_⟩
  rw [found] at free
  simp only [live, false_eq_true, ↓reduceIte] at free
  exact unexecuted_of_executionOf_none free

variable {id : String} {executor : String}

/-- A claim succeeds for a claimable row of a proof that is not abandoned. -/
theorem claimActionProofFenced_ok {fence : Option TermFence}
    (done : h.claimActionProofFenced id executor fence now = .ok h') :
    ¬ h.Abandoned id ∧ h'.hostName = h.hostName ∧ h'.abandoned = h.abandoned ∧
      ∃ row, h.proofs.find id = some row ∧ claimable row executor = true ∧
        h'.proofs = h.proofs.put id (claimRow row executor now) := by
  unfold claimActionProofFenced at done
  split at done
  · cases done
  rename_i kept
  split at done
  · cases done
  rename_i row found
  split at done
  · cases done
  rename_i fit
  have taken : claimable row executor = true := by simpa using fit
  refine ⟨kept, ?_⟩
  split at done
  · cases done
    exact ⟨rfl, rfl, row, found, taken, rfl⟩
  split at done
  · cases done
    exact ⟨rfl, rfl, row, found, taken, rfl⟩
  split at done
  · cases done
  · cases done
    exact ⟨rfl, rfl, row, found, taken, rfl⟩

theorem appendProofStepUnlessAbandoned_ok {step : List Char}
    (done : h.appendProofStepUnlessAbandoned id step now = .ok h') :
    ¬ h.Abandoned id ∧ (h.proofs.find id = none ∧ h' = h ∨
      ∃ row, h.proofs.find id = some row ∧
        h' = { h with proofs := h.proofs.put id (appendStep row step now) }) := by
  unfold appendProofStepUnlessAbandoned at done
  split at done
  · cases done
  rename_i kept
  split at done
  · rename_i missing
    cases done
    exact ⟨kept, .inl ⟨missing, rfl⟩⟩
  · rename_i row found
    cases done
    exact ⟨kept, .inr ⟨row, found, rfl⟩⟩

variable {op : Op}

theorem apply_of_abandoned (gone : h.Abandoned id) (executes : op.Executes id) :
    h.apply op = .error .abandoned := by
  cases op with
  | abandon => exact executes.elim
  | claim id' executor fence now | startCheckpoint id' now =>
    cases executes
    exact if_pos gone

/-- The executor column shows a claim of a host that is not displaced any more. -/
def Held (hostName : String) (row : ProofRow) : Prop :=
  row.executorHost = hostName ∨ row.executorHost ≠ ""

structure Progress (hostName : String) (row row' : ProofRow) : Prop where
  action : row'.action = row.action
  deleted : row'.deleted = row.deleted
  steps : ∀ done, proofStepDone row.stepState done = true →
    proofStepDone row'.stepState done = true
  held : Held hostName row → Held hostName row'

theorem Progress.refl (hostName : String) (row : ProofRow) : Progress hostName row row :=
  ⟨rfl, rfl, fun _ done => done, fun held => held⟩

theorem Progress.claim {hostName : String} (now : String) (taken : claimable row executor = true) :
    Progress hostName row (claimRow row executor now) := by
  refine ⟨rfl, rfl, fun _ done => done, fun held => ?_⟩
  -- A claim never displaces another executor.
  have free : row.executorHost = "" ∨ row.executorHost = executor := by
    simp only [claimable, and_eq_true, or_eq_true, decide_eq_true_eq] at taken
    exact taken.2
  change executor = hostName ∨ executor ≠ ""
  rcases free with empty | same
  · rcases held with own | nonempty
    · by_cases unnamed : executor = ""
      · exact .inl (by rw [unnamed, ← empty, own])
      · exact .inr unnamed
    · exact absurd empty nonempty
  · rw [← same]
    exact held

theorem Progress.append (hostName : String) (row : ProofRow) (step : List Char) (now : String) :
    Progress hostName row (appendStep row step now) := by
  unfold appendStep
  split
  · exact .refl hostName row
  refine ⟨rfl, rfl, fun done before => decide_eq_true ?_, fun held => held⟩
  rw [words_sqlTrim, words_append_sep isSpace_space]
  exact List.mem_append_left _ (of_decide_eq_true before)

variable (done : h.apply op = .ok h')
include done

theorem apply_hostName : h'.hostName = h.hostName := by
  cases op with
  | abandon proofID key reason now =>
    rcases abandonProof_ok done with rfl | ⟨stored, rfl, -⟩ <;> rfl
  | claim claimed executor fence now => exact (claimActionProofFenced_ok done).2.1
  | startCheckpoint checked now =>
    obtain ⟨-, ⟨-, rfl⟩ | ⟨-, -, rfl⟩⟩ := appendProofStepUnlessAbandoned_ok done <;> rfl

/-- A transaction changes at most the row of one proof that is not abandoned, with progress. -/
theorem apply_rows :
    h'.proofs = h.proofs ∨ ∃ id row row', ¬ h.Abandoned id ∧ h.proofs.find id = some row ∧
      Progress h.hostName row row' ∧ h'.proofs = h.proofs.put id row' := by
  cases op with
  | abandon proofID key reason now =>
    rcases abandonProof_ok done with rfl | ⟨stored, rfl, -⟩ <;> exact .inl rfl
  | claim claimed executor fence now =>
    obtain ⟨kept, -, -, row, found, taken, proofs⟩ := claimActionProofFenced_ok done
    exact .inr ⟨claimed, row, _, kept, found, .claim now taken, proofs⟩
  | startCheckpoint checked now =>
    obtain ⟨kept, ⟨-, rfl⟩ | ⟨row, found, rfl⟩⟩ := appendProofStepUnlessAbandoned_ok done
    · exact .inl rfl
    · exact .inr ⟨checked, row, _, kept, found, .append _ row startAttempted now, rfl⟩

theorem apply_progress (found : h.proofs.find id = some row) :
    ∃ row', h'.proofs.find id = some row' ∧ Progress h.hostName row row' := by
  rcases apply_rows done with same | ⟨changed, before, after, -, changedFound, progress, proofs⟩
  · exact ⟨row, by rw [same]; exact found, .refl _ row⟩
  rw [proofs, Table.find_put]
  split
  · rename_i same
    rw [same, changedFound, Option.some.injEq] at found
    exact ⟨after, rfl, found ▸ progress⟩
  · exact ⟨row, found, .refl _ row⟩

theorem apply_find_of_abandoned (gone : h.Abandoned id) :
    h'.proofs.find id = h.proofs.find id := by
  rcases apply_rows done with same | ⟨changed, before, after, kept, -, -, proofs⟩
  · rw [same]
  · rw [proofs, Table.find_put_of_ne]
    rintro rfl
    exact kept gone

theorem apply_abandoned (id : String) :
    (h.Abandoned id → h'.Abandoned id) ∧
      (h'.Abandoned id → h.Abandoned id ∨ h'.proofs = h.proofs ∧
        ∀ row, h.proofs.find id = some row → row.deleted = false → Unexecuted h.hostName row) := by
  cases op with
  | abandon proofID key reason now =>
    rcases abandonProof_ok done with rfl | ⟨stored, rfl, unexecuted⟩
    · exact ⟨fun gone => gone, .inl⟩
    simp only [Abandoned, Table.find_put]
    split
    · rename_i same
      subst same
      exact ⟨fun _ => rfl, fun _ => .inr ⟨trivial, unexecuted⟩⟩
    · exact ⟨fun gone => gone, .inl⟩
  | claim claimed executor fence now =>
    obtain ⟨-, -, abandoned, -⟩ := claimActionProofFenced_ok done
    rw [Abandoned, Abandoned, abandoned]
    exact ⟨fun gone => gone, .inl⟩
  | startCheckpoint checked now =>
    obtain ⟨-, ⟨-, rfl⟩ | ⟨-, -, rfl⟩⟩ := appendProofStepUnlessAbandoned_ok done
    all_goals exact ⟨fun gone => gone, .inl⟩

end Host

namespace Ledger

/-- The marks are stored on live rows of proofs that are not abandoned, and what
was abandoned since the origin has no executed live row. -/
structure Invariant (origin : Host) (l : Ledger) : Prop where
  starts : ∀ id ∈ l.starts, ∃ row, l.host.proofs.find id = some row ∧ row.deleted = false ∧
    proofStepDone row.stepState startAttempted = true ∧ ¬ l.host.Abandoned id
  claims : ∀ id ∈ l.claims, ∃ row, l.host.proofs.find id = some row ∧ row.deleted = false ∧
    Host.Held l.host.hostName row ∧ (row.action ≠ .promote → ¬ l.host.Abandoned id)
  stored : ∀ id, l.host.Abandoned id → ¬ origin.Abandoned id →
    ∀ row, l.host.proofs.find id = some row → row.deleted = false →
      Host.Unexecuted l.host.hostName row

theorem not_held_of_unexecuted {hostName : String} {row : ProofRow}
    (unexecuted : Host.Unexecuted hostName row) (notPromote : row.action ≠ .promote) :
    ¬ Host.Held hostName row := by
  obtain ⟨other, empty⟩ := unexecuted.unclaimed notPromote
  rintro (own | nonempty)
  · exact other own
  · exact nonempty empty

variable {origin : Host} {l : Ledger}

theorem Invariant.apply {h' : Host} {op : Op} (invariant : Invariant origin l)
    (done : l.host.apply op = .ok h') : Invariant origin { l with host := h' } := by
  have name := apply_hostName done
  refine ⟨fun id member => ?_, fun id member => ?_, fun id gone fresh row' found' live' => ?_⟩
  · obtain ⟨row, found, live, started, kept⟩ := invariant.starts id member
    obtain ⟨row', found', progress⟩ := apply_progress done found
    refine ⟨row', found', progress.deleted.trans live, progress.steps _ started, fun gone => ?_⟩
    rcases (apply_abandoned done id).2 gone with before | ⟨-, unexecuted⟩
    · exact kept before
    · rw [(unexecuted row found live).unstarted] at started
      cases started
  · obtain ⟨row, found, live, held, kept⟩ := invariant.claims id member
    obtain ⟨row', found', progress⟩ := apply_progress done found
    refine ⟨row', found', progress.deleted.trans live, ?_, fun notPromote gone => ?_⟩
    · simp only [name]
      exact progress.held held
    · rw [progress.action] at notPromote
      rcases (apply_abandoned done id).2 gone with before | ⟨-, unexecuted⟩
      · exact kept notPromote before
      · exact not_held_of_unexecuted (unexecuted row found live) notPromote held
  · simp only [name]
    rcases (apply_abandoned done id).2 gone with before | ⟨proofs, unexecuted⟩
    · rw [apply_find_of_abandoned done before] at found'
      exact invariant.stored id before fresh row' found' live'
    · rw [proofs] at found'
      exact unexecuted row' found' live'

theorem Invariant.perform (invariant : Invariant origin l) (op : Op) :
    Invariant origin (l.perform op) := by
  unfold Ledger.perform
  split
  · exact invariant
  rename_i h' done
  have next := invariant.apply done
  split
  · exact next
  · rename_i id executor fence now
    refine ⟨next.starts, ?_, next.stored⟩
    split
    · rename_i own
      refine List.forall_mem_cons.mpr ⟨?_, next.claims⟩
      obtain ⟨kept, name, abandoned, row, found, taken, proofs⟩ :=
        claimActionProofFenced_ok done
      simp only [Host.claimable, and_eq_true, not_eq_true'] at taken
      refine ⟨Host.claimRow row executor now, by rw [proofs, Table.find_put_self], taken.1.1,
        .inl ?_, fun _ gone => kept ?_⟩
      · rw [name]
        exact own
      · rw [Host.Abandoned, ← abandoned]
        exact gone
    · exact next.claims
  · refine ⟨?_, next.claims, next.stored⟩
    split
    · rename_i stored
      refine List.forall_mem_cons.mpr ⟨?_, next.starts⟩
      obtain ⟨kept, changed⟩ := appendProofStepUnlessAbandoned_ok done
      unfold Host.startRecorded at stored
      split at stored
      · rename_i row found
        simp only [and_eq_true, not_eq_true'] at stored
        refine ⟨row, found, stored.1, stored.2, ?_⟩
        obtain ⟨-, rfl⟩ | ⟨-, -, rfl⟩ := changed <;> exact kept
      · cases stored
    · exact next.starts

theorem Invariant.exclusive (invariant : Invariant origin l) : l.Exclusive := by
  refine fun id gone => ⟨fun member => ?_, fun row found kind member => ?_⟩
  · obtain ⟨-, -, -, -, kept⟩ := invariant.starts id member
    exact kept gone
  obtain ⟨row', found', -, -, kept⟩ := invariant.claims id member
  rw [found, Option.some.injEq] at found'
  subst found'
  refine kept ?_ gone
  rcases kind with kind | kind <;> rw [kind] <;> decide

theorem perform_abandoned {id : String} (op : Op) (gone : l.host.Abandoned id) :
    (l.perform op).host.Abandoned id := by
  unfold perform
  split
  · exact gone
  · rename_i h' done
    have kept := (apply_abandoned done id).1 gone
    split <;> exact kept

/-- For every database and every interleaving of the three transactions: an
abandoned proof has no start checkpoint and, for a reschedule or a relocate, no
claim by this host; the live row of a proof the run abandoned shows neither; and
from the abandonment on every claim and every start checkpoint of the proof
fails and changes nothing. -/
theorem abandonment_excludes_execution (origin : Host) {middle final : Ledger}
    (before : Run step (fun _ _ => True) ⟨origin, [], []⟩ middle)
    (after : Run step (fun _ _ => True) middle final) :
    final.Exclusive ∧
      (∀ id, final.host.Abandoned id → ¬ origin.Abandoned id →
        ∀ row, final.host.proofs.find id = some row → row.deleted = false →
          proofStepDone row.stepState startAttempted = false ∧
          (row.action = .reschedule ∨ row.action = .relocate →
            row.executorHost ≠ final.host.hostName)) ∧
      ∀ id, middle.host.Abandoned id → ∀ op : Op, op.Executes id →
        final.host.apply op = .error .abandoned ∧ final.perform op = final := by
  have start : Invariant origin ⟨origin, [], []⟩ :=
    ⟨nofun, nofun, fun id gone fresh => absurd gone fresh⟩
  have preserved : ∀ l op next, True → step l op = some next → Invariant origin l →
      Invariant origin next := by
    rintro l op next - ⟨⟩ invariant
    exact invariant.perform op
  have invariant := after.invariant (Invariant origin) (before.invariant _ start preserved)
    preserved
  refine ⟨invariant.exclusive, fun id gone fresh row found live => ?_,
    fun id gone op executes => ?_⟩
  · have unexecuted := invariant.stored id gone fresh row found live
    refine ⟨unexecuted.unstarted, fun kind => (unexecuted.unclaimed ?_).1⟩
    rcases kind with kind | kind <;> rw [kind] <;> decide
  have still : final.host.Abandoned id := by
    refine after.invariant (fun l => l.host.Abandoned id) gone ?_
    rintro l op next - ⟨⟩ gone
    exact perform_abandoned op gone
  have failed := apply_of_abandoned still executes
  refine ⟨failed, ?_⟩
  unfold perform
  rw [failed]

def promoteDestination : Host :=
  ⟨"h", Table.empty.put "p" ⟨.promote, .prepared, "", [], "", "", false⟩, .empty, .empty⟩

/-- A promote that was claimed and then abandoned never records its start. -/
theorem abandoned_promote_never_starts :
    ∃ middle, Run step (fun _ _ => True) ⟨promoteDestination, [], []⟩ middle ∧
      middle.host.Abandoned "p" ∧ "p" ∈ middle.claims ∧
      middle.host.apply (.startCheckpoint "p" "t3") = .error .abandoned :=
  have run : Run step (fun _ _ => True) ⟨promoteDestination, [], []⟩
      ((Ledger.perform ⟨promoteDestination, [], []⟩ (.claim "p" "h" none "t1")).perform
        (.abandon "p" ⟨.vm, "web", 0, 0, ""⟩ "build failed" "t2")) :=
    .tail (.tail (.refl _) trivial rfl) trivial rfl
  ⟨_, run, by decide, by decide,
    ((abandonment_excludes_execution _ run (.refl _)).2.2 "p" (by decide)
      (.startCheckpoint "p" "t3") rfl).1⟩

end Ledger

end Litevirt.Proofs

import Litevirt.Lib.Journal
import Litevirt.Lib.Outcome
import Litevirt.Lib.Transition

/-!
# Receiving replicated mutations

A node keeps every committed write as an entry of its mutation log and pushes the entries to its
peers.  A batch is applied in one transaction: entries recorded as seen are left out, the others
are applied, recorded and, when the node relays, logged again under their original origin and
timestamp.  Any failure rolls the whole batch back.
-/

namespace Litevirt.Sync

open Litevirt.Lib List

/-- A committed write: the statements in their encoded form, the host that made
it and the hybrid timestamp it made it at. -/
structure Mutation where
  hlc : String
  origin : String
  stmts : String
  deriving DecidableEq, Repr

/-- A mutation under the number the sender's log gave it. -/
structure MutationEntry extends Mutation where
  seq : Nat
  deriving DecidableEq, Repr

instance lawfulKeys : LawfulBEq (String × String) := inferInstance

/-- What `mutation_seen` is keyed by. -/
def Mutation.key (mutation : Mutation) : String × String :=
  (mutation.origin, mutation.hlc)

inductive ApplyError where
  | schemaMissing (text : String)
  | other (text : String)

/-- The statement-level rules the batch runs each entry through.  They read and
write the tables of the transaction, with the park of early updates beside them. -/
structure EntryRules (σ Statement : Type) where
  unmarshal : String → Except String (List Statement)
  validateReceivedMutationEntry : List Statement → Except String Unit
  validateGuardedOperationClaim : σ → List Statement → Except String Unit
  legacyWorkloadDeleteEntryDecision : σ → List Statement → Except String (Bool × Bool)
  refusedRemintsInEntry : σ → List Statement → Except String (List String)
  remintCredentialStatement : Statement → List String → Bool
  applyStatementLWW : σ → Statement → String → Except ApplyError σ
  replayParked : σ → Statement → σ
  withoutRefusedRemints : List Statement → List String → List Statement
  absorbUnlatchedSecretWrite : σ → List Statement → Except String σ
  retireReadmittedCredentials : σ → List Statement → Except String σ
  absorbUnlatchedMembershipWrite : σ → List Statement → Except String σ

/-- What a committed batch did with an entry: it had been seen before, it was a
pre-authority workload delete that is acknowledged without being run, or its
statements were run. -/
inductive Treatment where
  | seen
  | skipped
  | applied
  deriving DecidableEq, Repr

/-- Where the database itself can fail during a batch. -/
inductive Stage where
  | beginTx
  | filterUnseen (key : String × String)
  | apply (key : String × String)
  | recordSeen (key : String × String)
  | recordInMutationLog (key : String × String)
  | commit

/-- The failures of one batch: the error text of each stage that fails. -/
def Faults := Stage → Option String

def Faults.pass (faults : Faults) (stage : Stage) (heading : String) : Except String Unit :=
  match faults stage with
  | none => .ok ()
  | some text => .error (heading ++ text)

variable {σ Statement : Type}

def under {α : Type} (heading : String) : Except String α → Except String α
  | .ok value => .ok value
  | .error text => .error (heading ++ text)

/-- The origin and number of an entry as its error messages name them. -/
def MutationEntry.place (entry : MutationEntry) : String :=
  s!"(origin={entry.origin} seq={entry.seq}): "

/-- The error a failed statement rolls its batch back with. -/
def ApplyError.report (entry : MutationEntry) : ApplyError → String
  | .schemaMissing text => "schema-missing on receiver (upgrade required): " ++ text
  | .other text => "apply mutation " ++ entry.place ++ text

/-- Run the statements of an entry one after the other, leaving out the
credential statements of refused re-mints. -/
def applyStatements (rules : EntryRules σ Statement) (entry : MutationEntry)
    (refused : List String) : σ → List Statement → Except String σ
  | tables, [] => .ok tables
  | tables, s :: rest =>
    if rules.remintCredentialStatement s refused then
      applyStatements rules entry refused tables rest
    else
      match rules.applyStatementLWW tables s entry.hlc with
      | .error failure => .error (failure.report entry)
      | .ok written =>
        applyStatements rules entry refused (rules.replayParked written s) rest

/-- The body of the batch loop: decode, validate and run one unseen entry. -/
def applyEntry (rules : EntryRules σ Statement) (faults : Faults) (tables : σ)
    (entry : MutationEntry) : Except String (σ × Treatment) := do
  let stmts ← under ("decode mutation entry " ++ entry.place) (rules.unmarshal entry.stmts)
  if stmts.isEmpty then
    throw s!"mutation entry has no statements (origin={entry.origin} seq={entry.seq})"
  under ("validate guarded mutation entry " ++ entry.place)
    (rules.validateReceivedMutationEntry stmts)
  under ("validate guarded operation claim " ++ entry.place)
    (rules.validateGuardedOperationClaim tables stmts)
  let (legacyDelete, applyLegacy) ←
    under ("validate legacy workload delete entry " ++ entry.place)
      (rules.legacyWorkloadDeleteEntryDecision tables stmts)
  if legacyDelete && !applyLegacy then
    return (tables, .skipped)
  let applying := "apply mutation " ++ entry.place
  let refused ← under applying (rules.refusedRemintsInEntry tables stmts)
  faults.pass (.apply entry.key) applying
  let written ← applyStatements rules entry refused tables stmts
  let absorbed ← under applying
    (rules.absorbUnlatchedSecretWrite written (rules.withoutRefusedRemints stmts refused))
  let retired ← under applying (rules.retireReadmittedCredentials absorbed stmts)
  let settled ← under applying (rules.absorbUnlatchedMembershipWrite retired stmts)
  return (settled, .applied)

/-- The batch loop over the unseen entries, with what became of each. -/
def applyEntries (rules : EntryRules σ Statement) (faults : Faults) :
    σ → List MutationEntry → Except String (σ × List (MutationEntry × Treatment))
  | tables, [] => .ok (tables, [])
  | tables, entry :: rest => do
      let (written, treatment) ← applyEntry rules faults tables entry
      let (settled, treated) ← applyEntries rules faults written rest
      return (settled, (entry, treatment) :: treated)

/-- The replicated tables, the record of entries already processed, and the log
of the entries this node sends to its peers. -/
structure Database (σ : Type) where
  tables : σ
  mutationSeen : List (String × String)
  mutationLog : Journal Mutation

/-- Keep the entries that are not in `mutation_seen`. -/
def filterUnseen (faults : Faults) (mutationSeen : List (String × String)) :
    List MutationEntry → Except String (List MutationEntry)
  | [] => .ok []
  | e :: rest => do
      faults.pass (.filterUnseen e.key)
        s!"query mutation_seen (origin={e.origin} hlc={e.hlc}): "
      let unseen ← filterUnseen faults mutationSeen rest
      return if e.key ∈ mutationSeen then unseen else e :: unseen

/-- Insert the entries into `mutation_seen`; one that is there stays as it is. -/
def recordSeen (faults : Faults) :
    List (String × String) → List MutationEntry → Except String (List (String × String))
  | mutationSeen, [] => .ok mutationSeen
  | mutationSeen, e :: rest => do
      faults.pass (.recordSeen e.key)
        s!"record mutation_seen (origin={e.origin} hlc={e.hlc}): "
      recordSeen faults (mutationSeen.insert e.key) rest

/-- Log the entries for the peers behind this node, under their own origin. -/
def recordInMutationLog (faults : Faults) :
    Journal Mutation → List MutationEntry → Except String (Journal Mutation)
  | mutationLog, [] => .ok mutationLog
  | mutationLog, e :: rest => do
      faults.pass (.recordInMutationLog e.key)
        s!"record forwarded mutation (origin={e.origin} hlc={e.hlc}): "
      recordInMutationLog faults (mutationLog.append e.toMutation) rest

/-- Log the unseen entries if either side takes this node for a relay. -/
def fanOutUnseen (faults : Faults) (fanOut : Bool) (mutationLog : Journal Mutation)
    (unseen : List MutationEntry) : Except String (Journal Mutation) :=
  if fanOut then recordInMutationLog faults mutationLog unseen else .ok mutationLog

/-- A committed batch: the database after it, what became of each entry, and the
number acknowledged to the sender. -/
structure Committed (σ : Type) where
  db : Database σ
  treated : List (MutationEntry × Treatment)
  appliedUpTo : Nat

/-- Apply a batch in one transaction.  An error is a rollback: nothing of the
batch is kept. -/
def applyRemoteMutationsFrom (rules : EntryRules σ Statement) (faults : Faults)
    (isRelay pushedAsRelay : Bool) (db : Database σ) (entries : List MutationEntry) :
    Except String (Committed σ) :=
  match entries.getLast? with
  | none => .ok { db, treated := [], appliedUpTo := 0 }
  | some last => do
      faults.pass .beginTx "begin tx: "
      let unseen ← filterUnseen faults db.mutationSeen entries
      let (tables, treated) ← applyEntries rules faults db.tables unseen
      let mutationSeen ← recordSeen faults db.mutationSeen unseen
      let mutationLog ← fanOutUnseen faults (isRelay || pushedAsRelay) db.mutationLog unseen
      faults.pass .commit "commit: "
      -- the number of the last entry sent, duplicates included, so that the
      -- sender moves past them
      return {
        db := { tables, mutationSeen, mutationLog }
        treated :=
          (entries.filter fun e => e.key ∈ db.mutationSeen).map (·, .seen) ++ treated
        appliedUpTo := last.seq }

variable {faults : Faults} {entries : List MutationEntry}

theorem filterUnseen_ok {mutationSeen : List (String × String)} {unseen : List MutationEntry}
    (filtered : filterUnseen faults mutationSeen entries = .ok unseen) :
    unseen = entries.filter fun e => e.key ∉ mutationSeen := by
  induction entries generalizing unseen with
  | nil =>
    cases filtered
    rfl
  | cons e rest ih =>
    obtain ⟨_, _, queried⟩ := bind_eq_ok filtered
    obtain ⟨others, remaining, kept⟩ := bind_eq_ok queried
    cases kept
    rw [filter_cons, ← ih remaining]
    by_cases seen : e.key ∈ mutationSeen <;> simp [seen]

theorem recordSeen_ok {before after : List (String × String)}
    (recorded : recordSeen faults before entries = .ok after) (key : String × String) :
    key ∈ after ↔ key ∈ before ∨ ∃ e ∈ entries, e.key = key := by
  induction entries generalizing before with
  | nil =>
    cases recorded
    simp
  | cons e rest ih =>
    obtain ⟨_, _, remaining⟩ := bind_eq_ok recorded
    rw [ih remaining, mem_insert_iff]
    simp only [mem_cons, exists_eq_or_imp]
    tauto

theorem recordInMutationLog_ok {before after : Journal Mutation}
    (logged : recordInMutationLog faults before entries = .ok after) :
    after = before.appendAll (entries.map MutationEntry.toMutation) := by
  induction entries generalizing before with
  | nil =>
    cases logged
    rfl
  | cons e rest ih =>
    obtain ⟨_, _, remaining⟩ := bind_eq_ok logged
    exact ih remaining

theorem under_ok {α : Type} {heading : String} {result : Except String α} {value : α}
    (passed : under heading result = .ok value) : result = .ok value := by
  cases result with
  | error _ => cases passed
  | ok _ => exact passed

variable {before after : σ} {rules : EntryRules σ Statement} {entry : MutationEntry}
  {treatment : Treatment}

/-- An entry is either run, or set aside as a workload delete from before
workload authority that the tables do not allow. -/
theorem applyEntry_ok (ran : applyEntry rules faults before entry = .ok (after, treatment)) :
    treatment = .applied ∨ treatment = .skipped ∧
      ∃ stmts, rules.unmarshal entry.stmts = .ok stmts ∧
        rules.legacyWorkloadDeleteEntryDecision before stmts = .ok (true, false) := by
  obtain ⟨stmts, decoded, rest⟩ := bind_eq_ok ran
  split at rest
  · cases rest
  obtain ⟨_, _, received⟩ := bind_eq_ok rest
  obtain ⟨_, _, claimed⟩ := bind_eq_ok received
  obtain ⟨⟨legacyDelete, applyLegacy⟩, decision, decided⟩ := bind_eq_ok claimed
  dsimp only at decided
  split at decided
  case isTrue skips =>
      cases decided
      obtain ⟨rfl, rfl⟩ : legacyDelete = true ∧ applyLegacy = false := by simpa using skips
      exact .inr ⟨rfl, stmts, under_ok decoded, under_ok decision⟩
  case isFalse =>
      obtain ⟨_, _, judged⟩ := bind_eq_ok decided
      obtain ⟨_, _, begun⟩ := bind_eq_ok judged
      obtain ⟨_, _, written⟩ := bind_eq_ok begun
      obtain ⟨_, _, absorbed⟩ := bind_eq_ok written
      obtain ⟨_, _, retired⟩ := bind_eq_ok absorbed
      obtain ⟨_, _, settled⟩ := bind_eq_ok retired
      cases settled
      exact .inl rfl

variable {treated : List (MutationEntry × Treatment)}

/-- The loop treats the unseen entries in order, each exactly once. -/
theorem applyEntries_ok (ran : applyEntries rules faults before entries = .ok (after, treated)) :
    treated.map Prod.fst = entries := by
  induction entries generalizing before treated with
  | nil =>
    cases ran
    rfl
  | cons entry rest ih =>
    obtain ⟨⟨written, treatment⟩, _, remaining⟩ := bind_eq_ok ran
    obtain ⟨⟨settled, others⟩, loop, result⟩ := bind_eq_ok remaining
    cases result
    rw [map_cons, ih loop]

theorem applyEntries_mem (ran : applyEntries rules faults before entries = .ok (after, treated))
    (member : (entry, treatment) ∈ treated) :
    treatment = .applied ∨ treatment = .skipped ∧
      ∃ tables stmts, rules.unmarshal entry.stmts = .ok stmts ∧
        rules.legacyWorkloadDeleteEntryDecision tables stmts = .ok (true, false) := by
  induction entries generalizing before treated with
  | nil =>
    cases ran
    cases member
  | cons first rest ih =>
    obtain ⟨⟨written, outcome⟩, one, remaining⟩ := bind_eq_ok ran
    obtain ⟨⟨settled, others⟩, loop, result⟩ := bind_eq_ok remaining
    cases result
    rcases mem_cons.mp member with same | later
    · cases same
      rcases applyEntry_ok one with applied | ⟨skipped, decision⟩
      · exact .inl applied
      · exact .inr ⟨skipped, before, decision⟩
    · exact ih loop later

/-- What a committed batch of at least one entry has done. -/
structure Applied (rules : EntryRules σ Statement) (faults : Faults) (forwards : Bool)
    (db : Database σ) (entries : List MutationEntry) (result : Committed σ) : Prop where
  treated : ∃ loop,
    applyEntries rules faults db.tables (entries.filter fun e => e.key ∉ db.mutationSeen) =
      .ok (result.db.tables, loop) ∧
    result.treated =
      (entries.filter fun e => e.key ∈ db.mutationSeen).map (·, .seen) ++ loop
  seen : ∀ key, key ∈ result.db.mutationSeen ↔
    key ∈ db.mutationSeen ∨ ∃ e ∈ entries, e.key = key
  logged : result.db.mutationLog =
    if forwards then db.mutationLog.appendAll
      ((entries.filter fun e => e.key ∉ db.mutationSeen).map MutationEntry.toMutation)
    else db.mutationLog
  acknowledged : ∃ last, entries.getLast? = some last ∧ result.appliedUpTo = last.seq

/-- A batch commits as a whole, or it was empty. -/
theorem applyRemoteMutationsFrom_ok {isRelay pushedAsRelay : Bool} {db : Database σ}
    {result : Committed σ}
    (committed : applyRemoteMutationsFrom rules faults isRelay pushedAsRelay db entries =
      .ok result) :
    (entries = [] ∧ result = { db, treated := [], appliedUpTo := 0 }) ∨
      Applied rules faults (isRelay || pushedAsRelay) db entries result := by
  unfold applyRemoteMutationsFrom at committed
  cases final : entries.getLast? with
  | none =>
    rw [final] at committed
    cases committed
    exact .inl ⟨getLast?_eq_none_iff.mp final, rfl⟩
  | some last =>
    rw [final] at committed
    obtain ⟨_, _, begun⟩ := bind_eq_ok committed
    obtain ⟨unseen, filtered, kept⟩ := bind_eq_ok begun
    obtain ⟨⟨tables, loop⟩, ran, settled⟩ := bind_eq_ok kept
    obtain ⟨mutationSeen, recorded, rest⟩ := bind_eq_ok settled
    obtain ⟨mutationLog, forwarded, ending⟩ := bind_eq_ok rest
    obtain ⟨_, _, done⟩ := bind_eq_ok ending
    cases done
    rw [filterUnseen_ok filtered] at ran recorded forwarded
    refine .inr ⟨⟨loop, ran, rfl⟩, ?_, ?_, last, final, rfl⟩
    · intro key
      rw [recordSeen_ok recorded]
      constructor
      · rintro (before | ⟨e, unseenEntry, rfl⟩)
        · exact .inl before
        · exact .inr ⟨e, mem_of_mem_filter unseenEntry, rfl⟩
      · rintro (before | ⟨e, member, rfl⟩)
        · exact .inl before
        · by_cases known : e.key ∈ db.mutationSeen
          · exact .inl known
          · exact .inr ⟨e, mem_filter.mpr ⟨member, by simpa using known⟩, rfl⟩
    · cases forwards : isRelay || pushedAsRelay with
      | false =>
        rw [forwards] at forwarded
        cases forwarded
        rfl
      | true =>
        rw [forwards] at forwarded
        exact recordInMutationLog_ok forwarded

end Litevirt.Sync

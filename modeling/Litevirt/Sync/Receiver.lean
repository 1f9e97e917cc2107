import Litevirt.Sync.Wal

/-!
# Each entry takes effect once

The batches a node receives, its own writes, and the pruning of its log and of its record of seen
entries, with the entries that were run and those that were logged.  A batch filters its entries
against the record as it stood at its start, and the record knows neither this node's own writes
nor what pruning removed.  Away from those, no entry is run twice and none is logged twice.
-/

namespace Litevirt.Sync

open Litevirt.Lib List Journal

variable {σ Statement : Type}

/-- A node with its history: the entries whose statements were run, one element
for each run; those that entered the log; its own writes; and the entries whose
`mutation_seen` row was pruned. -/
structure Receiver (σ : Type) where
  db : Database σ
  applied : List (String × String)
  entered : List (String × String)
  written : List (String × String)
  forgotten : List (String × String)

namespace Receiver

inductive Action (σ : Type) where
  | receive (faults : Faults) (isRelay pushedAsRelay : Bool) (entries : List MutationEntry)
  | execute (hlc stmts : String) (tables : σ)
  | pruneMutationSeen
  | pruneMutationLog (drops : Nat × Mutation → Bool)

/-- The canonical layout of a timestamp: 13 digits, 4 digits and the node. -/
def validHLC (hlc : String) : Bool :=
  let text := hlc.toList
  19 ≤ text.length && (text.take 13).all Char.isDigit && text[13]? == some '-' &&
    ((text.drop 14).take 4).all Char.isDigit && text[18]? == some '-'

/-- The physical milliseconds a canonical timestamp starts with. -/
def physicalMillis (hlc : String) : Nat :=
  (hlc.toList.take 13).foldl (fun value digit => 10 * value + (digit.toNat - '0'.toNat)) 0

/-- `mutationSeenRetention` in milliseconds. -/
def mutationSeenRetention : Nat := 15 * 60 * 1000

/-- The row lies further behind the newest canonical row than the retention. -/
def expired (mutationSeen : List (String × String)) (key : String × String) : Bool :=
  let newest := (mutationSeen.filter fun row => validHLC row.2).foldl
    (fun newest row => max newest (physicalMillis row.2)) 0
  validHLC key.2 && physicalMillis key.2 + mutationSeenRetention < newest

def fresh (tables : σ) : Receiver σ where
  db := { tables, mutationSeen := [], mutationLog := .empty }
  applied := []
  entered := []
  written := []
  forgotten := []

/-- The entry has been recorded here, or is one of this node's own. -/
def Known (node : Receiver σ) (key : String × String) : Prop :=
  key ∈ node.db.mutationSeen ∨ key ∈ node.written ∨ key ∈ node.forgotten

instance (node : Receiver σ) (key : String × String) : Decidable (node.Known key) :=
  inferInstanceAs (Decidable (_ ∨ _ ∨ _))

/-- Install a database and note which entries were run and which rows the log got. -/
def install (node : Receiver σ) (db : Database σ) (ran : List (String × String)) : Receiver σ :=
  { node with
    db
    applied := node.applied ++ ran
    entered := node.entered ++
      (db.mutationLog.since node.db.mutationLog.next).map fun row => row.2.key }

def ranKeys (treated : List (MutationEntry × Treatment)) : List (String × String) :=
  (treated.filter fun entry => entry.2 = .applied).map fun entry => entry.1.key

def step (rules : EntryRules σ Statement) (host : String) (node : Receiver σ) :
    Action σ → Option (Receiver σ)
  | .receive faults isRelay pushedAsRelay entries =>
    match applyRemoteMutationsFrom rules faults isRelay pushedAsRelay node.db entries with
    | .error _ => some node
    | .ok result => some (node.install result.db (ranKeys result.treated))
  | .execute hlc stmts tables =>
    let mutation : Mutation := { hlc, origin := host, stmts }
    let db := { node.db with tables, mutationLog := node.db.mutationLog.append mutation }
    some { node.install db [mutation.key] with written := mutation.key :: node.written }
  | .pruneMutationSeen =>
    let drops := expired node.db.mutationSeen
    some { node with
      db := { node.db with mutationSeen := node.db.mutationSeen.filter fun key => !drops key }
      forgotten := node.db.mutationSeen.filter drops ++ node.forgotten }
  | .pruneMutationLog drops =>
    some (node.install
      { node.db with mutationLog := node.db.mutationLog.prune drops } [])

/-- What a batch must meet: it names no entry twice, none of this node's own
writes, and none whose record was pruned.  A write of the node's own gets a new timestamp. -/
def Separate (host : String) (node : Receiver σ) : Action σ → Prop
  | .receive _ _ _ entries =>
    (entries.map fun e => e.key).Nodup ∧
      ∀ e ∈ entries, e.key ∉ node.written ∧ e.key ∉ node.forgotten
  | .execute hlc _ _ => ¬ node.Known (host, hlc)
  | _ => True

def unseenKeys (node : Receiver σ) (entries : List MutationEntry) : List (String × String) :=
  (entries.filter fun e => e.key ∉ node.db.mutationSeen).map fun e => e.key

variable {node : Receiver σ} {entries : List MutationEntry}

theorem entered_sublist {log : Journal Mutation} {forwards : Bool}
    (logged : log = if forwards then node.db.mutationLog.appendAll
      ((entries.filter fun e => e.key ∉ node.db.mutationSeen).map MutationEntry.toMutation)
      else node.db.mutationLog) :
    ((log.since node.db.mutationLog.next).map fun row => row.2.key).Sublist
      (node.unseenKeys entries) := by
  cases forwards with
  | false =>
    rw [logged, if_neg Bool.false_ne_true, since_next]
    exact nil_sublist _
  | true =>
    have added := node.db.mutationLog.added_appendAll
      ((entries.filter fun e => e.key ∉ node.db.mutationSeen).map MutationEntry.toMutation)
    have keys := congrArg (List.map Mutation.key) added
    rw [map_map, map_map] at keys
    rw [logged]
    exact keys ▸ List.Sublist.refl _

/-- No entry stands twice in the history, and the history holds known entries only. -/
structure Once (node : Receiver σ) (history : List (String × String)) : Prop where
  nodup : history.Nodup
  known : ∀ key ∈ history, node.Known key

variable {next : Receiver σ} {history : List (String × String)} {added : List (String × String)}

theorem Once.extend (once : node.Once history)
    (addedOnce : added.Nodup) (unknown : ∀ key ∈ added, ¬ node.Known key)
    (keeps : ∀ key, node.Known key → next.Known key) (learns : ∀ key ∈ added, next.Known key) :
    next.Once (history ++ added) where
  nodup := nodup_append.mpr ⟨once.nodup, addedOnce, fun key before other new same =>
    unknown other new (same ▸ once.known key before)⟩
  known key member := by
    rcases mem_append.mp member with before | new
    · exact keeps key (once.known key before)
    · exact learns key new

theorem Once.keep (once : node.Once history) (keeps : ∀ key, node.Known key → next.Known key) :
    next.Once history :=
  ⟨once.nodup, fun key member => keeps key (once.known key member)⟩

theorem Once.receive {faults : Faults} {isRelay pushedAsRelay : Bool} (once : node.Once history)
    (separate : node.Separate host (.receive faults isRelay pushedAsRelay entries))
    (sublist : added.Sublist (node.unseenKeys entries))
    (recorded : ∀ key, key ∈ next.db.mutationSeen ↔
      key ∈ node.db.mutationSeen ∨ ∃ e ∈ entries, e.key = key)
    (written : next.written = node.written) (forgotten : next.forgotten = node.forgotten) :
    next.Once (history ++ added) := by
  obtain ⟨distinct, foreign⟩ := separate
  have unseen (key) (new : key ∈ added) :
      ∃ e ∈ entries, e.key = key ∧ e.key ∉ node.db.mutationSeen := by
    obtain ⟨e, member, rfl⟩ := mem_map.mp (sublist.subset new)
    obtain ⟨present, absent⟩ := mem_filter.mp member
    exact ⟨e, present, rfl, by simpa using absent⟩
  refine once.extend ?_ ?_ ?_ ?_
  · exact ((filter_sublist.map _).nodup distinct).sublist sublist
  · intro key new
    obtain ⟨e, present, rfl, absent⟩ := unseen key new
    have away := foreign e present
    rintro (seen | own | pruned)
    · exact absent seen
    · exact away.1 own
    · exact away.2 pruned
  · intro key known
    rw [Known, recorded, written, forgotten]
    exact known.imp_left .inl
  · intro key new
    obtain ⟨e, present, rfl, _⟩ := unseen key new
    exact .inl ((recorded _).mpr (.inr ⟨e, present, rfl⟩))

theorem Once.execute {key : String × String} (once : node.Once history) (unknown : ¬ node.Known key)
    (seen : next.db.mutationSeen = node.db.mutationSeen)
    (written : next.written = key :: node.written) (forgotten : next.forgotten = node.forgotten) :
    next.Once (history ++ [key]) := by
  refine once.extend (pairwise_singleton _ _) ?_ ?_ ?_
  · intro other new
    rw [mem_singleton.mp new]
    exact unknown
  · intro other known
    rw [Known, seen, written, forgotten]
    exact known.imp_right (Or.imp_left (mem_cons_of_mem _))
  · intro other new
    rw [mem_singleton.mp new, Known, written]
    exact .inr (.inl mem_cons_self)

/-- Both histories of a node are without repetition. -/
def Orderly (node : Receiver σ) : Prop :=
  node.Once node.applied ∧ node.Once node.entered

theorem orderly_fresh (tables : σ) : (fresh tables).Orderly :=
  ⟨⟨nodup_nil, nofun⟩, ⟨nodup_nil, nofun⟩⟩

theorem orderly_idle {db : Database σ} (applied : node.Once node.applied)
    (entered : node.Once node.entered)
    (unlogged : db.mutationLog.since node.db.mutationLog.next = [])
    (keeps : ∀ key, node.Known key → (node.install db []).Known key) :
    (node.install db []).Orderly := by
  refine ⟨?_, ?_⟩
  · simpa [install] using applied.keep keeps
  · simpa [install, unlogged] using entered.keep keeps

theorem orderly_step {rules : EntryRules σ Statement} {host : String} {action : Action σ}
    (separate : node.Separate host action) (stepped : step rules host node action = some next)
    (orderly : node.Orderly) : next.Orderly := by
  obtain ⟨applied, entered⟩ := orderly
  cases action with
  | receive faults isRelay pushedAsRelay entries =>
    simp only [step] at stepped
    split at stepped
    · cases stepped
      exact ⟨applied, entered⟩
    rename_i result committed
    cases stepped
    rcases applyRemoteMutationsFrom_ok committed with ⟨rfl, rfl⟩ | batch
    · exact orderly_idle applied entered (since_next _) fun _ known => known
    obtain ⟨loop, ran, treated⟩ := batch.treated
    refine ⟨applied.receive separate ?_ batch.seen rfl rfl,
      entered.receive separate (entered_sublist batch.logged) batch.seen rfl rfl⟩
    have skipsKnown : ∀ known : List MutationEntry,
        ranKeys (known.map (·, .seen) ++ loop) = ranKeys loop := by
      simp [ranKeys, filter_map, Function.comp_def]
    rw [treated, skipsKnown, unseenKeys, ← applyEntries_ok ran, map_map]
    exact filter_sublist.map _
  | execute hlc stmts tables =>
    cases stepped
    have unknown : ¬ node.Known (host, hlc) := separate
    have added : (node.db.mutationLog.append ⟨hlc, host, stmts⟩).since
        node.db.mutationLog.next = [(node.db.mutationLog.next, ⟨hlc, host, stmts⟩)] := by
      rw [since_append (Nat.le_refl _), since_next]
      rfl
    refine ⟨applied.execute unknown rfl rfl rfl, ?_⟩
    dsimp only [install]
    rw [added]
    exact entered.execute unknown rfl rfl rfl
  | pruneMutationSeen =>
    cases stepped
    refine ⟨applied.keep ?_, entered.keep ?_⟩ <;>
    · rintro key (seen | own | pruned)
      · by_cases dropped : expired node.db.mutationSeen key
        · exact .inr (.inr (mem_append_left _ (mem_filter.mpr ⟨seen, dropped⟩)))
        · exact .inl (mem_filter.mpr ⟨seen, by simpa using dropped⟩)
      · exact .inr (.inl own)
      · exact .inr (.inr (mem_append_right _ pruned))
  | pruneMutationLog drops =>
    cases stepped
    exact orderly_idle applied entered (since_prune_next _ _) fun _ known => known

/-- In every history whose batches are separate from what the node knows, no
entry is run on the tables twice and none enters the log twice; and whatever the
history, a batch that fails changes nothing. -/
theorem takesEffectOnce {rules : EntryRules σ Statement} {host : String} {tables : σ}
    {node : Receiver σ} (run : Run (step rules host) (Separate host) (fresh tables) node) :
    (∀ key, node.applied.count key ≤ 1 ∧ node.entered.count key ≤ 1) ∧
      ∀ faults isRelay pushedAsRelay entries message,
        applyRemoteMutationsFrom rules faults isRelay pushedAsRelay node.db entries =
          .error message →
        step rules host node (.receive faults isRelay pushedAsRelay entries) = some node := by
  have orderly : node.Orderly :=
    run.invariant Orderly (orderly_fresh tables) fun _ _ _ => orderly_step
  refine ⟨fun key => ⟨?_, ?_⟩, ?_⟩
  · exact nodup_iff_count_le_one.mp orderly.1.nodup key
  · exact nodup_iff_count_le_one.mp orderly.2.nodup key
  · intro faults isRelay pushedAsRelay entries message failed
    simp only [step, failed]

structure Container where
  hostName : String
  name : String
  ownerEpoch : Int
  specGeneration : Int
  deletedAt : Option String
  updatedAt : String
  deriving DecidableEq, Repr

/-- The parameters of `legacyContainerDeleteSQL`. -/
structure ContainerDelete where
  deletedAt : String
  updatedAt : String
  hostName : String
  name : String
  deriving DecidableEq, Repr

def ContainerDelete.names (delete : ContainerDelete) (row : Container) : Bool :=
  row.hostName == delete.hostName && row.name == delete.name

def ContainerDelete.run (delete : ContainerDelete) (containers : List Container) :
    List Container :=
  containers.map fun row =>
    if delete.names row then
      { row with deletedAt := some delete.deletedAt, updatedAt := delete.updatedAt }
    else row

/-- The rules for entries that hold one container delete each: it is run only on
a row that no authority has claimed yet. -/
def containerRules (decode : String → Except String (List ContainerDelete)) :
    EntryRules (List Container) ContainerDelete where
  unmarshal := decode
  validateReceivedMutationEntry _ := .ok ()
  validateGuardedOperationClaim _ _ := .ok ()
  legacyWorkloadDeleteEntryDecision containers stmts :=
    match stmts with
    | [parent] =>
      match containers.find? parent.names with
      | none => .ok (true, false)
      | some row => .ok (true, row.ownerEpoch == 0 && row.specGeneration == 0)
    | _ => .error "legacy container delete entry has an unexpected statement sequence"
  refusedRemintsInEntry _ _ := .ok []
  remintCredentialStatement _ _ := false
  applyStatementLWW containers delete _ := .ok (delete.run containers)
  replayParked containers _ := containers
  withoutRefusedRemints stmts _ := stmts
  absorbUnlatchedSecretWrite containers _ := .ok containers
  retireReadmittedCredentials containers _ := .ok containers
  absorbUnlatchedMembershipWrite containers _ := .ok containers

/-- Every entry of the examples carries the same statement. -/
def deleteCt1 : String → Except String (List ContainerDelete) :=
  fun _ => .ok [⟨"2026-01-02T00:00:00Z", "2026-01-02T00:00:00Z", "h2", "ct1"⟩]

def ct1 (ownerEpoch : Int) : Container :=
  ⟨"h2", "ct1", ownerEpoch, 0, none, "2026-01-01T00:00:00Z"⟩

def entryAt (seq : Nat) (origin hlc : String) : MutationEntry :=
  { hlc, origin, stmts := "[delete ct1]", seq }

instance (host : String) (node : Receiver σ) :
    (action : Action σ) → Decidable (node.Separate host action)
  | .receive _ _ _ _ => inferInstanceAs (Decidable (_ ∧ _))
  | .execute _ _ _ => inferInstanceAs (Decidable (¬ _))
  | .pruneMutationSeen => inferInstanceAs (Decidable True)
  | .pruneMutationLog _ => inferInstanceAs (Decidable True)

def firstHLC : String := "1767225600000-0000-h2"
def secondHLC : String := "1767225600000-0001-h2"
def laterHLC : String := "1767226560000-0000-h2"
def ownHLC : String := "1767225600000-0000-h1"

/-- A relay that gets a batch, writes itself, and gets parts of the batch again in another
order. -/
theorem repeated_entries_run_once :
    ∃ node, Run (step (containerRules deleteCt1) "h1") (Separate "h1") (fresh [ct1 0]) node ∧
      node.entered =
        [("h2", firstHLC), ("h2", secondHLC), ("h1", ownHLC), ("h2", laterHLC)] ∧
      ∀ key, node.applied.count key ≤ 1 ∧ node.entered.count key ≤ 1 :=
  (Run.reaches [
      .receive (fun _ => none) true false [entryAt 1 "h2" firstHLC, entryAt 2 "h2" secondHLC],
      .execute ownHLC "[delete ct1]" [ct1 0],
      .receive (fun _ => none) true false [entryAt 3 "h2" laterHLC, entryAt 1 "h2" firstHLC]]
    (by decide +kernel)).imp fun _ ⟨run, entered⟩ => ⟨run, entered, (takesEffectOnce run).1⟩

/-- The entry was run and logged more than once. -/
def Repeated (key : String × String) (node : Receiver (List Container)) : Prop :=
  1 < node.applied.count key ∧ 1 < node.entered.count key

instance (key : String × String) (node : Receiver (List Container)) :
    Decidable (Repeated key node) :=
  inferInstanceAs (Decidable (_ ∧ _))

/-- A relay runs and logs an entry again when one batch holds it twice, when it
comes back after its record was pruned, and when it is the relay's own write. -/
theorem entries_run_twice :
    ((exec (step (containerRules deleteCt1) "h1") [
        .receive (fun _ => none) true false [entryAt 1 "h2" firstHLC, entryAt 1 "h2" firstHLC]]
      (fresh [ct1 0])).any fun node => Repeated ("h2", firstHLC) node) ∧
    ((exec (step (containerRules deleteCt1) "h1") [
        .receive (fun _ => none) true false [entryAt 1 "h2" firstHLC, entryAt 2 "h2" laterHLC],
        .pruneMutationSeen,
        .receive (fun _ => none) true false [entryAt 1 "h2" firstHLC]]
      (fresh [ct1 0])).any fun node => Repeated ("h2", firstHLC) node) ∧
    ((exec (step (containerRules deleteCt1) "h1") [
        .execute ownHLC "[delete ct1]" [ct1 0],
        .receive (fun _ => none) true false [entryAt 1 "h1" ownHLC]]
      (fresh [ct1 0])).any fun node => Repeated ("h1", ownHLC) node) := by
  refine ⟨?_, ?_, ?_⟩ <;> decide +kernel

end Receiver

end Litevirt.Sync

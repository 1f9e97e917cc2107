import Litevirt.Sync.Gate
import Litevirt.Sync.Wal

/-!
# Updates that arrive before their row

`internal/corrosion/parked_updates.go`: an update of a row that is not here is parked in memory
and replayed when an INSERT creates the row.  Parking and removal wait for the commit of their
batch, while the replay reads the park inside the batch, so an update is replayed unless it came
in the batch of the INSERT itself.

The model follows one table, and rows are named by the texts of their keys.
-/

namespace Litevirt.Sync

open Litevirt.Lib Litevirt.Hlc List Option

/-! ## The park -/

def parkedUpdatesMax : Nat := 4096

/-- `parkedUpdateTTL`, in nanoseconds. -/
def parkedUpdateTTL : Int := 10 * 60 * 1000000000

structure ParkedUpdate where
  update : UpdateStatement
  /-- The timestamp of the entry that held the update. -/
  hlc : Bytes
  parkedAt : Int

def parkedRowKey (table : String) (pk : RowKey) : Bytes :=
  bytes table ++ pk.flatMap fun value => 0 :: value

/-- The updates that wait for their rows, numbered in the order they were parked. -/
abbrev Park := Journal ParkedUpdate

def ParkedUpdate.expired (parked : ParkedUpdate) (now : Int) : Bool :=
  ¬ now - parked.parkedAt < parkedUpdateTTL

namespace Park

/-- `add`: what has expired goes first, and then the oldest while the park is full. -/
def add (park : Park) (now : Int) (update : UpdateStatement) (hlc : Bytes) : Park :=
  ((park.prune fun row => row.2.expired now).keepNewest (parkedUpdatesMax - 1)).append
    ⟨update, hlc, now⟩

def byRow (park : Park) (table : String) (key : Bytes) : List (Nat × ParkedUpdate) :=
  park.rows.filter fun row => parkedRowKey table row.2.update.key = key

/-- `pending`: those that have not expired. -/
def pending (park : Park) (table : String) (now : Int) (key : Bytes) : List (Nat × ParkedUpdate) :=
  (park.byRow table key).filter fun row => !row.2.expired now

def remove (park : Park) (table : String) (key : Bytes) (seqs : List Nat) : Park :=
  park.prune fun row => parkedRowKey table row.2.update.key = key ∧ row.1 ∈ seqs

end Park

/-! ## A batch -/

/-- What `deferAfterCommit` holds back. -/
inductive Effect where
  | add (update : UpdateStatement) (hlc : Bytes)
  | remove (key : Bytes) (seqs : List Nat)

/-- The table inside the transaction of a batch and what waits for its commit. -/
structure BatchTx where
  stored : Stored
  effects : List Effect

/-- The node that applies the entries, with what it checks of an entry beforehand. -/
structure Replica where
  schema : Schema
  rejects : Stored → List Cell → Bool
  unmarshal : String → Except String (List Statement)
  validateReceivedMutationEntry : List Statement → Except String Unit
  validateGuardedOperationClaim : Stored → List Statement → Except String Unit
  isRelay : Bool

/-- A batch as it is pushed, and when: what fails, the time, and the time again when the
skew guard is on. -/
structure Incoming where
  entries : List MutationEntry
  pushedAsRelay : Bool
  faults : Faults
  now : Int
  skewGuard : Option Int

section Apply

variable [GoLayout] [GoValues]

variable (replica : Replica) (batch : Incoming) (park : Park)

/-- The gate for a statement of an entry with the timestamp. -/
def gateAt (hlc : Bytes) : GateNode := ⟨batch.skewGuard, replica.rejects, hlc⟩

def parkIfRowAbsent (tx : BatchTx) (update : UpdateStatement) (hlc : Bytes) : BatchTx :=
  if (tx.stored.find update.key).isSome then tx
  else { tx with effects := tx.effects ++ [.add update hlc] }

/-- `applyStatementLWW` of an INSERT or a full-key UPDATE with a clock. -/
def applyStatementLWW (tx : BatchTx) (statement : Statement) (hlc : Bytes) :
    Except ApplyError BatchTx :=
  match applyLWWGated (gateAt replica batch hlc) replica.schema tx.stored statement with
  | .error text => .error (.other text)
  | .ok stored =>
    match statement with
    | .insert _ => .ok { tx with stored }
    | .update update => .ok (parkIfRowAbsent { tx with stored } update hlc)

/-- Replay a parked update; one that fails is dropped. -/
def replay (stored : Stored) (parked : ParkedUpdate) : Stored :=
  (applyLWWGated (gateAt replica batch parked.hlc) replica.schema stored
    (.update parked.update)).toOption.getD stored

/-- Oldest clock first, as far as `lwwOrder` tells. -/
def NotNewer (first second : Nat × ParkedUpdate) : Prop :=
  lwwOrder second.2.update.clock first.2.update.clock ≠ .lt

instance : DecidableRel NotNewer := fun _ _ => inferInstanceAs (Decidable (_ ≠ _))

/-- `replayParked`: what waits for the row that an INSERT has created. -/
def replayParked (tx : BatchTx) : Statement → BatchTx
  | .update _ => tx
  | .insert insert =>
    let pk := pkKeyAt replica.schema insert.cols insert.vals
    let key := parkedRowKey replica.schema.name pk
    let parked := park.pending replica.schema.name batch.now key
    if parked.isEmpty then tx
    else if (tx.stored.find pk).isNone then tx
    else
      let sorted := parked.insertionSort NotNewer
      { stored := sorted.foldl (fun stored row => replay replica batch stored row.2) tx.stored
        effects := tx.effects ++ [.remove key (sorted.map Prod.fst)] }

/-- The rules a batch runs its entries through.  They read the park and do not write it. -/
def rowRules : EntryRules BatchTx Statement where
  unmarshal := replica.unmarshal
  validateReceivedMutationEntry := replica.validateReceivedMutationEntry
  validateGuardedOperationClaim tx := replica.validateGuardedOperationClaim tx.stored
  legacyWorkloadDeleteEntryDecision _ _ := .ok (false, false)
  refusedRemintsInEntry _ _ := .ok []
  remintCredentialStatement _ _ := false
  applyStatementLWW tx statement hlc := applyStatementLWW replica batch tx statement (bytes hlc)
  replayParked tx statement := replayParked replica batch park tx statement
  withoutRefusedRemints statements _ := statements
  absorbUnlatchedSecretWrite tx _ := .ok tx
  retireReadmittedCredentials tx _ := .ok tx
  absorbUnlatchedMembershipWrite tx _ := .ok tx

def runDeferredEffects (effects : List Effect) : Park :=
  effects.foldl (fun park effect =>
    match effect with
    | .add update hlc => park.add batch.now update hlc
    | .remove key seqs => park.remove replica.schema.name key seqs) park

/-- The replicated table of a node, its logs, and the park in its memory. -/
structure ParkingNode where
  db : Database Stored
  park : Park

/-- `ApplyRemoteMutationsFrom`: the node afterwards, and what the sender is told.  A batch
that fails is rolled back and its deferred effects are dropped. -/
def receive (node : ParkingNode) : ParkingNode × Except String Nat :=
  match applyRemoteMutationsFrom (rowRules replica batch node.park) batch.faults replica.isRelay
      batch.pushedAsRelay { node.db with tables := ⟨node.db.tables, []⟩ } batch.entries with
  | .error text => (node, .error text)
  | .ok committed =>
    ({ db := { committed.db with tables := committed.db.tables.stored }
       park := runDeferredEffects replica batch node.park committed.db.tables.effects },
      .ok committed.appliedUpTo)

end Apply

/-! ## The statements of a batch -/

section Statements

variable [GoLayout] [GoValues] (replica : Replica) (batch : Incoming) (park : Park)

def statementsOf (entry : MutationEntry) : List (Bytes × Statement) :=
  ((replica.unmarshal entry.stmts).toOption.getD []).map fun statement =>
    (bytes entry.hlc, statement)

/-- The statements a batch brings to a node: those of the entries not seen before. -/
def arrivals (node : ParkingNode) : List (Bytes × Statement) :=
  (batch.entries.filter fun e => e.key ∉ node.db.mutationSeen).flatMap (statementsOf replica)

def applyOne (tx : BatchTx) (arrival : Bytes × Statement) : Option BatchTx :=
  (applyStatementLWW replica batch tx arrival.2 arrival.1).toOption.map fun written =>
    replayParked replica batch park written arrival.2

def applyAll (tx : BatchTx) (statements : List (Bytes × Statement)) : Option BatchTx :=
  statements.foldlM (applyOne replica batch park) tx

theorem applyAll_append {tx : BatchTx} {first second : List (Bytes × Statement)} :
    applyAll replica batch park tx (first ++ second) =
      (applyAll replica batch park tx first).bind fun between =>
        applyAll replica batch park between second :=
  foldlM_append

variable {replica batch park}

variable {before after : BatchTx} {entry : MutationEntry}

theorem applyStatements_applyAll {refused : List String} {statements : List Statement}
    (ran : applyStatements (rowRules replica batch park) entry refused before statements =
      .ok after) :
    applyAll replica batch park before
      (statements.map fun statement => (bytes entry.hlc, statement)) = some after := by
  induction statements generalizing before with
  | nil =>
    cases ran
    rfl
  | cons statement rest ih =>
    rw [applyStatements] at ran
    cases applied : (rowRules replica batch park).applyStatementLWW before statement entry.hlc with
    | error failure =>
      rw [applied] at ran
      cases ran
    | ok written =>
      rw [applied] at ran
      have one : applyOne replica batch park before (bytes entry.hlc, statement) =
          some (replayParked replica batch park written statement) :=
        congrArg (fun result => result.toOption.map fun written =>
          replayParked replica batch park written statement) applied
      rw [map_cons, applyAll, foldlM_cons, one]
      exact ih ran

variable {faults : Faults}

theorem applyEntry_applyAll {treatment : Treatment}
    (ran : applyEntry (rowRules replica batch park) faults before entry = .ok (after, treatment)) :
    applyAll replica batch park before (statementsOf replica entry) = some after := by
  obtain ⟨statements, decoded, rest⟩ := bind_eq_ok ran
  split at rest
  · cases rest
  obtain ⟨_, _, received⟩ := bind_eq_ok rest
  obtain ⟨_, _, claimed⟩ := bind_eq_ok received
  obtain ⟨_, decision, decided⟩ := bind_eq_ok claimed
  cases decision
  obtain ⟨_, _, judged⟩ := bind_eq_ok decided
  obtain ⟨_, _, begun⟩ := bind_eq_ok judged
  obtain ⟨written, applied, ending⟩ := bind_eq_ok begun
  cases ending
  have parsed : replica.unmarshal entry.stmts = .ok statements := under_ok decoded
  rw [statementsOf, parsed]
  exact applyStatements_applyAll applied

theorem applyEntries_applyAll {entries : List MutationEntry}
    {treated : List (MutationEntry × Treatment)}
    (ran : applyEntries (rowRules replica batch park) faults before entries =
      .ok (after, treated)) :
    applyAll replica batch park before (entries.flatMap (statementsOf replica)) = some after := by
  induction entries generalizing before treated with
  | nil =>
    cases ran
    rfl
  | cons entry rest ih =>
    obtain ⟨⟨written, treatment⟩, one, remaining⟩ := bind_eq_ok ran
    obtain ⟨⟨settled, others⟩, loop, result⟩ := bind_eq_ok remaining
    cases result
    rw [flatMap_cons, applyAll_append, applyEntry_applyAll one]
    exact ih loop

/-- A committed batch has run its statements in order, and then its deferred effects. -/
theorem receive_ok {node after : ParkingNode} {seq : Nat}
    (committed : receive replica batch node = (after, .ok seq)) :
    ∃ effects,
      applyAll replica batch node.park ⟨node.db.tables, []⟩ (arrivals replica batch node) =
        some ⟨after.db.tables, effects⟩ ∧
      after.park = runDeferredEffects replica batch node.park effects := by
  unfold receive at committed
  split at committed
  · cases committed
  case h_2 result ran =>
      cases committed
      refine ⟨result.db.tables.effects, ?_, rfl⟩
      rcases applyRemoteMutationsFrom_ok ran with ⟨none, rfl⟩ | applied
      · rw [arrivals, none]
        rfl
      · obtain ⟨loop, entries, _⟩ := applied.treated
        exact applyEntries_applyAll entries

end Statements

/-! ## One row among others -/

section Row

variable [GoLayout] [GoValues] {replica : Replica} {batch : Incoming} {park : Park}

variable {stored : Stored} {key : RowKey}

variable {update : UpdateStatement}

theorem applyLWWGated_absent (node : GateNode) (schema : Schema)
    (absent : stored.find update.key = none) :
    applyLWWGated node schema stored (.update update) = .ok stored := by
  unfold applyLWWGated
  simp only [absent, ite_self]

variable {parked : ParkedUpdate}

theorem find_replay (other : key ≠ parked.update.key) :
    (replay replica batch stored parked).find key = stored.find key := by
  unfold replay
  cases applied : applyLWWGated (gateAt replica batch parked.hlc) replica.schema stored
      (.update parked.update) with
  | error _ => rfl
  | ok written => exact find_applyLWWGated applied other

theorem replay_absent (absent : stored.find parked.update.key = none) :
    replay replica batch stored parked = stored := by
  rw [replay, applyLWWGated_absent _ _ absent]
  rfl

def OnRow (replica : Replica) (key : RowKey) (arrival : Bytes × Statement) : Bool :=
  parkedRowKey replica.schema.name (arrival.2.key replica.schema) =
    parkedRowKey replica.schema.name key

variable {arrival : Bytes × Statement}

omit [GoLayout] in
theorem ne_key_of_not_onRow (off : OnRow replica key arrival = false) :
    key ≠ arrival.2.key replica.schema := by
  rintro rfl
  simp [OnRow] at off

def Statement.isUpdate : Statement → Bool
  | .insert _ => false
  | .update _ => true

def Effect.isAdd : Effect → Bool
  | .add _ _ => true
  | .remove _ _ => false

def Effect.addFor (table : String) (key : RowKey) : Effect → Option (Bytes × UpdateStatement)
  | .add update hlc =>
    if parkedRowKey table update.key = parkedRowKey table key then some (hlc, update) else none
  | .remove _ _ => none

/-- Effects that park these updates for the row, remove none of it, and park at most
`total` updates in all. -/
structure Defers (table : String) (key : RowKey) (effects : List Effect)
    (updates : List (Bytes × UpdateStatement)) (total : Nat) : Prop where
  adds : effects.filterMap (Effect.addFor table key) = updates
  removes : ∀ row seqs, .remove row seqs ∈ effects → row ≠ parkedRowKey table key
  total : effects.countP Effect.isAdd ≤ total

omit [GoLayout] [GoValues] in
theorem Defers.nil (table : String) (key : RowKey) : Defers table key [] [] 0 :=
  ⟨rfl, nofun, Nat.le_refl _⟩

def updatesOn (replica : Replica) (key : RowKey) (statements : List (Bytes × Statement)) :
    List (Bytes × UpdateStatement) :=
  statements.filterMap fun arrival =>
    match arrival.2 with
    | .insert _ => none
    | .update update => if OnRow replica key arrival then some (arrival.1, update) else none

omit [GoLayout] in
theorem updatesOn_singleton_off (off : OnRow replica key arrival = false) :
    updatesOn replica key [arrival] = [] := by
  unfold updatesOn
  obtain ⟨hlc, statement⟩ := arrival
  cases statement <;> simp [off]

variable {before after : BatchTx} {hlc : Bytes}

theorem applyOne_ok {statement : Statement}
    (ran : applyOne replica batch park before (hlc, statement) = some after) :
    ∃ stored, applyLWWGated (gateAt replica batch hlc) replica.schema before.stored statement =
        .ok stored ∧
      (∀ row, statement = .insert row →
        after = replayParked replica batch park { before with stored } statement) ∧
      ∀ update, statement = .update update →
        after = parkIfRowAbsent { before with stored } update hlc := by
  unfold applyOne applyStatementLWW at ran
  split at ran
  · cases ran
  case h_2 stored applied =>
    refine ⟨stored, applied, ?_, ?_⟩
    all_goals
      rintro _ rfl
      exact (Option.some.inj ran).symm

theorem find_replays {rows : List (Nat × ParkedUpdate)}
    (others : ∀ row ∈ rows, key ≠ row.2.update.key) (stored : Stored) :
    (rows.foldl (fun stored row => replay replica batch stored row.2) stored).find key =
      stored.find key := by
  induction rows generalizing stored with
  | nil => rfl
  | cons row rest ih =>
    obtain ⟨other, remaining⟩ := forall_mem_cons.mp others
    exact (ih remaining _).trans (find_replay other)

theorem applyOne_off (ran : applyOne replica batch park before arrival = some after)
    (off : OnRow replica key arrival = false) :
    after.stored.find key = before.stored.find key ∧
      ∃ effects, after.effects = before.effects ++ effects ∧
        Defers replica.schema.name key effects [] (if arrival.2.isUpdate then 1 else 0) := by
  obtain ⟨hlc, statement⟩ := arrival
  have other := ne_key_of_not_onRow off
  have apart : parkedRowKey replica.schema.name (statement.key replica.schema) ≠
      parkedRowKey replica.schema.name key := by simpa [OnRow] using off
  cases statement with
  | update update =>
    obtain ⟨stored, applied, -, done⟩ := applyOne_ok ran
    obtain rfl := done update rfl
    have kept := find_applyLWWGated applied other
    unfold parkIfRowAbsent
    split
    · exact ⟨kept, [], (append_nil _).symm, rfl, by simp, Nat.zero_le _⟩
    refine ⟨kept, [.add update hlc], rfl, ?_, by simp, Nat.le_refl _⟩
    have unparked : Effect.addFor replica.schema.name key (.add update hlc) = none :=
      if_neg apart
    simp [unparked]
  | insert row =>
    obtain ⟨stored, applied, done, -⟩ := applyOne_ok ran
    obtain rfl := done row rfl
    have kept := find_applyLWWGated applied other
    have quiet : ∃ effects, before.effects = before.effects ++ effects ∧
        Defers replica.schema.name key effects [] 0 :=
      ⟨[], (append_nil _).symm, Defers.nil _ _⟩
    unfold replayParked
    dsimp only
    split
    · exact ⟨kept, quiet⟩
    split
    · exact ⟨kept, quiet⟩
    refine ⟨?_, [.remove _ _], rfl, rfl, ?_, Nat.le_refl _⟩
    · refine (find_replays ?_ _).trans kept
      intro parked member same
      have filed := (mem_filter.mp (mem_filter.mp
        ((mem_insertionSort NotNewer).mp member)).1).2
      rw [← same] at filed
      exact apart (of_decide_eq_true filed).symm
    · intro removed seqs member
      cases mem_singleton.mp member
      exact apart

variable {statements : List (Bytes × Statement)}

theorem applyAll_off (ran : applyAll replica batch park before statements = some after)
    (off : ∀ arrival ∈ statements, OnRow replica key arrival = false) :
    after.stored.find key = before.stored.find key := by
  induction statements generalizing before with
  | nil =>
    cases ran
    rfl
  | cons arrival rest ih =>
    obtain ⟨between, one, remaining⟩ := bind_eq_some_iff.mp ran
    obtain ⟨here, others⟩ := forall_mem_cons.mp off
    exact (ih remaining others).trans (applyOne_off one here).1

theorem applyOne_early (ran : applyOne replica batch park before (hlc, .update update) = some after)
    (absent : before.stored.find update.key = none) :
    after = { before with effects := before.effects ++ [.add update hlc] } := by
  obtain ⟨stored, applied, -, done⟩ := applyOne_ok ran
  obtain rfl := done update rfl
  rw [applyLWWGated_absent _ _ absent] at applied
  cases applied
  exact if_neg (by simp [absent])

theorem applyAll_early (ran : applyAll replica batch park before statements = some after)
    (absent : before.stored.find key = none)
    (updates : ∀ arrival ∈ statements, OnRow replica key arrival →
      ∃ update, arrival.2 = .update update ∧ update.key = key) :
    after.stored.find key = none ∧
      ∃ effects, after.effects = before.effects ++ effects ∧
        Defers replica.schema.name key effects (updatesOn replica key statements)
          (statements.countP fun arrival => arrival.2.isUpdate) := by
  induction statements generalizing before with
  | nil =>
    cases ran
    exact ⟨absent, [], (append_nil _).symm, Defers.nil _ _⟩
  | cons arrival rest ih =>
    obtain ⟨between, one, remaining⟩ := bind_eq_some_iff.mp ran
    obtain ⟨early, others⟩ := forall_mem_cons.mp updates
    have step : between.stored.find key = none ∧
        ∃ effects, between.effects = before.effects ++ effects ∧
          Defers replica.schema.name key effects (updatesOn replica key [arrival])
            (if arrival.2.isUpdate then 1 else 0) := by
      cases on : OnRow replica key arrival with
      | false =>
        rw [updatesOn_singleton_off on]
        obtain ⟨kept, deferred⟩ := applyOne_off one on
        exact ⟨kept.trans absent, deferred⟩
      | true =>
        obtain ⟨update, isUpdate, rfl⟩ := early on
        obtain ⟨hlc, statement⟩ := arrival
        subst isUpdate
        rw [applyOne_early one absent]
        refine ⟨absent, [.add update hlc], rfl, ?_, nofun, Nat.le_refl _⟩
        simp [updatesOn, on, Effect.addFor]
    obtain ⟨stays, first, isFirst, defersFirst⟩ := step
    obtain ⟨gone, second, isSecond, defersSecond⟩ := ih remaining stays others
    refine ⟨gone, first ++ second, ?_, ?_⟩
    · rw [isSecond, isFirst, append_assoc]
    have split : updatesOn replica key (arrival :: rest) =
        updatesOn replica key [arrival] ++ updatesOn replica key rest :=
      filterMap_append (l := [arrival])
    rw [split, countP_cons, Nat.add_comm]
    refine ⟨?_, fun row seqs member => ?_, ?_⟩
    · rw [filterMap_append, defersFirst.adds, defersSecond.adds]
    · exact (mem_append.mp member).elim (defersFirst.removes row seqs)
        (defersSecond.removes row seqs)
    · rw [countP_append]
      exact Nat.add_le_add defersFirst.total defersSecond.total

end Row

/-! ## What a commit parks -/

section Commit

variable {replica : Replica} {batch : Incoming} {table : String} {key : RowKey}

def Park.waiting (park : Park) (table : String) (key : RowKey) : List ParkedUpdate :=
  (park.byRow table (parkedRowKey table key)).map Prod.snd

variable (key) in
/-- With room in the park and nothing of the row expired, an update is added and none of
the row is lost. -/
theorem waiting_add {park : Park} {now : Int} (room : park.rows.length < parkedUpdatesMax)
    (alive : ∀ parked ∈ park.waiting table key, parked.expired now = false)
    (update : UpdateStatement) (hlc : Bytes) :
    (park.add now update hlc).waiting table key = park.waiting table key ++
        (if parkedRowKey table update.key = parkedRowKey table key then [⟨update, hlc, now⟩]
          else []) ∧
      (park.add now update hlc).rows.length ≤ park.rows.length + 1 := by
  have fits : (park.prune fun row => row.2.expired now).rows.length ≤ parkedUpdatesMax - 1 :=
    Nat.le_sub_one_of_lt (Nat.lt_of_le_of_lt (length_filter_le _ _) room)
  have kept : (park.rows.filter fun row => !row.2.expired now).filter
      (fun row => parkedRowKey table row.2.update.key = parkedRowKey table key) =
      park.byRow table (parkedRowKey table key) := by
    rw [filter_comm]
    refine filter_eq_self.mpr fun row member => ?_
    rw [alive row.2 (mem_map_of_mem member)]
    rfl
  rw [Park.add, Journal.keepNewest_of_le fits]
  constructor
  · unfold Park.waiting Park.byRow
    simp only [Journal.append, Journal.prune, filter_append, map_append, kept]
    congr 1
    by_cases same : parkedRowKey table update.key = parkedRowKey table key <;> simp [same]
  · simp only [Journal.append, Journal.prune, length_append, length_singleton]
    exact Nat.add_le_add_right (length_filter_le _ _) 1

theorem waiting_remove (park : Park) {row : Bytes} (other : row ≠ parkedRowKey table key)
    (seqs : List Nat) :
    (park.remove table row seqs).waiting table key = park.waiting table key ∧
      (park.remove table row seqs).rows.length ≤ park.rows.length := by
  refine ⟨congrArg (List.map Prod.snd) ?_, length_filter_le _ _⟩
  refine (filter_comm _ _ _).trans (filter_eq_self.mpr fun parked member => ?_)
  have filed : parkedRowKey table parked.2.update.key = parkedRowKey table key :=
    of_decide_eq_true (mem_filter.mp member).2
  simp [filed, other.symm]

theorem not_expired_now (update : UpdateStatement) (hlc : Bytes) (now : Int) :
    ParkedUpdate.expired ⟨update, hlc, now⟩ now = false := by
  simp [ParkedUpdate.expired, parkedUpdateTTL]

theorem waiting_runDeferredEffects {effects : List Effect}
    (removes : ∀ row seqs, .remove row seqs ∈ effects →
      row ≠ parkedRowKey replica.schema.name key) (park : Park)
    (room : park.rows.length + effects.countP Effect.isAdd ≤ parkedUpdatesMax)
    (alive : ∀ parked ∈ park.waiting replica.schema.name key, parked.expired batch.now = false) :
    (runDeferredEffects replica batch park effects).waiting replica.schema.name key =
        park.waiting replica.schema.name key ++
          (effects.filterMap (Effect.addFor replica.schema.name key)).map
            (fun update => ⟨update.2, update.1, batch.now⟩) ∧
      (runDeferredEffects replica batch park effects).rows.length ≤
        park.rows.length + effects.countP Effect.isAdd := by
  induction effects generalizing park with
  | nil => exact ⟨(append_nil _).symm, Nat.le_refl _⟩
  | cons effect rest ih =>
    have later : ∀ row seqs, .remove row seqs ∈ rest →
        row ≠ parkedRowKey replica.schema.name key :=
      fun row seqs member => removes row seqs (mem_cons_of_mem _ member)
    cases effect with
    | remove row seqs =>
      have other := removes row seqs mem_cons_self
      obtain ⟨same, shrinks⟩ := waiting_remove park other seqs
      rw [← same] at alive
      obtain ⟨waits, length⟩ := ih later _
        (Nat.le_trans (Nat.add_le_add_right shrinks _) room) alive
      rw [same] at waits
      exact ⟨waits, Nat.le_trans length (Nat.add_le_add_right shrinks _)⟩
    | add update hlc =>
      rw [countP_cons_of_pos rfl] at room ⊢
      obtain ⟨added, grows⟩ := waiting_add key (by omega) alive update hlc
      have stillAlive : ∀ parked ∈
          (park.add batch.now update hlc).waiting replica.schema.name key,
          parked.expired batch.now = false := by
        intro parked member
        rw [added] at member
        rcases mem_append.mp member with old | new
        · exact alive parked old
        split at new
        · rw [mem_singleton.mp new]
          exact not_expired_now _ _ _
        · cases new
      obtain ⟨waits, length⟩ := ih later _ (by omega) stillAlive
      have runs : runDeferredEffects replica batch park (.add update hlc :: rest) =
          runDeferredEffects replica batch (park.add batch.now update hlc) rest :=
        foldl_cons
      rw [runs]
      refine ⟨waits.trans ?_, by omega⟩
      rw [added]
      by_cases same : parkedRowKey replica.schema.name update.key =
          parkedRowKey replica.schema.name key
      all_goals simp [Effect.addFor, same]

end Commit

/-! ## Runs -/

section Runs

variable [GoLayout] [GoValues] {replica : Replica} {key : RowKey}

/-- A statement that was run, with the time of its batch. -/
structure Arrival where
  time : Int
  hlc : Bytes
  statement : Statement

def Arrival.on (replica : Replica) (key : RowKey) (arrival : Arrival) : Bool :=
  OnRow replica key (arrival.hlc, arrival.statement)

/-- The batches a node receives, with the statements of those that commit. -/
inductive Delivers (replica : Replica) (first : ParkingNode) : List Arrival → ParkingNode → Prop
  | refl : Delivers replica first [] first
  | commit {trace : List Arrival} {node after : ParkingNode} {batch : Incoming} {seq : Nat}
      (before : Delivers replica first trace node)
      (committed : receive replica batch node = (after, .ok seq)) :
      Delivers replica first
        (trace ++ (arrivals replica batch node).map fun arrival =>
          ⟨batch.now, arrival.1, arrival.2⟩) after
  | fail {trace : List Arrival} {node after : ParkingNode} {batch : Incoming} {text : String}
      (before : Delivers replica first trace node)
      (failed : receive replica batch node = (after, .error text)) :
      Delivers replica first trace after

def ParkedUpdate.arrival (parked : ParkedUpdate) : Arrival :=
  ⟨parked.parkedAt, parked.hlc, .update parked.update⟩

omit [GoLayout] [GoValues] in
theorem ParkedUpdate.arrival_injective : Function.Injective ParkedUpdate.arrival := by
  rintro ⟨_, _, _⟩ ⟨_, _, _⟩ same
  cases same
  rfl

/-- A run in which the row is not there and these updates of it arrive, no more than the
park holds and none older than the park keeps. -/
structure Early (replica : Replica) (key : RowKey) (first : ParkingNode) (trace : List Arrival)
    (before : ParkingNode) (early : List ParkedUpdate) : Prop where
  delivers : Delivers replica first trace before
  absent : first.db.tables.find key = none
  unparked : first.park.waiting replica.schema.name key = []
  updates : trace.filter (Arrival.on replica key) = early.map ParkedUpdate.arrival
  keyed : ∀ parked ∈ early, parked.update.key = key
  room : first.park.rows.length + trace.countP (fun arrival => arrival.statement.isUpdate) ≤
    parkedUpdatesMax
  alive : trace.Pairwise fun earlier later => earlier.on replica key →
    later.time - earlier.time < parkedUpdateTTL

omit [GoLayout] in
theorem arrival_updatesOn (now : Int) {statements : List (Bytes × Statement)}
    (updates : ∀ arrival ∈ statements, OnRow replica key arrival →
      ∃ update, arrival.2 = .update update ∧ update.key = key) :
    ((updatesOn replica key statements).map fun update =>
        (⟨update.2, update.1, now⟩ : ParkedUpdate)).map ParkedUpdate.arrival =
      (statements.map fun arrival => ⟨now, arrival.1, arrival.2⟩).filter
        (Arrival.on replica key) := by
  induction statements with
  | nil => rfl
  | cons arrival rest ih =>
    obtain ⟨early, others⟩ := forall_mem_cons.mp updates
    have tail := ih others
    obtain ⟨hlc, statement⟩ := arrival
    unfold updatesOn at tail ⊢
    cases on : OnRow replica key (hlc, statement) with
    | false =>
      have off : Arrival.on replica key ⟨now, hlc, statement⟩ = false := on
      rw [map_cons, filter_cons_of_neg (by simp [off]), ← tail]
      cases statement <;> simp [on]
    | true =>
      obtain ⟨update, isUpdate, -⟩ := early on
      subst isUpdate
      have here : Arrival.on replica key ⟨now, hlc, .update update⟩ = true := on
      rw [map_cons, filter_cons_of_pos here, ← tail]
      simp [on, ParkedUpdate.arrival]

structure Waiting (replica : Replica) (key : RowKey) (node : ParkingNode)
    (early : List ParkedUpdate) (parked : Nat) : Prop where
  absent : node.db.tables.find key = none
  waiting : node.park.waiting replica.schema.name key = early
  length : node.park.rows.length ≤ parked

variable {batch : Incoming}

theorem Waiting.commit {node after : ParkingNode} {seq : Nat}
    {early new : List ParkedUpdate} {parked : Nat} (waiting : Waiting replica key node early parked)
    (committed : receive replica batch node = (after, .ok seq))
    (updates : ((arrivals replica batch node).map fun arrival =>
        (⟨batch.now, arrival.1, arrival.2⟩ : Arrival)).filter (Arrival.on replica key) =
      new.map ParkedUpdate.arrival) (keyed : ∀ update ∈ new, update.update.key = key)
    (room : parked + (arrivals replica batch node).countP (fun arrival => arrival.2.isUpdate) ≤
      parkedUpdatesMax) (alive : arrivals replica batch node ≠ [] →
      ∀ update ∈ early, update.expired batch.now = false) :
    Waiting replica key after (early ++ new)
      (parked + (arrivals replica batch node).countP (fun arrival => arrival.2.isUpdate)) := by
  obtain ⟨effects, ran, parks⟩ := receive_ok committed
  have onlyUpdates : ∀ arrival ∈ arrivals replica batch node, OnRow replica key arrival →
      ∃ update, arrival.2 = .update update ∧ update.key = key := by
    intro arrival member on
    have filtered : (⟨batch.now, arrival.1, arrival.2⟩ : Arrival) ∈
        ((arrivals replica batch node).map fun arrival =>
          ⟨batch.now, arrival.1, arrival.2⟩).filter (Arrival.on replica key) :=
      mem_filter.mpr ⟨mem_map_of_mem member, on⟩
    rw [updates] at filtered
    obtain ⟨update, isNew, same⟩ := mem_map.mp filtered
    exact ⟨update.update, (congrArg Arrival.statement same).symm, keyed update isNew⟩
  have isNew : (updatesOn replica key (arrivals replica batch node)).map
      (fun update => (⟨update.2, update.1, batch.now⟩ : ParkedUpdate)) = new :=
    map_injective_iff.mpr ParkedUpdate.arrival_injective
      ((arrival_updatesOn batch.now onlyUpdates).trans updates)
  obtain ⟨absent, deferred, isDeferred, defers⟩ := applyAll_early ran waiting.absent onlyUpdates
  obtain rfl : effects = deferred := isDeferred
  by_cases quiet : arrivals replica batch node = []
  · rw [quiet] at ran isNew
    obtain rfl : [] = effects := congrArg BatchTx.effects (Option.some.inj ran)
    obtain rfl : [] = new := isNew
    rw [append_nil, quiet]
    exact ⟨absent, parks ▸ waiting.waiting, parks ▸ waiting.length⟩
  have fits := defers.total
  have length := waiting.length
  obtain ⟨waits, grows⟩ := waiting_runDeferredEffects defers.removes node.park
    (by omega) (waiting.waiting ▸ alive quiet)
  rw [← parks] at waits grows
  rw [defers.adds, isNew, waiting.waiting] at waits
  exact ⟨absent, waits, by omega⟩

theorem failed_unchanged {node after : ParkingNode} {text : String}
    (failed : receive replica batch node = (after, .error text)) : after = node := by
  unfold receive at failed
  split at failed
  · cases failed
    rfl
  · cases failed

theorem Early.waiting {first before : ParkingNode} {trace : List Arrival}
    {early : List ParkedUpdate} (run : Early replica key first trace before early) :
    Waiting replica key before early (first.park.rows.length +
      trace.countP fun arrival => arrival.statement.isUpdate) := by
  obtain ⟨delivers, absent, unparked, updates, keyed, room, alive⟩ := run
  induction delivers generalizing early with
  | refl =>
    obtain rfl : early = [] := by simpa using updates.symm
    exact ⟨absent, unparked, Nat.le_refl _⟩
  | fail before failed ih =>
    rw [failed_unchanged failed]
    exact ih updates keyed room alive
  | commit before committed ih =>
    rename_i trace node after batch seq
    rw [filter_append] at updates
    obtain ⟨old, new, rfl, isOld, isNew⟩ := map_eq_append_iff.mp updates.symm
    rw [countP_append] at room
    obtain ⟨aliveBefore, -, across⟩ := pairwise_append.mp alive
    have waiting := ih isOld.symm (fun update member => keyed update
      (mem_append_left _ member)) (by omega) aliveBefore
    have counted : ((arrivals replica batch node).map fun arrival =>
          (⟨batch.now, arrival.1, arrival.2⟩ : Arrival)).countP
            (fun arrival => arrival.statement.isUpdate) =
        (arrivals replica batch node).countP fun arrival => arrival.2.isUpdate :=
      countP_map
    rw [countP_append, counted, ← Nat.add_assoc]
    refine waiting.commit committed isNew.symm (fun update member => keyed update
      (mem_append_right _ member)) (by omega) ?_
    intro busy update member
    obtain ⟨arrival, isArrival⟩ := exists_mem_of_ne_nil _ busy
    have filed := mem_map_of_mem (f := ParkedUpdate.arrival) member
    rw [isOld] at filed
    obtain ⟨inTrace, on⟩ := mem_filter.mp filed
    have young := across _ inTrace _ (mem_map_of_mem isArrival) on
    simpa [ParkedUpdate.expired, ParkedUpdate.arrival] using young

end Runs

/-! ## The row arrives -/

section Arrives

variable [GoLayout] [GoValues] {replica : Replica} {key : RowKey}

omit [GoLayout] [GoValues] in
theorem orderedInsert_middle {α : Type*} {r : α → α → Prop} [DecidableRel r] {value : α}
    {first second : List α} (before : ∀ other ∈ first, ¬ r value other)
    (after : ∀ other ∈ second, r value other) :
    (first ++ second).orderedInsert r value = first ++ value :: second := by
  induction first with
  | nil =>
    cases second with
    | nil => rfl
    | cons other rest => exact if_pos (after other mem_cons_self)
  | cons other rest ih =>
    obtain ⟨here, others⟩ := forall_mem_cons.mp before
    rw [cons_append, orderedInsert_cons, if_neg here, ih others]
    rfl

omit [GoLayout] [GoValues] in
/-- Sorting finds the strict arrangement of a list if there is one, whatever the relation
is on other values. -/
theorem insertionSort_eq_of_strict {α : Type*} {r : α → α → Prop} [DecidableRel r]
    {values sorted : List α} (perm : sorted.Perm values)
    (strict : sorted.Pairwise fun a b => r a b ∧ ¬ r b a) : values.insertionSort r = sorted := by
  induction values generalizing sorted with
  | nil => exact (perm_nil.mp perm).symm
  | cons value rest ih =>
    obtain ⟨first, second, rfl⟩ :=
      append_of_mem (perm.mem_iff.mpr mem_cons_self)
    have remaining : (first ++ second).Perm rest := (perm_middle.symm.trans perm).cons_inv
    obtain ⟨firstStrict, valueStrict, across⟩ := pairwise_append.mp strict
    obtain ⟨above, secondStrict⟩ := pairwise_cons.mp valueStrict
    have ordered : (first ++ second).Pairwise fun a b => r a b ∧ ¬ r b a :=
      pairwise_append.mpr ⟨firstStrict, secondStrict, fun a mem b member =>
        across a mem b (mem_cons_of_mem _ member)⟩
    rw [insertionSort_cons, ih remaining ordered]
    exact orderedInsert_middle (fun other member => (across other member value
      mem_cons_self).2) fun other member => (above other member).1

/-- The INSERT, and then the updates in the order of the list, each through the gate. -/
def inOrder (replica : Replica) (batch : Incoming) (hlc : Bytes) (row : InsertStatement)
    (updates : List ParkedUpdate) (stored : Stored) : Stored :=
  updates.foldl (replay replica batch)
    ((applyLWWGated (gateAt replica batch hlc) replica.schema stored (.insert row)).toOption.getD
      stored)

def Increasing (updates : List ParkedUpdate) : Prop :=
  updates.Pairwise fun earlier later => lwwOrder earlier.update.clock later.update.clock = .lt

variable {batch : Incoming}

theorem replays_absent {updates : List ParkedUpdate}
    (keyed : ∀ parked ∈ updates, parked.update.key = key) {stored : Stored}
    (absent : stored.find key = none) : updates.foldl (replay replica batch) stored = stored := by
  induction updates with
  | nil => rfl
  | cons parked rest ih =>
    obtain ⟨here, others⟩ := forall_mem_cons.mp keyed
    rw [foldl_cons, replay_absent (here ▸ absent)]
    exact ih others

variable {row : InsertStatement} {hlc : Bytes}

theorem applyOne_created {park : Park} {before after : BatchTx} {sorted : List ParkedUpdate}
    (ran : applyOne replica batch park before (hlc, .insert row) = some after)
    (created : pkKeyAt replica.schema row.cols row.vals = key)
    (alive : ∀ parked ∈ park.waiting replica.schema.name key, parked.expired batch.now = false)
    (keyed : ∀ parked ∈ park.waiting replica.schema.name key, parked.update.key = key)
    (perm : sorted.Perm (park.waiting replica.schema.name key)) (increasing : Increasing sorted) :
    after.stored = inOrder replica batch hlc row sorted before.stored := by
  obtain ⟨stored, applied, done, -⟩ := applyOne_ok ran
  obtain rfl := done row rfl
  have inserted : inOrder replica batch hlc row sorted before.stored =
      sorted.foldl (replay replica batch) stored := by
    rw [inOrder, applied]
    rfl
  have pending : park.pending replica.schema.name batch.now
      (parkedRowKey replica.schema.name key) =
      park.byRow replica.schema.name (parkedRowKey replica.schema.name key) := by
    refine filter_eq_self.mpr fun parked member => ?_
    rw [alive parked.2 (mem_map_of_mem member)]
    rfl
  rw [inserted]
  unfold replayParked
  dsimp only
  rw [created, pending]
  split
  · -- nothing waits
    rename_i none
    have empty : park.waiting replica.schema.name key = [] := by
      rw [Park.waiting, isEmpty_iff.mp none]
      rfl
    rw [empty] at perm
    rw [perm_nil.mp perm]
    rfl
  split
  · -- the INSERT was refused
    rename_i refused
    refine (replays_absent (fun parked member => keyed parked (perm.mem_iff.mp member)) ?_).symm
    exact isNone_iff_eq_none.mp refused
  have strict : sorted.Pairwise fun first second : ParkedUpdate =>
      lwwOrder second.update.clock first.update.clock ≠ .lt ∧
        ¬ lwwOrder first.update.clock second.update.clock ≠ .lt := by
    refine increasing.imp fun {first second} newer => ?_
    rw [lwwOrder_swap first.update.clock, newer]
    exact ⟨by decide, not_not_intro rfl⟩
  have arranged := insertionSort_eq_of_strict perm strict
  have mapped : ((park.byRow replica.schema.name (parkedRowKey replica.schema.name key)
      ).insertionSort NotNewer).map Prod.snd = sorted :=
    (map_insertionSort NotNewer _ Prod.snd _ fun _ _ _ _ => Iff.rfl).trans arranged
  rw [← mapped, foldl_map]

/-- A batch that commits with the INSERT of the row: what it holds of the row besides are
updates before the INSERT, which finds `table`. -/
structure Creates (replica : Replica) (key : RowKey) (batch : Incoming) (before : ParkingNode)
    (hlc : Bytes) (row : InsertStatement) (table : Stored) (after : ParkingNode) : Prop where
  committed : ∃ seq, receive replica batch before = (after, .ok seq)
  created : pkKeyAt replica.schema row.cols row.vals = key
  statements : ∃ earlier later tx,
    arrivals replica batch before = earlier ++ (hlc, .insert row) :: later ∧
      (∀ arrival ∈ earlier, OnRow replica key arrival →
        ∃ update, arrival.2 = .update update ∧ update.key = key) ∧
      (∀ arrival ∈ later, OnRow replica key arrival = false) ∧
      applyAll replica batch before.park ⟨before.db.tables, []⟩ earlier = some tx ∧
      tx.stored = table

def lateUpdates (replica : Replica) (key : RowKey) (batch : Incoming) (before : ParkingNode) :
    List ParkedUpdate :=
  (updatesOn replica key (arrivals replica batch before)).map fun update =>
    ⟨update.2, update.1, batch.now⟩

/-- An update that arrives before its row is not lost unless it comes in the batch of the
INSERT, and a batch that fails leaves the park as it was. -/
theorem earlyUpdates_kept {first before after : ParkingNode} {trace : List Arrival}
    {early sorted : List ParkedUpdate} {batch : Incoming} {hlc : Bytes} {row : InsertStatement}
    {table : Stored} (run : Early replica key first trace before early)
    (creates : Creates replica key batch before hlc row table after)
    (alive : ∀ parked ∈ early, parked.expired batch.now = false)
    (separate : lateUpdates replica key batch before = [])
    (perm : sorted.Perm (early ++ lateUpdates replica key batch before))
    (increasing : Increasing sorted) :
    after.db.tables.find key = (inOrder replica batch hlc row sorted table).find key ∧
      ∀ (node failed : ParkingNode) (other : Incoming) (text : String),
        receive replica other node = (failed, .error text) → failed.park = node.park := by
  rw [separate, append_nil] at perm
  constructor
  · -- what waits in the park is what the earlier batches brought
    obtain ⟨⟨seq, committed⟩, created, earlier, later, tx, split, -, off, ran, rfl⟩ := creates
    obtain ⟨effects, all, -⟩ := receive_ok committed
    have waiting := run.waiting
    rw [split, applyAll_append, ran, bind_some] at all
    obtain ⟨inserted, one, rest⟩ := bind_eq_some_iff.mp all
    have row := applyOne_created one created (by rwa [waiting.waiting])
      (by rw [waiting.waiting]; exact run.keyed) (by rwa [waiting.waiting]) increasing
    rw [← row]
    exact applyAll_off rest off
  · intro node failed other text isFailed
    rw [failed_unchanged isFailed]

end Arrives

/-! ## A VM -/

def hostName : Column := bytes "host_name"

/-- The table `vms`, with its defaults. -/
def vms : Schema where
  name := "vms"
  columns := [bytes "name", bytes "stack_name", hostName, bytes "spec", bytes "state",
    bytes "state_detail", bytes "cpu_actual", bytes "mem_actual", createdAt, updatedAt, deletedAt,
    bytes "pending_action_id", bytes "vm_owner_epoch", bytes "spec_generation",
    bytes "active_operation_id", bytes "project", bytes "is_template",
    bytes "hardware_adoption_state", bytes "hardware_adoption_error"]
  pkCols := [bytes "name"]
  defaults := cellOf
    [bytes "state", bytes "pending_action_id", bytes "vm_owner_epoch", bytes "spec_generation",
      bytes "active_operation_id", bytes "project", bytes "is_template",
      bytes "hardware_adoption_state"]
    [.text (bytes "creating"), .text [], .int 0, .int 0, .text [], .text (bytes "_default"),
      .int 0, .text (bytes "pending")]
  store := fun _ cell => cell
  keyed := by decide
  key_known := by decide +kernel
  clocked := by decide +kernel
  clock_free := by decide +kernel
  store_clock := verbatim_clock

def webKey : RowKey := [bytes "web"]

/-- The INSERT of `InsertVM`. -/
def insertVM (place : Place) : InsertStatement where
  cols := [bytes "name", bytes "stack_name", hostName, bytes "spec", bytes "state",
    bytes "state_detail", bytes "cpu_actual", bytes "mem_actual", bytes "project",
    bytes "is_template", createdAt, updatedAt]
  image := cellOf
    [bytes "name", bytes "stack_name", hostName, bytes "spec", bytes "state",
      bytes "state_detail", bytes "cpu_actual", bytes "mem_actual", bytes "project",
      bytes "is_template", createdAt, updatedAt]
    [.text (bytes "web"), .text [], .text (bytes "a"), .text (bytes "null"),
      .text (bytes "creating"), .text [], .int 1, .int 512, .text (bytes "_default"), .int 0,
      .text (bytes "2024-01-01T00:00:00.5Z"), .text place.clock.text]
  bound := fun _ => true
  leadingAlgo := .none
  onConflict := none

/-- The UPDATE of `UpdateVMHost`. -/
def updateVMHost (host : String) (place : Place) : UpdateStatement where
  key := webKey
  clock := place.clock.text
  setCols := [hostName, bytes "state", bytes "state_detail", updatedAt]
  run := fun _ row => .ok (some fun col =>
    if col = hostName then .text (bytes host)
    else if col = bytes "state" then .text (bytes "running")
    else if col = bytes "state_detail" then .text []
    else if col = updatedAt then .text place.clock.text else row col)

def vmReplica : Replica where
  schema := vms
  rejects := fun _ _ => false
  unmarshal := fun name => .ok [
    if name = "insert" then .insert (insertVM .low)
    else if name = "middle" then .update (updateVMHost "b" .middle)
    else .update (updateVMHost "c" .high)]
  validateReceivedMutationEntry := fun _ => .ok ()
  validateGuardedOperationClaim := fun _ _ => .ok ()
  isRelay := false

def vmBatch (now : Int) (names : List String) : Incoming where
  entries := names.map fun name => { hlc := name, origin := "b", stmts := name, seq := 1 }
  pushedAsRelay := false
  faults := fun _ => none
  now
  skewGuard := none

def noVMs : ParkingNode := ⟨⟨Table.empty, [], Journal.empty⟩, Journal.empty⟩

attribute [local instance] strictLayout plainValues

def received (batches : List (List String)) : ParkingNode :=
  batches.zipIdx.foldl (fun node batch => (receive vmReplica (vmBatch batch.2 batch.1) node).1)
    noVMs

def webHost (stored : Stored) : Option Cell := (stored.find webKey).map (· hostName)

/-- Two updates in separate batches, the newer first, and then the row. -/
theorem separate_updates_kept :
    webHost (received [["high"], ["middle"], ["insert"]]).db.tables = some (.text (bytes "c")) ∧
      (received [["high"], ["middle"], ["insert"]]).db.tables.find webKey =
        (inOrder vmReplica (vmBatch 2 ["insert"]) (bytes "insert")
          (insertVM .low) [⟨updateVMHost "b" .middle, bytes "middle", 1⟩,
            ⟨updateVMHost "c" .high, bytes "high", 0⟩] Table.empty).find webKey := by
  refine ⟨by decide +kernel, (@earlyUpdates_kept _ _ vmReplica webKey
    noVMs (received [["high"], ["middle"]]) (received [["high"], ["middle"], ["insert"]])
    [⟨0, bytes "high", .update (updateVMHost "c" .high)⟩,
      ⟨1, bytes "middle", .update (updateVMHost "b" .middle)⟩]
    [⟨updateVMHost "c" .high, bytes "high", 0⟩, ⟨updateVMHost "b" .middle, bytes "middle", 1⟩]
    _ (vmBatch 2 ["insert"]) (bytes "insert") (insertVM .low) Table.empty ?_ ?_ ?_ rfl ?_ ?_).1⟩
  · have high := @Delivers.commit _ _ vmReplica noVMs [] noVMs
      (received [["high"]]) (vmBatch 0 ["high"]) 1 .refl rfl
    have both := @Delivers.commit _ _ vmReplica noVMs _ _
      (received [["high"], ["middle"]]) (vmBatch 1 ["middle"]) 1 high rfl
    refine ⟨both, rfl, rfl, filter_eq_self.mpr ?_, ?_, by decide, ?_⟩
    · decide +kernel
    · decide +kernel
    · refine pairwise_pair.mpr fun _ => ?_
      decide
  · exact ⟨⟨1, Prod.ext rfl (toOption_eq_some (by decide +kernel))⟩, by decide +kernel, [], [],
      ⟨Table.empty, []⟩, rfl, nofun, nofun, rfl, rfl⟩
  · decide
  · exact Perm.swap _ _ _
  · refine pairwise_pair.mpr ?_
    exact lwwOrder_clock .middle .high

/-- An update in the batch of the INSERT: the row stays as the INSERT made it, and the
update waits in the park for a row that is there. -/
theorem update_beside_insert_lost :
    Early vmReplica webKey noVMs [] noVMs [] ∧
      Creates vmReplica webKey (vmBatch 0 ["high", "insert"]) noVMs (bytes "insert")
        (insertVM .low) Table.empty (received [["high", "insert"]]) ∧
      lateUpdates vmReplica webKey (vmBatch 0 ["high", "insert"]) noVMs =
        [⟨updateVMHost "c" .high, bytes "high", 0⟩] ∧
      webHost (received [["high", "insert"]]).db.tables = some (.text (bytes "a")) ∧
      webHost (inOrder vmReplica (vmBatch 0 ["high", "insert"]) (bytes "insert") (insertVM .low)
        [⟨updateVMHost "c" .high, bytes "high", 0⟩] Table.empty) = some (.text (bytes "c")) ∧
      (received [["high", "insert"]]).park.rows.length = 1 := by
  have statements : arrivals vmReplica (vmBatch 0 ["high", "insert"]) noVMs =
      [(bytes "high", .update (updateVMHost "c" .high)),
        (bytes "insert", .insert (insertVM .low))] := rfl
  refine ⟨⟨.refl, rfl, rfl, rfl, nofun, by decide, .nil⟩, ?_, ?_, ?_⟩
  · refine ⟨⟨1, Prod.ext rfl (toOption_eq_some (by decide +kernel))⟩, by decide +kernel,
      [(bytes "high", .update (updateVMHost "c" .high))], [],
      ⟨Table.empty, [.add (updateVMHost "c" .high) (bytes "high")]⟩, statements, ?_, nofun, rfl,
      rfl⟩
    intro arrival member _
    rw [mem_singleton.mp member]
    exact ⟨_, rfl, rfl⟩
  · have on : OnRow vmReplica webKey (bytes "high", .update (updateVMHost "c" .high)) = true := by
      decide +kernel
    rw [lateUpdates, statements]
    simp only [updatesOn, filterMap_cons, on, ↓reduceIte, filterMap_nil, map_cons,
      map_nil]
    rfl
  · decide +kernel

end Litevirt.Sync

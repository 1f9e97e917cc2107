import Litevirt.Sync.Receiver

/-!
# Pushing the log to a peer

`replicateOnce` reads the watermark it keeps for a peer and a page of the mutation log after it,
leaves out what originated at the peer and what the peer cannot take yet, pushes the rest, and
moves the watermark past everything it read.  The log is written and pruned, and the peer serves
requests, between any two of these steps.  A request may be served at any later time and more
than once; only a reply to the pending request reaches the caller.
-/

namespace Litevirt.Sync

open Litevirt.Lib List

variable {σ τ Statement PeerStatement : Type}

/-! ## One page of the log -/

def replicateBatchSize : Nat := 100

def entryOf (row : Nat × Mutation) : MutationEntry :=
  { row.2 with seq := row.1 }

/-- The entries after a number that did not originate at the peer, and the
highest number read with those included. -/
def readMutationLog (log : Journal Mutation) (afterSeq limit : Nat) (peerName : String) :
    List MutationEntry × Nat :=
  let rows := log.page afterSeq limit
  ((rows.filter fun row => row.2.origin ≠ peerName).map entryOf, highest rows)

/-- How the proof filter reads an entry: its statements, the table a registered
legacy statement declares, and the table of any other statement that parses. -/
structure StatementShapes (Statement : Type) where
  unmarshal : String → Option (List Statement)
  legacyTransformerFor : Statement → Option String
  parseStmtShape : Statement → Option String

def customMergeTables : List String :=
  ["runtime_action_proofs", "operations", "operation_steps", "project_authority_epochs",
    "leader_lease_terms", "voter_configs"]

def proofDropExemptTables : List String := ["leader_lease_terms"]

/-- Whether an entry must reach a peer whole or not at all.  What cannot be read
counts as proof-bearing. -/
def entryTouchesCustomMerge (shapes : StatementShapes Statement) (stmts : String) : Bool :=
  let gated := fun table => table ∈ customMergeTables && table ∉ proofDropExemptTables
  match shapes.unmarshal stmts with
  | none => true
  | some list => list.any fun s =>
    match shapes.legacyTransformerFor s with
    | some table => gated table
    | none =>
      match shapes.parseStmtShape s with
      | none => true
      | some table => gated table

def dropUnsupportedProofEntries (shapes : StatementShapes Statement)
    (entries : List MutationEntry) : List MutationEntry :=
  entries.filter fun e => !entryTouchesCustomMerge shapes e.stmts

/-! ## The peer's side -/

structure ReplicateRequest where
  sender : String
  afterSeq : Nat
  entries : List MutationEntry
  senderSchemaVersion : Int
  receiverIsRelay : Bool

/-- What the receiving server finds when it serves a request. -/
structure Reception where
  replicatorReady : Bool
  requireReplicationPeer : Option String
  requireNotIsolated : Option String
  effectiveDBSchema : Int
  isRelay : Bool
  faults : Faults

def pushMutations (rules : EntryRules τ PeerStatement) (reception : Reception)
    (db : Database τ) (req : ReplicateRequest) : Except String (Committed τ) :=
  if !reception.replicatorReady then .error "replicator not initialized"
  else if req.sender = "" then .error "sender required"
  else
    match reception.requireReplicationPeer, reception.requireNotIsolated with
    | some refusal, _ => .error refusal
    | none, some refusal => .error refusal
    | none, none =>
      -- only a sender whose schema is ahead is refused
      if req.senderSchemaVersion ≠ 0 ∧
          req.senderSchemaVersion - reception.effectiveDBSchema > 0 then
        .error (s!"sender DB schema version {req.senderSchemaVersion}, " ++
          s!"local {reception.effectiveDBSchema} " ++
          "(receiver is missing migrations; pre-stage/upgrade this node)")
      else if req.entries.isEmpty then
        .ok { db, treated := [], appliedUpTo := req.afterSeq }
      else
        under "apply mutations: " (applyRemoteMutationsFrom rules reception.faults
          reception.isRelay req.receiverIsRelay db req.entries)

/-! ## The system -/

/-- A page as it was read: where it starts, the log it was read from, and the
highest number on it. -/
structure Read where
  lastSeq : Nat
  rows : List (Nat × Mutation)
  maxSeqSeen : Nat

/-- A page that was filtered for the peer. -/
structure Batch extends Read where
  lacksProofSupport : Bool

inductive Call where
  | idle
  | reading (lastSeq : Nat)
  | filtering (read : Read) (entries : List MutationEntry)
  | pushing (batch : Batch) (entries : List MutationEntry) (request : Nat)
  | storing (batch : Batch) (seq : Nat)

/-- A batch the peer committed: the record of seen entries it began with, and
what became of each entry. -/
structure Commit where
  mutationSeen : List (String × String)
  treated : List (MutationEntry × Treatment)

/-- The sender and the peer with the watermark the sender keeps for it, the call
in progress, every request that was sent, and every reply that was given.  The
history keeps the batches the peer committed and the batches whose number was
stored as the watermark. -/
structure Link (σ τ : Type) where
  sender : Receiver σ
  peer : Receiver τ
  watermark : Option Nat
  call : Call
  sent : List ReplicateRequest
  replies : List (Nat × Nat)
  commits : List Commit
  stored : List (Batch × Nat)

namespace Link

inductive Action (σ τ : Type) where
  | sender (action : Receiver.Action σ)
  | peer (action : Receiver.Action τ)
  | getWatermark
  | readMutationLog
  | push (lacksProofSupport : Bool) (senderSchemaVersion : Int) (receiverIsRelay : Bool)
  | serve (request : Nat) (reception : Reception)
  | reply (appliedUpTo : Nat)
  | setWatermark
  /-- The call ends with an error: a read, the dial, the deadline, the RPC or the
  watermark write has failed. -/
  | fail

/-- The two hosts, their statement rules and the shapes the proof filter reads. -/
structure Setup (σ τ Statement PeerStatement : Type) where
  hostName : String
  peerName : String
  rules : EntryRules σ Statement
  peerRules : EntryRules τ PeerStatement
  shapes : StatementShapes Statement

def initial (sender : σ) (peer : τ) : Link σ τ where
  sender := .fresh sender
  peer := .fresh peer
  watermark := none
  call := .idle
  sent := []
  replies := []
  commits := []
  stored := []

/-- The number a successful push moves the watermark to. -/
def pushedUpTo (entries : List MutationEntry) (maxSeqSeen reply : Nat) : Nat :=
  let appliedUpTo := if reply = 0 then (entries.getLast?.map (·.seq)).getD 0 else reply
  if maxSeqSeen > appliedUpTo then maxSeqSeen else appliedUpTo

/-- The entries a page sends to a peer with or without proof support. -/
def outgoing (setup : Setup σ τ Statement PeerStatement) (lacksProofSupport : Bool)
    (entries : List MutationEntry) : List MutationEntry :=
  if lacksProofSupport then dropUnsupportedProofEntries setup.shapes entries else entries

def step (setup : Setup σ τ Statement PeerStatement) (link : Link σ τ) :
    Action σ τ → Option (Link σ τ)
  | .sender action =>
    (Receiver.step setup.rules setup.hostName link.sender action).map
      fun sender => { link with sender }
  | .peer action =>
    (Receiver.step setup.peerRules setup.peerName link.peer action).map
      fun peer => { link with peer }
  | .getWatermark =>
    match link.call with
    | .idle => some { link with call := .reading (link.watermark.getD 0) }
    | _ => none
  | .readMutationLog =>
    match link.call with
    | .reading lastSeq =>
      let log := link.sender.db.mutationLog
      let (entries, maxSeqSeen) :=
        Sync.readMutationLog log lastSeq replicateBatchSize setup.peerName
      some { link with call := .filtering { lastSeq, rows := log.rows, maxSeqSeen } entries }
    | _ => none
  | .push lacksProofSupport senderSchemaVersion receiverIsRelay =>
    match link.call with
    | .filtering read unfiltered =>
      let entries := outgoing setup lacksProofSupport unfiltered
      let batch : Batch := { read with lacksProofSupport }
      if entries.isEmpty then
        -- nothing to send: only the watermark moves, past what was left out
        some { link with
          call := if read.maxSeqSeen > read.lastSeq then .storing batch read.maxSeqSeen
            else .idle }
      else
        let request := {
          sender := setup.hostName, afterSeq := read.lastSeq, entries
          senderSchemaVersion, receiverIsRelay }
        some { link with
          sent := link.sent ++ [request]
          call := .pushing batch entries link.sent.length }
    | _ => none
  | .serve request reception =>
    match link.sent[request]? with
    | none => none
    | some req =>
      match pushMutations setup.peerRules reception link.peer.db req with
      | .error _ => some link
      | .ok result =>
        some { link with
          peer := link.peer.install result.db (Receiver.ranKeys result.treated)
          commits := ⟨link.peer.db.mutationSeen, result.treated⟩ :: link.commits
          replies := (request, result.appliedUpTo) :: link.replies }
  | .reply appliedUpTo =>
    match link.call with
    | .pushing batch entries request =>
      if (request, appliedUpTo) ∈ link.replies then
        let seq := pushedUpTo entries batch.maxSeqSeen appliedUpTo
        some { link with
          call := if seq > batch.lastSeq then .storing batch seq else .idle }
      else none
    | _ => none
  | .setWatermark =>
    match link.call with
    | .storing batch seq =>
      some { link with
        watermark := some seq
        stored := (batch, seq) :: link.stored
        call := .idle }
    | _ => none
  | .fail => some { link with call := .idle }

/-! ## What the peer has done with an entry it acknowledged -/

/-- The commit ran the entry, found it recorded as seen, or set it aside as a
workload delete from before workload authority that the tables did not allow. -/
def Acknowledged (rules : EntryRules τ PeerStatement) (commit : Commit) (e : MutationEntry) :
    Prop :=
  (e, .applied) ∈ commit.treated ∨
    ((e, .seen) ∈ commit.treated ∧ e.key ∈ commit.mutationSeen) ∨
    ((e, .skipped) ∈ commit.treated ∧ ∃ tables stmts, rules.unmarshal e.stmts = .ok stmts ∧
      rules.legacyWorkloadDeleteEntryDecision tables stmts = .ok (true, false))

variable {entries : List MutationEntry} {result : Committed τ} {e : MutationEntry}
  {rules : EntryRules τ PeerStatement} {db : Database τ}

theorem acknowledged_of_applied {faults : Faults}
    {forwards : Bool} (batch : Applied rules faults forwards db entries result)
    (member : e ∈ entries) : Acknowledged rules ⟨db.mutationSeen, result.treated⟩ e := by
  obtain ⟨loop, ran, treated⟩ := batch.treated
  by_cases seen : e.key ∈ db.mutationSeen
  · refine .inr (.inl ⟨?_, seen⟩)
    rw [treated]
    exact mem_append_left _ (mem_map_of_mem (mem_filter.mpr ⟨member, by simpa⟩))
  have unseen : e ∈ loop.map Prod.fst := by
    rw [applyEntries_ok ran]
    exact mem_filter.mpr ⟨member, by simpa⟩
  obtain ⟨⟨_, treatment⟩, inLoop, rfl⟩ := mem_map.mp unseen
  have reported := treated ▸ mem_append_right _ inLoop
  rcases applyEntries_mem ran inLoop with rfl | ⟨rfl, decision⟩
  · exact .inl reported
  · exact .inr (.inr ⟨reported, decision⟩)

variable {req : ReplicateRequest} {reception : Reception}

/-- A request with entries is answered only when the peer committed it. -/
theorem pushMutations_ok
    (answered : pushMutations rules reception db req = .ok result) (nonempty : req.entries ≠ []) :
    Applied rules reception.faults (reception.isRelay || req.receiverIsRelay) db req.entries
      result := by
  unfold pushMutations at answered
  split at answered
  · cases answered
  split at answered
  · cases answered
  split at answered
  · cases answered
  · cases answered
  split at answered
  · cases answered
  split at answered
  · rename_i none
    exact absurd (isEmpty_iff.mp none) nonempty
  cases applied : applyRemoteMutationsFrom rules reception.faults reception.isRelay
      req.receiverIsRelay db req.entries with
  | error _ =>
    rw [applied] at answered
    cases answered
  | ok committed =>
    rw [applied] at answered
    cases answered
    exact (applyRemoteMutationsFrom_ok applied).resolve_left fun empty => nonempty empty.1

/-! ## What a page holds -/

/-- Every row on the page that the filters let through is among the entries. -/
def Carries (setup : Setup σ τ Statement PeerStatement) (batch : Batch)
    (entries : List MutationEntry) : Prop :=
  ∀ row ∈ batch.rows, batch.lastSeq < row.1 → row.1 ≤ batch.maxSeqSeen →
    row.2.origin ≠ setup.peerName →
    ¬ (batch.lacksProofSupport = true ∧ entryTouchesCustomMerge setup.shapes row.2.stmts = true) →
    entryOf row ∈ entries

variable {setup : Setup σ τ Statement PeerStatement}

theorem mem_of_mem_outgoing {lacksProofSupport : Bool}
    (member : e ∈ outgoing setup lacksProofSupport entries) : e ∈ entries := by
  cases lacksProofSupport with
  | false => exact member
  | true => exact mem_of_mem_filter member

theorem carries_outgoing {read : Read} (lacksProofSupport : Bool)
    (carries : Carries setup ⟨read, false⟩ entries) :
    Carries setup ⟨read, lacksProofSupport⟩ (outgoing setup lacksProofSupport entries) := by
  intro row member later covered foreign supported
  have listed := carries row member later covered foreign (fun lacks => nomatch lacks.1)
  cases lacksProofSupport with
  | false => exact listed
  | true =>
    have plain : entryTouchesCustomMerge setup.shapes (entryOf row).stmts = false :=
      Bool.eq_false_iff.mpr fun touches => supported ⟨rfl, touches⟩
    exact mem_filter.mpr ⟨listed, by rw [plain]; rfl⟩

/-! ## The invariant -/

def Reached (setup : Setup σ τ Statement PeerStatement) (commits : List Commit)
    (e : MutationEntry) : Prop :=
  ∃ commit ∈ commits, Acknowledged setup.peerRules commit e

/-- Every row the batch had to carry up to a number has reached the peer. -/
def Delivered (setup : Setup σ τ Statement PeerStatement) (commits : List Commit)
    (batch : Batch) (upTo : Nat) : Prop :=
  ∀ row ∈ batch.rows, batch.lastSeq < row.1 → row.1 ≤ upTo →
    row.2.origin ≠ setup.peerName →
    ¬ (batch.lacksProofSupport = true ∧ entryTouchesCustomMerge setup.shapes row.2.stmts = true) →
    Reached setup commits (entryOf row)

/-- The stored batches leave no gap up to a number. -/
def Covers (stored : List (Batch × Nat)) (upTo : Nat) : Prop :=
  ∀ seq, 0 < seq → seq ≤ upTo → ∃ entry ∈ stored, entry.1.lastSeq < seq ∧ seq ≤ entry.2

/-- An answered request has reached the peer, and the answer is its last number. -/
def Answered (setup : Setup σ τ Statement PeerStatement) (link : Link σ τ) : Prop :=
  ∀ request appliedUpTo, (request, appliedUpTo) ∈ link.replies →
    ∀ req, link.sent[request]? = some req → req.entries ≠ [] →
      (∀ e ∈ req.entries, Reached setup link.commits e) ∧
        ∃ last ∈ req.entries, appliedUpTo = last.seq

/-- What holds at each point of a call. -/
def Standing (setup : Setup σ τ Statement PeerStatement) (link : Link σ τ) : Call → Prop
  | .idle => True
  | .reading lastSeq => lastSeq = link.watermark.getD 0
  | .filtering read entries =>
    read.lastSeq = link.watermark.getD 0 ∧ Carries setup ⟨read, false⟩ entries ∧
      ∀ e ∈ entries, e.seq ≤ read.maxSeqSeen
  | .pushing batch entries request =>
    batch.lastSeq = link.watermark.getD 0 ∧ Carries setup batch entries ∧
      (∀ e ∈ entries, e.seq ≤ batch.maxSeqSeen) ∧ entries ≠ [] ∧
      ∃ req, link.sent[request]? = some req ∧ req.entries = entries
  | .storing batch seq =>
    batch.lastSeq = link.watermark.getD 0 ∧ Delivered setup link.commits batch seq

structure Gapless (setup : Setup σ τ Statement PeerStatement) (link : Link σ τ) : Prop where
  covers : Covers link.stored (link.watermark.getD 0)
  delivered : ∀ entry ∈ link.stored, Delivered setup link.commits entry.1 entry.2
  known : ∀ reply ∈ link.replies, reply.1 < link.sent.length
  answered : Answered setup link
  standing : Standing setup link link.call

theorem gapless_initial (setup : Setup σ τ Statement PeerStatement) (sender : σ) (peer : τ) :
    Gapless setup (initial sender peer) where
  covers _ positive bounded := absurd positive (Nat.not_lt.mpr bounded)
  delivered := nofun
  known := nofun
  answered := nofun
  standing := trivial

theorem pushedUpTo_eq {maxSeqSeen reply : Nat} (bounded : ∀ e ∈ entries, e.seq ≤ maxSeqSeen)
    (last : ∃ e ∈ entries, reply = e.seq) : pushedUpTo entries maxSeqSeen reply = maxSeqSeen := by
  obtain ⟨e, member, rfl⟩ := last
  have tail : (entries.getLast?.map (·.seq)).getD 0 ≤ maxSeqSeen := by
    cases final : entries.getLast? with
    | none => exact Nat.zero_le _
    | some sent => exact bounded sent (mem_of_getLast? final)
  have here := bounded e member
  unfold pushedUpTo
  split <;> dsimp only <;> split <;> omega

variable {batch : Batch} {commits : List Commit}

theorem Carries.delivered (carries : Carries setup batch entries)
    (reached : ∀ e ∈ entries, Reached setup commits e) :
    Delivered setup commits batch batch.maxSeqSeen :=
  fun row member later covered foreign supported =>
    reached _ (carries row member later covered foreign supported)

theorem Reached.more (reached : Reached setup commits e) (commit : Commit) :
    Reached setup (commit :: commits) e := by
  obtain ⟨earlier, member, acknowledged⟩ := reached
  exact ⟨earlier, mem_cons_of_mem _ member, acknowledged⟩

theorem Delivered.more {upTo : Nat} (delivered : Delivered setup commits batch upTo)
    (commit : Commit) : Delivered setup (commit :: commits) batch upTo :=
  fun row member later covered foreign supported =>
    (delivered row member later covered foreign supported).more commit

variable {link : Link σ τ}

/-- A step that leaves the shared state alone keeps the invariant if it leaves
the call where the invariant still describes it. -/
theorem Gapless.recall (gapless : Gapless setup link) {call : Call}
    (standing : Standing setup link call) : Gapless setup { link with call } :=
  { gapless with
    standing := by
      cases call <;> exact standing }

theorem Gapless.serve (gapless : Gapless setup link) {request : Nat}
    (sent : link.sent[request]? = some req)
    (answered : pushMutations setup.peerRules reception link.peer.db req = .ok result) :
    Gapless setup { link with
      peer := link.peer.install result.db (Receiver.ranKeys result.treated)
      commits := ⟨link.peer.db.mutationSeen, result.treated⟩ :: link.commits
      replies := (request, result.appliedUpTo) :: link.replies } where
  covers := gapless.covers
  delivered entry member := (gapless.delivered entry member).more _
  known reply member := by
    rcases List.mem_cons.mp member with rfl | earlier
    · exact (List.getElem?_eq_some_iff.mp sent).1
    · exact gapless.known reply earlier
  answered other appliedUpTo member asked askedSent nonempty := by
    rcases mem_cons.mp member with same | earlier
    · cases same
      obtain rfl : req = asked := Option.some.inj (sent.symm.trans askedSent)
      have batch := pushMutations_ok answered nonempty
      obtain ⟨last, final, acknowledged⟩ := batch.acknowledged
      refine ⟨fun e held => ?_, last, mem_of_getLast? final, acknowledged⟩
      exact ⟨_, mem_cons_self, acknowledged_of_applied batch held⟩
    · obtain ⟨reached, last⟩ := gapless.answered other appliedUpTo earlier asked askedSent nonempty
      exact ⟨fun e held => (reached e held).more _, last⟩
  standing := by
    have standing := gapless.standing
    revert standing
    cases link.call with
    | storing batch seq => exact fun ⟨at_, delivered⟩ => ⟨at_, delivered.more _⟩
    | _ => exact id

theorem Gapless.send (gapless : Gapless setup link) (req : ReplicateRequest)
    (position : batch.lastSeq = link.watermark.getD 0) (carries : Carries setup batch req.entries)
    (bounded : ∀ e ∈ req.entries, e.seq ≤ batch.maxSeqSeen) (nonempty : req.entries ≠ []) :
    Gapless setup { link with
      sent := link.sent ++ [req]
      call := .pushing batch req.entries link.sent.length } where
  covers := gapless.covers
  delivered := gapless.delivered
  known reply member := by
    have before := gapless.known reply member
    simp only [length_append, length_singleton]
    omega
  answered request appliedUpTo member asked askedSent := by
    have before : request < link.sent.length := gapless.known _ member
    rw [getElem?_append_left before] at askedSent
    exact gapless.answered request appliedUpTo member asked askedSent
  standing := ⟨position, carries, bounded, nonempty, req, by simp, rfl⟩

theorem Gapless.store (gapless : Gapless setup link) {seq : Nat}
    (position : batch.lastSeq = link.watermark.getD 0)
    (delivered : Delivered setup link.commits batch seq) :
    Gapless setup { link with
      watermark := some seq
      stored := (batch, seq) :: link.stored
      call := .idle } where
  covers number positive bounded := by
    by_cases earlier : number ≤ link.watermark.getD 0
    · obtain ⟨entry, member, range⟩ := gapless.covers number positive earlier
      exact ⟨entry, mem_cons_of_mem _ member, range⟩
    · have later : batch.lastSeq < number := by omega
      exact ⟨(batch, seq), mem_cons_self, later, bounded⟩
  delivered entry member := by
    rcases mem_cons.mp member with rfl | earlier
    · exact delivered
    · exact gapless.delivered entry earlier
  known := gapless.known
  answered := gapless.answered
  standing := trivial

theorem gapless_step {next : Link σ τ} {action : Action σ τ}
    (stepped : step setup link action = some next) (gapless : Gapless setup link) :
    Gapless setup next := by
  have standing := gapless.standing
  cases action with
  | sender action =>
    obtain ⟨sender, _, rfl⟩ := Option.map_eq_some_iff.mp stepped
    exact ⟨gapless.covers, gapless.delivered, gapless.known, gapless.answered,
      gapless.standing⟩
  | peer action =>
    obtain ⟨peer, _, rfl⟩ := Option.map_eq_some_iff.mp stepped
    exact ⟨gapless.covers, gapless.delivered, gapless.known, gapless.answered,
      gapless.standing⟩
  | getWatermark =>
    simp only [step] at stepped
    split at stepped
    · cases stepped
      exact gapless.recall rfl
    · cases stepped
  | readMutationLog =>
    simp only [step] at stepped
    split at stepped
    · rename_i lastSeq call
      cases stepped
      rw [call] at standing
      refine gapless.recall ⟨standing, ?_, ?_⟩
      · intro row member later covered foreign _
        refine mem_map_of_mem (mem_filter.mpr ⟨?_, by simpa using foreign⟩)
        exact Journal.mem_page_of_le member later covered
      · intro e member
        obtain ⟨row, kept, rfl⟩ := mem_map.mp member
        exact Journal.le_highest (mem_of_mem_filter kept)
    · cases stepped
  | push lacksProofSupport senderSchemaVersion receiverIsRelay =>
    simp only [step] at stepped
    split at stepped
    · rename_i read unfiltered call
      rw [call] at standing
      obtain ⟨position, carries, bounded⟩ := standing
      have filtered := carries_outgoing lacksProofSupport carries
      split at stepped
      · rename_i empty
        cases stepped
        rw [isEmpty_iff.mp empty] at filtered
        split
        · exact gapless.recall ⟨position, filtered.delivered nofun⟩
        · exact gapless.recall trivial
      · rename_i some
        cases stepped
        exact gapless.send
          ⟨setup.hostName, read.lastSeq, outgoing setup lacksProofSupport unfiltered,
            senderSchemaVersion, receiverIsRelay⟩
          position filtered (fun e member => bounded e (mem_of_mem_outgoing member))
          (fun empty => some (isEmpty_iff.mpr empty))
    · cases stepped
  | serve request reception =>
    simp only [step] at stepped
    split at stepped
    · cases stepped
    rename_i req sent
    split at stepped
    · cases stepped
      exact gapless
    · rename_i result answered
      cases stepped
      exact gapless.serve sent answered
  | reply appliedUpTo =>
    simp only [step] at stepped
    split at stepped
    · rename_i batch entries request call
      rw [call] at standing
      obtain ⟨position, carries, bounded, nonempty, req, sent, rfl⟩ := standing
      split at stepped
      · rename_i given
        cases stepped
        obtain ⟨reached, last⟩ := gapless.answered _ _ given req sent nonempty
        rw [pushedUpTo_eq bounded last]
        split
        · exact gapless.recall ⟨position, carries.delivered reached⟩
        · exact gapless.recall trivial
      · cases stepped
    · cases stepped
  | setWatermark =>
    simp only [step] at stepped
    split at stepped
    · rename_i batch seq call
      cases stepped
      rw [call] at standing
      exact gapless.store standing.1 standing.2
    · cases stepped
  | fail =>
    cases stepped
    exact gapless.recall trivial

/-- Whenever a watermark is stored, the batches it was stored for leave no gap
up to it, and each row that was in the log when its batch was read, did not
originate at the peer and was not left out by the proof filter was acknowledged
by a batch the peer committed: run, found seen, or set aside as a workload delete
from before workload authority. -/
theorem noEntrySkipped {setup : Setup σ τ Statement PeerStatement} {sender : σ} {peer : τ}
    {link : Link σ τ}
    (run : Run (step setup) (fun _ _ => True) (initial sender peer) link)
    {s : Nat} (watermark : link.watermark = some s) :
    (∀ seq, 0 < seq → seq ≤ s →
      ∃ entry ∈ link.stored, entry.1.lastSeq < seq ∧ seq ≤ entry.2) ∧
    ∀ entry ∈ link.stored, ∀ row ∈ entry.1.rows,
      entry.1.lastSeq < row.1 → row.1 ≤ entry.2 →
      row.2.origin ≠ setup.peerName →
      ¬ (entry.1.lacksProofSupport = true ∧
        entryTouchesCustomMerge setup.shapes row.2.stmts = true) →
      ∃ commit ∈ link.commits, Acknowledged setup.peerRules commit (entryOf row) := by
  have gapless : Gapless setup link :=
    run.invariant (Gapless setup) (gapless_initial setup sender peer)
      fun _ _ _ _ => gapless_step
  have covers := gapless.covers
  rw [watermark] at covers
  exact ⟨covers, gapless.delivered⟩

/-! ## One push of a container delete -/

open Receiver (Container ContainerDelete containerRules deleteCt1 ct1 entryAt ownHLC)

/-- Host `h1` pushes container deletes to `h2`. -/
def deletes : Setup (List Container) (List Container) ContainerDelete ContainerDelete where
  hostName := "h1"
  peerName := "h2"
  rules := containerRules deleteCt1
  peerRules := containerRules deleteCt1
  shapes := {
    unmarshal := fun text => (deleteCt1 text).toOption
    legacyTransformerFor := fun _ => none
    parseStmtShape := fun _ => some "containers" }

def welcoming : Reception where
  replicatorReady := true
  requireReplicationPeer := none
  requireNotIsolated := none
  effectiveDBSchema := 60
  isRelay := false
  faults _ := none

def pushOfDelete : List (Action (List Container) (List Container)) :=
  [.sender (.execute ownHLC "[delete ct1]" []), .getWatermark, .readMutationLog,
    .push false 60 false, .serve 0 welcoming, .reply 1, .setWatermark]

def pushedDelete : MutationEntry := entryAt 1 "h1" ownHLC

/-- A peer whose row carries no authority runs the delete. -/
theorem delete_pushed :
    ∃ link, Run (step deletes) (fun _ _ => True)
        (initial [] [ct1 0]) link ∧ link.watermark = some 1 ∧
      ∃ entry ∈ link.stored, entry.1.lastSeq < 1 ∧ 1 ≤ entry.2 :=
  (Run.reaches pushOfDelete (by decide +kernel)).imp fun _ ⟨run, stored⟩ =>
    ⟨run, stored, (noEntrySkipped run stored).1 1 Nat.one_pos (Nat.le_refl 1)⟩

/-- The batch was stored as the watermark and carried the row, and the peer has
neither run the row's entry nor found it seen. -/
def PassedOver (row : Nat × Mutation) (link : Link (List Container) (List Container)) : Prop :=
  (∃ entry ∈ link.stored, row ∈ entry.1.rows ∧ entry.1.lastSeq < row.1 ∧ row.1 ≤ entry.2 ∧
      entry.1.lacksProofSupport = false) ∧
    ∀ commit ∈ link.commits,
      (entryOf row, .applied) ∉ commit.treated ∧ (entryOf row, .seen) ∉ commit.treated

instance (row : Nat × Mutation) (link : Link (List Container) (List Container)) :
    Decidable (PassedOver row link) :=
  inferInstanceAs (Decidable (_ ∧ _))

/-- A peer whose row has an owner acknowledges the delete and keeps the row. -/
theorem delete_acknowledged_unrun :
    ((exec (step deletes) pushOfDelete (initial [] [ct1 1])).any fun link =>
      link.watermark = some 1 ∧
        PassedOver (1, pushedDelete.toMutation) link ∧ pushedDelete.origin ≠ deletes.peerName ∧
        link.peer.db.tables = [ct1 1]) = true := by
  decide +kernel

end Link

end Litevirt.Sync

import Litevirt.Holdings.Cascade
import Litevirt.Lib.Transition

/-!
# A user who is deleted and created again

Nodes issue what a user holds, delete the user and create the name again.  Once everything has
been exchanged, no node accepts what was issued before the delete, provided that the delete's
clock is past every pointer and binding issued before it and that the user's tokens were revoked:
`DeleteUser` does not touch tokens, so the others come back with the name.
-/

namespace Litevirt.Holdings

open Litevirt.Lib Litevirt.Sync List Function Option

/-! ## The cluster -/

structure Entry (ι : Type) where
  host : ι
  clock : Key
  changes : List Change
  deriving DecidableEq

def Entry.deletes {ι : Type} (entry : Entry ι) : Bool := entry.changes = deleteUserBatch

structure Node (ι : Type) where
  rows : Rows
  applied : List (Entry ι)

/-- The nodes, every entry issued so far with the newest first, and the dumps on their way. -/
structure Cluster (ι : Type) where
  nodes : ι → Node ι
  log : List (Entry ι)
  dumps : List Rows

inductive Event (ι : Type) where
  | perform (host : ι) (operation : Operation) (clock : Key)
  | deliver (host : ι) (index : Nat) (skewGuard : Option Int)
  /-- A statement of an applied entry was parked for its row and runs now. -/
  | replay (host : ι) (entry statement : Nat) (skewGuard : Option Int)
  | dump (host : ι)
  | merge (host : ι) (dump : Nat) (wanted : Holding → Bool)

/-- A row of a dump beside the stored one; clocks tie on the same row only. -/
def mergeRow [GoLayout] (stored offered : Option Row) : Option Row :=
  match stored, offered with
  | none, offered => offered
  | some row, none => some row
  | some row, some other =>
    if lwwOrder row.clock.text other.clock.text = .lt then some other else some row

namespace Cluster

variable {ι : Type} [DecidableEq ι]

def setNode (cluster : Cluster ι) (host : ι) (node : Node ι) : Cluster ι :=
  { cluster with nodes := Function.update cluster.nodes host node }

def step [GoLayout] (cluster : Cluster ι) : Event ι → Option (Cluster ι)
  | .perform host operation clock =>
    let node := cluster.nodes host
    (operation.changes node.rows).map fun changes =>
      let entry : Entry ι := ⟨host, clock, changes⟩
      { cluster.setNode host ⟨writeAll node.rows clock changes, entry :: node.applied⟩ with
        log := entry :: cluster.log }
  | .deliver host index skewGuard =>
    let node := cluster.nodes host
    cluster.log[index]?.map fun entry =>
      cluster.setNode host
        ⟨applyAll skewGuard node.rows entry.clock entry.changes, entry :: node.applied⟩
  | .replay host index statement skewGuard =>
    let node := cluster.nodes host
    node.applied[index]?.bind fun entry =>
      entry.changes[statement]?.map fun change =>
        cluster.setNode host
          { node with rows := applyAll skewGuard node.rows entry.clock [change] }
  | .dump host => some { cluster with dumps := (cluster.nodes host).rows :: cluster.dumps }
  | .merge host index wanted =>
    let node := cluster.nodes host
    cluster.dumps[index]?.map fun rows =>
      cluster.setNode host
        { node with
          rows := fun key => if wanted key then mergeRow (node.rows key) (rows key)
            else node.rows key }

structure Exchanged (cluster : Cluster ι) : Prop where
  applied : ∀ host, ∀ entry ∈ cluster.log, entry ∈ (cluster.nodes host).applied
  agree : ∀ host other, (cluster.nodes host).rows = (cluster.nodes other).rows

end Cluster

def issuedBeforeDelete {ι : Type} (log : List (Entry ι)) : List (Entry ι) :=
  (log.dropWhile fun entry => !entry.deletes).drop 1

/-! ## Runs -/

section Runs

variable {ι : Type} [GoLayout]

def Operation.mints : Operation → Option Change
  | insertToken id hash expiresAt => some (.upsert (.token id) (.token hash expiresAt))
  | insertUser2FA _ _ _ epoch => some (.upsert .factorSet (.pointer epoch))
  | insertRecoveryCodes setID _ => some (.upsert .codeSet (.pointer setID))
  | insertRoleBinding id path role principal =>
    some (.upsert (.binding id) (.binding path role principal))
  | _ => none

/-- Clocks are distinct and a node's clock is past the entries it applied; ids are new. -/
def Permitted (cluster : Cluster ι) : Event ι → Prop
  | .perform host operation clock =>
    (∀ entry ∈ cluster.log, lwwOrder entry.clock.text clock.text ≠ .eq) ∧
      (∀ entry ∈ (cluster.nodes host).applied, lwwOrder entry.clock.text clock.text = .lt) ∧
      ∀ minted ∈ operation.mints, ∀ entry ∈ cluster.log, minted ∉ entry.changes
  | _ => True

def Change.pointsOrBinds : Change → Bool
  | upsert .factorSet _ => true
  | upsert .codeSet _ => true
  | upsert (.binding _) _ => true
  | _ => false

def Change.isTombstone : Change → Bool
  | tombstone _ => true
  | _ => false

def Change.tokenID : Change → Option String
  | upsert (.token id) _ => some id
  | _ => none

/-- The delete comes after every pointer and binding by its clock, and after the revocation
of every token. -/
def Covered (log : List (Entry ι)) (clock : Key) : Prop :=
  ∀ entry ∈ log, ∀ change ∈ entry.changes,
    (change.pointsOrBinds = true → lwwOrder entry.clock.text clock.text = .lt) ∧
      ∀ id ∈ change.tokenID, ∃ revocation ∈ log,
        .tombstone (.one (.token id)) ∈ revocation.changes ∧
          lwwOrder entry.clock.text revocation.clock.text = .lt

/-- What the events need: the delete is covered, and no node drops a tombstone as coming from
the future. -/
def Guarded (cluster : Cluster ι) : Event ι → Prop
  | .perform _ .deleteUser clock => Covered cluster.log clock
  | .deliver _ index skewGuard =>
    ∀ entry ∈ cluster.log[index]?, entry.changes.any (·.isTombstone) = true →
      Unskewed skewGuard entry.clock
  | _ => True

end Runs

/-! ## What an operation issues -/

variable {operation : Operation} {rows : Rows}

theorem Operation.upsert_mem {changes : List Change}
    (issued : operation.changes rows = some changes) {key : Holding} {content : Content}
    (member : .upsert key content ∈ changes) :
    (key = .user ∧ ∃ role passwordHash, content = .user role passwordHash) ∨
      key.deciding = true ∧ operation.mints = some (.upsert key content) ∨
      (∃ method label secret epoch, key = .factor method label ∧ content = .factor secret epoch ∧
        (activeSet rows .factorSet = some epoch ∨
          .upsert .factorSet (.pointer epoch) ∈ changes)) ∨
      ∃ hash setID, key = .code hash ∧ content = .code setID false ∧
        .upsert .codeSet (.pointer setID) ∈ changes := by
  cases operation with
  | insertUser role passwordHash =>
    simp only [Operation.changes] at issued
    split at issued
    · obtain rfl := Option.some.inj issued
      obtain ⟨rfl, rfl⟩ := Change.upsert.inj (mem_singleton.mp member)
      exact .inl ⟨rfl, _, _, rfl⟩
    split at issued
    · obtain rfl := Option.some.inj issued
      cases mem_singleton.mp member
    · cases issued
  | insertToken id hash expiresAt | insertRoleBinding id path role principal =>
    obtain ⟨-, issued⟩ := ite_none_left_eq_some.mp issued
    obtain rfl := Option.some.inj issued
    obtain ⟨rfl, rfl⟩ := Change.upsert.inj (mem_singleton.mp member)
    exact .inr (.inl ⟨rfl, rfl⟩)
  | revokeToken id | touchUser2FA method label | markRecoveryCodeUsed hash
  | deleteRoleBinding id =>
    obtain rfl := Option.some.inj issued
    cases mem_singleton.mp member
  | insertUser2FA method label secret epoch =>
    simp only [Operation.changes] at issued
    split at issued
    · rename_i active found
      obtain rfl := Option.some.inj issued
      obtain ⟨rfl, rfl⟩ := Change.upsert.inj (mem_singleton.mp member)
      exact .inr (.inr (.inl ⟨_, _, _, _, rfl, rfl, .inl found⟩))
    obtain rfl := Option.some.inj issued
    rcases mem_cons.mp member with pointer | factor
    · obtain ⟨rfl, rfl⟩ := Change.upsert.inj pointer
      exact .inr (.inl ⟨rfl, rfl⟩)
    · obtain ⟨rfl, rfl⟩ := Change.upsert.inj (mem_singleton.mp factor)
      exact .inr (.inr (.inl ⟨_, _, _, _, rfl, rfl, .inr mem_cons_self⟩))
  | insertRecoveryCodes setID hashes =>
    obtain rfl := Option.some.inj issued
    rcases mem_cons.mp member with pointer | rest
    · obtain ⟨rfl, rfl⟩ := Change.upsert.inj pointer
      exact .inr (.inl ⟨rfl, rfl⟩)
    rcases mem_cons.mp rest with retired | code
    · cases retired
    · obtain ⟨hash, -, same⟩ := mem_map.mp code
      obtain ⟨rfl, rfl⟩ := Change.upsert.inj same
      exact .inr (.inr (.inr ⟨_, _, rfl, rfl, mem_cons_self⟩))
  | deleteUser =>
    obtain rfl := Option.some.inj issued
    simp [deleteUserBatch] at member

theorem Operation.deletes
    (issued : operation.changes rows = some deleteUserBatch) : operation = .deleteUser := by
  cases operation with
  | deleteUser => rfl
  | _ => grind [Operation.changes, deleteUserBatch]

/-! ## The history -/

section History

variable {ι : Type} [GoLayout] {log : List (Entry ι)} {entry : Entry ι}

/-- The content is one of the table of the key. -/
def Change.typed : Change → Bool
  | upsert .user (.user _ _) => true
  | upsert (.token _) (.token _ _) => true
  | upsert .factorSet (.pointer _) => true
  | upsert .codeSet (.pointer _) => true
  | upsert (.factor _ _) (.factor _ _) => true
  | upsert (.code _) (.code _ _) => true
  | upsert (.binding _) (.binding _ _ _) => true
  | upsert _ _ => false
  | _ => true

/-- What an entry adds to the history: its ids are new, its factors and codes belong to a set
that was minted, and a delete is covered. -/
structure Adds (earlier : List (Entry ι)) (entry : Entry ι) : Prop where
  typed : ∀ change ∈ entry.changes, change.typed = true
  fresh : ∀ key content, key.deciding = true → .upsert key content ∈ entry.changes →
    ∀ before ∈ earlier, .upsert key content ∉ before.changes
  epoch : ∀ method label secret epoch,
    .upsert (.factor method label) (.factor secret epoch) ∈ entry.changes →
      ∃ source ∈ entry :: earlier, .upsert .factorSet (.pointer epoch) ∈ source.changes
  set : ∀ hash setID used, .upsert (.code hash) (.code setID used) ∈ entry.changes →
    ∃ source ∈ entry :: earlier, .upsert .codeSet (.pointer setID) ∈ source.changes
  covered : entry.deletes = true → Covered earlier entry.clock

/-- A history with the newest entry first. -/
def Chronicle : List (Entry ι) → Prop
  | [] => True
  | entry :: earlier => Adds earlier entry ∧ Chronicle earlier

theorem Chronicle.adds (chronicle : Chronicle log) {later earlier : List (Entry ι)}
    (split : log = later ++ entry :: earlier) : Adds earlier entry := by
  subst split
  induction later with
  | nil => exact chronicle.1
  | cons _ _ ih => exact ih chronicle.2

theorem Chronicle.issued_once (chronicle : Chronicle log) {first second : Entry ι}
    (inFirst : first ∈ log) (inSecond : second ∈ log) {key : Holding} {content : Content}
    (deciding : key.deciding = true) (issued : .upsert key content ∈ first.changes)
    (again : .upsert key content ∈ second.changes) : first = second := by
  induction log with
  | nil => cases inFirst
  | cons entry earlier ih =>
    have fresh := chronicle.1.fresh key content deciding
    rcases mem_cons.mp inFirst with rfl | old
    · rcases mem_cons.mp inSecond with rfl | older
      · rfl
      · exact absurd again (fresh issued second older)
    · rcases mem_cons.mp inSecond with rfl | older
      · exact absurd issued (fresh again first old)
      · exact ih chronicle.2 old older

omit [GoLayout] in
theorem issuedBeforeDelete_split (member : entry ∈ issuedBeforeDelete log) :
    ∃ later deletion, log = later ++ deletion :: issuedBeforeDelete log ∧
      deletion.deletes = true := by
  unfold issuedBeforeDelete at member ⊢
  cases rest : log.dropWhile fun entry => !entry.deletes with
  | nil =>
    rw [rest] at member
    cases member
  | cons deletion earlier =>
    refine ⟨log.takeWhile fun entry => !entry.deletes, deletion, ?_, ?_⟩
    · have whole := takeWhile_append_dropWhile (p := fun entry : Entry ι => !entry.deletes)
        (l := log)
      rw [rest] at whole
      exact whole.symm
    · have kept := head_dropWhile_not (fun entry : Entry ι => !entry.deletes)
        (l := log) (by rw [rest]; exact cons_ne_nil _ _)
      simp only [rest, head_cons] at kept
      simpa using kept

end History

/-! ## The invariant -/

section Invariant

variable {ι : Type}

/-- Every live deciding row was issued in the history. -/
def Sourced (log : List (Entry ι)) (rows : Rows) : Prop :=
  ∀ key row, key.deciding = true → rows key = some row → row.deleted = false →
    ∃ entry ∈ log, entry.clock = row.clock ∧ .upsert key row.content ∈ entry.changes

def Entry.covers (entry : Entry ι) (key : Holding) : Prop :=
  ∃ change ∈ entry.changes, change.covers key = true

/-- A node holds a row at least as new as what was issued; after a later tombstone, a newer
one or a tombstone. -/
def Kept (node : Node ι) (entry : Entry ι) (key : Holding) : Prop :=
  ∃ row, node.rows key = some row ∧ entry.clock.rank ≤ row.clock.rank ∧
    ∀ later ∈ node.applied, later.covers key → entry.clock.rank < later.clock.rank →
      entry.clock.rank < row.clock.rank ∨ row.deleted = true

variable {log : List (Entry ι)} {rows : Rows}

theorem Sourced.mono {more : List (Entry ι)} (sourced : Sourced log rows)
    (subset : ∀ entry ∈ log, entry ∈ more) : Sourced more rows := by
  intro key row deciding found live
  obtain ⟨entry, member, source⟩ := sourced key row deciding found live
  exact ⟨entry, subset entry member, source⟩

variable {entry : Entry ι} {changes : List Change}

theorem Sourced.run {after : Rows} (sourced : Sourced log rows) (member : entry ∈ log)
    (among : ∀ change ∈ changes, change ∈ entry.changes) (cases : ∀ key, key.deciding = true →
      after key = rows key ∨ Written changes entry.clock key (after key)) : Sourced log after := by
  intro key row deciding found live
  rcases cases key deciding with same | ⟨written, here, stamped, issued⟩
  · exact sourced key row deciding (same ▸ found) live
  · obtain rfl := Option.some.inj (here.symm.trans found)
    exact ⟨entry, member, stamped.symm, among _ (issued live)⟩

variable {node : Node ι} {key : Holding}

/-- Entries are applied that leave the row or replace it by one past what was issued, and
spend it when they cover the key. -/
theorem Kept.receive (kept : Kept node entry key) (more : List (Entry ι))
    (advances : rows key = node.rows key ∨
      ∃ row, rows key = some row ∧ entry.clock.rank < row.clock.rank)
    (spends : ∀ later ∈ more, later.covers key → ∀ row, node.rows key = some row →
      row.clock.rank < later.clock.rank → Spent later.clock (rows key)) :
    Kept ⟨rows, more ++ node.applied⟩ entry key := by
  obtain ⟨row, found, held, spent⟩ := kept
  rcases advances with same | ⟨after, here, past⟩
  · refine ⟨row, same.trans found, held, fun later applied covers past => ?_⟩
    rcases mem_append.mp applied with new | before
    · rcases lt_or_ge entry.clock.rank row.clock.rank with ahead | level
      · exact .inl ahead
      · obtain ⟨after, here, reason⟩ := spends later new covers row found (level.trans_lt past)
        obtain rfl := Option.some.inj ((same.trans found).symm.trans here)
        exact reason.imp_left fun stamped : row.clock = _ => stamped ▸ past
    · exact spent later before covers past
  · exact ⟨after, here, past.le, fun _ _ _ _ => .inl past⟩

variable [GoLayout]

structure Consistent (cluster : Cluster ι) : Prop where
  chronicle : Chronicle cluster.log
  logged : ∀ host, ∀ entry ∈ (cluster.nodes host).applied, entry ∈ cluster.log
  own : ∀ entry ∈ cluster.log, entry ∈ (cluster.nodes entry.host).applied
  sourced : ∀ host, Sourced cluster.log (cluster.nodes host).rows
  dumped : ∀ rows ∈ cluster.dumps, Sourced cluster.log rows
  kept : ∀ entry ∈ cluster.log, ∀ key content, key.deciding = true →
    .upsert key content ∈ entry.changes → Kept (cluster.nodes entry.host) entry key

variable {operation : Operation} {clock : Key}

theorem Operation.adds (sourced : Sourced log rows)
    (host : ι) (issued : operation.changes rows = some changes)
    (fresh : ∀ minted ∈ operation.mints, ∀ entry ∈ log, minted ∉ entry.changes)
    (covered : operation = .deleteUser → Covered log clock) :
    Adds log ⟨host, clock, changes⟩ where
  typed := by
    intro change member
    cases change with
    | upsert key content =>
      rcases upsert_mem issued member with ⟨rfl, _, _, rfl⟩ | ⟨deciding, minted⟩ |
        ⟨_, _, _, _, rfl, rfl, -⟩ | ⟨_, _, rfl, rfl, -⟩
      · rfl
      · cases operation <;> cases minted <;> rfl
      · rfl
      · rfl
    | _ => rfl
  fresh := by
    intro key content deciding member
    rcases upsert_mem issued member with ⟨rfl, -⟩ | ⟨-, minted⟩ | ⟨_, _, _, _, rfl, -⟩ |
      ⟨_, _, rfl, -⟩
    · cases deciding
    · exact fresh _ minted
    · cases deciding
    · cases deciding
  epoch := by
    intro method label secret epoch member
    rcases upsert_mem issued member with ⟨absurd, -⟩ | ⟨absurd, -⟩ |
      ⟨_, _, _, _, -, same, active⟩ | ⟨_, _, absurd, -⟩
    · cases absurd
    · cases absurd
    · cases same
      rcases active with live | minted
      · -- the set was minted before
        obtain ⟨row, found, live, content⟩ := activeSet_eq_some live
        obtain ⟨source, member, -, minted⟩ := sourced _ row rfl found live
        exact ⟨source, mem_cons_of_mem _ member, content ▸ minted⟩
      · exact ⟨_, mem_cons_self, minted⟩
    · cases absurd
  set := by
    intro hash setID used member
    rcases upsert_mem issued member with ⟨absurd, -⟩ | ⟨absurd, -⟩ | ⟨_, _, _, _, absurd, -⟩ |
      ⟨_, _, -, same, minted⟩
    · cases absurd
    · cases absurd
    · cases absurd
    · cases same
      exact ⟨_, mem_cons_self, minted⟩
  covered := fun deletes => covered
    (Operation.deletes (issued.trans (congrArg some (of_decide_eq_true deletes))))

variable {cluster next : Cluster ι}

/-- Entries are issued at a node or delivered to it; the other nodes stay as they are. -/
theorem Consistent.setNode [DecidableEq ι] (consistent : Consistent cluster) (host : ι)
    (issued more : List (Entry ι)) (chronicle : Chronicle (issued ++ cluster.log))
    (logged : ∀ entry ∈ more, entry ∈ issued ++ cluster.log)
    (own : ∀ entry ∈ issued, entry.host = host ∧ entry ∈ more)
    (sourced : Sourced (issued ++ cluster.log) rows)
    (kept : ∀ entry ∈ issued ++ cluster.log, entry.host = host → ∀ key content,
      key.deciding = true → .upsert key content ∈ entry.changes →
        (entry ∈ cluster.log → Kept (cluster.nodes host) entry key) →
          Kept ⟨rows, more ++ (cluster.nodes host).applied⟩ entry key) :
    Consistent { cluster.setNode host ⟨rows, more ++ (cluster.nodes host).applied⟩ with
      log := issued ++ cluster.log } := by
  have grown (entry : Entry ι) : entry ∈ cluster.log → entry ∈ issued ++ cluster.log :=
    mem_append_right _
  have old {entry : Entry ι} (member : entry ∈ issued ++ cluster.log) (away : entry.host ≠ host) :
      entry ∈ cluster.log :=
    (mem_append.mp member).resolve_left fun new => away (own entry new).1
  refine ⟨chronicle, fun other entry applied => ?_, fun entry member => ?_, fun other => ?_,
    fun rows dumped => (consistent.dumped rows dumped).mono grown,
    fun entry member key content deciding upserted => ?_⟩
  · simp only [Cluster.setNode, update_apply] at applied
    split at applied
    · exact (mem_append.mp applied).elim (logged entry)
        fun before => grown entry (consistent.logged host entry before)
    · exact grown entry (consistent.logged other entry applied)
  · simp only [Cluster.setNode, update_apply]
    split
    · rename_i here
      exact mem_append.mpr ((mem_append.mp member).imp (fun new => (own entry new).2)
        fun before => here ▸ consistent.own entry before)
    · rename_i away
      exact consistent.own entry (old member away)
  · simp only [Cluster.setNode, update_apply]
    split
    · exact sourced
    · exact (consistent.sourced other).mono grown
  · simp only [Cluster.setNode, update_apply]
    have held (before : entry ∈ cluster.log) :=
      consistent.kept entry before key content deciding upserted
    split
    · rename_i here
      exact kept entry member here key content deciding upserted (here ▸ held)
    · rename_i away
      exact held (old member away)

theorem Consistent.perform [DecidableEq ι] (consistent : Consistent cluster) {host : ι}
    (permitted : Permitted cluster (.perform host operation clock))
    (guarded : Guarded cluster (.perform host operation clock))
    (stepped : cluster.step (.perform host operation clock) = some next) : Consistent next := by
  obtain ⟨changes, issued, rfl⟩ := map_eq_some_iff.mp stepped
  obtain ⟨-, ahead, fresh⟩ := permitted
  have adds : Adds cluster.log ⟨host, clock, changes⟩ := by
    refine Operation.adds (consistent.sourced host) host issued fresh ?_
    rintro rfl
    exact guarded
  refine consistent.setNode host [⟨host, clock, changes⟩] [⟨host, clock, changes⟩]
    ⟨adds, consistent.chronicle⟩ (fun _ => mem_append_left _) ?_ ?_ ?_
  · exact fun _ only => ⟨mem_singleton.mp only ▸ rfl, only⟩
  · exact ((consistent.sourced host).mono fun _ => mem_cons_of_mem _).run mem_cons_self
      (fun _ member => member) fun key deciding => writeAll_cases _ _ _ deciding
  intro entry member here key content deciding upserted held
  rcases mem_cons.mp member with rfl | old
  · obtain ⟨row, found, stamped⟩ := writeAll_upsert (cluster.nodes _).rows deciding upserted
    refine ⟨row, found, (congrArg Key.rank stamped).ge, fun later applied _ past => ?_⟩
    rcases mem_cons.mp applied with rfl | before
    · exact absurd past (lt_irrefl _)
    · exact absurd past (lwwOrder_eq_lt.mp (ahead later before)).asymm
  have newer := lwwOrder_eq_lt.mp (ahead entry (here ▸ consistent.own entry old))
  refine (held old).receive [_] ?_ ?_
  · refine (writeAll_cases _ _ _ deciding).imp_right ?_
    rintro ⟨row, found, stamped, -⟩
    exact ⟨row, found, stamped ▸ newer⟩
  · rintro _ only covers row found -
    obtain rfl := mem_singleton.mp only
    exact writeAll_spent deciding found covers

theorem mergeRow_cases (stored offered : Option Row) :
    mergeRow stored offered = stored ∨
      mergeRow stored offered = offered ∧ ∃ row, offered = some row ∧
        ∀ old, stored = some old → old.clock.rank < row.clock.rank := by
  unfold mergeRow
  split
  · cases offered with
    | none => exact .inl rfl
    | some row => exact .inr ⟨rfl, row, rfl, nofun⟩
  · exact .inl rfl
  · split
    · rename_i newer
      refine .inr ⟨rfl, _, rfl, fun old same => ?_⟩
      obtain rfl := Option.some.inj same
      exact lwwOrder_eq_lt.mp newer
    · exact .inl rfl

theorem Kept.advances (kept : Kept node entry key) (skewGuard : Option Int) (clock : Key)
    (changes : List Change) (deciding : key.deciding = true) :
    applyAll skewGuard node.rows clock changes key = node.rows key ∨
      ∃ row, applyAll skewGuard node.rows clock changes key = some row ∧
        entry.clock.rank < row.clock.rank := by
  obtain ⟨old, here, held, -⟩ := kept
  rcases applyAll_cases node.rows changes deciding with same | ⟨row, found, stamped, -⟩
  · exact .inl same
  · refine (applyAll_newer node.rows changes deciding).imp_right fun newer => ⟨row, found, ?_⟩
    rw [stamped]
    exact held.trans_lt (newer old here)

/-- What a node receives: entries of the log and rows of dumps. -/
theorem Consistent.receive [DecidableEq ι] (consistent : Consistent cluster) (host : ι)
    (more : List (Entry ι)) (logged : ∀ entry ∈ more, entry ∈ cluster.log)
    (sourced : Sourced cluster.log rows)
    (kept : ∀ entry key, key.deciding = true → Kept (cluster.nodes host) entry key →
      Kept ⟨rows, more ++ (cluster.nodes host).applied⟩ entry key) :
    Consistent (cluster.setNode host ⟨rows, more ++ (cluster.nodes host).applied⟩) :=
  consistent.setNode host [] more consistent.chronicle logged nofun sourced
    fun entry member _ key _ deciding _ held => kept entry key deciding (held member)

theorem Consistent.step [DecidableEq ι] (consistent : Consistent cluster) {event : Event ι}
    (permitted : Permitted cluster event) (guarded : Guarded cluster event)
    (stepped : cluster.step event = some next) : Consistent next := by
  cases event with
  | perform host operation clock => exact consistent.perform permitted guarded stepped
  | deliver host index skewGuard =>
    obtain ⟨entry, found, rfl⟩ := map_eq_some_iff.mp stepped
    have member : entry ∈ cluster.log := mem_of_getElem? found
    refine consistent.receive host [entry] (fun other only => ?_) ?_ ?_
    · exact mem_singleton.mp only ▸ member
    · exact (consistent.sourced host).run member (fun _ listed => listed)
        fun key deciding => applyAll_cases _ _ deciding
    intro before key deciding kept
    refine kept.receive [entry] (kept.advances _ _ _ deciding) ?_
    intro later only covers old held older
    obtain rfl := mem_singleton.mp only
    refine applyAll_spent deciding ?_ held older covers
    refine guarded later found (any_eq_true.mpr ?_)
    obtain ⟨change, listed, reached⟩ := covers
    refine ⟨change, listed, ?_⟩
    cases change <;> first | rfl | cases reached
  | replay host index statement skewGuard =>
    obtain ⟨entry, found, some_⟩ := bind_eq_some_iff.mp stepped
    obtain ⟨change, listed, rfl⟩ := map_eq_some_iff.mp some_
    have member := consistent.logged host entry (mem_of_getElem? found)
    refine consistent.receive host [] nofun ?_ ?_
    · refine (consistent.sourced host).run member (fun other only => ?_)
        fun key deciding => applyAll_cases _ _ deciding
      exact mem_singleton.mp only ▸ mem_of_getElem? listed
    · exact fun before key deciding kept =>
        kept.receive [] (kept.advances _ _ _ deciding) nofun
  | dump host =>
    obtain rfl := Option.some.inj stepped
    obtain ⟨chronicle, logged, own, sourced, dumped, kept⟩ := consistent
    refine ⟨chronicle, logged, own, sourced, fun rows member => ?_, kept⟩
    rcases mem_cons.mp member with rfl | old
    · exact sourced host
    · exact dumped rows old
  | merge host index wanted =>
    obtain ⟨offered, found, rfl⟩ := map_eq_some_iff.mp stepped
    have dumped := consistent.dumped offered (mem_of_getElem? found)
    refine consistent.receive host [] nofun ?_ ?_
    · intro key row deciding held live
      dsimp only at held
      split at held
      · rcases mergeRow_cases ((cluster.nodes host).rows key) (offered key) with same | ⟨took, -⟩
        · exact consistent.sourced host key row deciding (same.symm.trans held) live
        · exact dumped key row deciding (took.symm.trans held) live
      · exact consistent.sourced host key row deciding held live
    · intro before key deciding kept
      refine kept.receive [] ?_ nofun
      obtain ⟨old, here, held, -⟩ := kept
      split
      · refine (mergeRow_cases _ _).imp_right ?_
        rintro ⟨took, row, offers, newer⟩
        exact ⟨row, took.trans offers, held.trans_lt (newer old here)⟩
      · exact .inl rfl

end Invariant

/-! ## Whole runs -/

section Recreated

variable {ι : Type} [GoLayout]

def Cluster.fresh : Cluster ι := ⟨fun _ => ⟨fun _ => none, []⟩, [], []⟩

theorem Consistent.fresh : Consistent (Cluster.fresh : Cluster ι) where
  chronicle := trivial
  logged _ _ applied := absurd applied not_mem_nil
  own _ issued := absurd issued not_mem_nil
  sourced _ _ _ _ found := nomatch found
  dumped _ issued := absurd issued not_mem_nil
  kept _ issued := absurd issued not_mem_nil

variable {cluster : Cluster ι}

variable {entry : Entry ι} {key : Holding}

theorem Consistent.covered (consistent : Consistent cluster)
    (before : entry ∈ issuedBeforeDelete cluster.log) {content : Content}
    (deciding : key.deciding = true) (issued : .upsert key content ∈ entry.changes) :
    entry ∈ cluster.log ∧ ∃ later ∈ cluster.log, later.covers key ∧
      entry.clock.rank < later.clock.rank := by
  obtain ⟨newer, deletion, split, deletes⟩ := issuedBeforeDelete_split before
  have inLog (old : Entry ι) (member : old ∈ issuedBeforeDelete cluster.log) :
      old ∈ cluster.log := by
    rw [split]
    exact mem_append_right _ (mem_cons_of_mem _ member)
  have atDelete : deletion ∈ cluster.log := by
    rw [split]
    exact mem_append_right _ mem_cons_self
  refine ⟨inLog entry before, ?_⟩
  have cascade : deletion.changes = deleteUserBatch := of_decide_eq_true deletes
  obtain ⟨ordered, revoked⟩ :=
    (consistent.chronicle.adds split).covered deletes entry before _ issued
  have byDelete (scope : Scope) (listed : .tombstone scope ∈ deleteUserBatch)
      (reached : (Change.tombstone scope).covers key = true)
      (earlier : lwwOrder entry.clock.text deletion.clock.text = .lt) :
      ∃ later ∈ cluster.log, later.covers key ∧ entry.clock.rank < later.clock.rank := by
    rw [← cascade] at listed
    exact ⟨deletion, atDelete, ⟨_, listed, reached⟩, lwwOrder_eq_lt.mp earlier⟩
  cases key with
  | token id =>
    obtain ⟨revocation, member, listed, past⟩ := revoked id rfl
    refine ⟨revocation, inLog revocation member, ⟨_, listed, ?_⟩, lwwOrder_eq_lt.mp past⟩
    exact decide_eq_true rfl
  | factorSet => exact byDelete .factorSet (by decide) rfl (ordered rfl)
  | codeSet => exact byDelete .codeSet (by decide) rfl (ordered rfl)
  | binding id => exact byDelete .bindings (by decide) rfl (ordered rfl)
  | user | factor _ _ | code _ => cases deciding

/-- Once everything has been exchanged, a live deciding row was issued after the delete. -/
theorem Consistent.issued_after [DecidableEq ι] (consistent : Consistent cluster)
    (exchanged : cluster.Exchanged) {host : ι} {row : Row} (deciding : key.deciding = true)
    (found : (cluster.nodes host).rows key = some row) (live : row.deleted = false)
    (before : entry ∈ issuedBeforeDelete cluster.log) :
    .upsert key row.content ∉ entry.changes := by
  intro issued
  obtain ⟨source, sourceIn, stamped, minted⟩ :=
    consistent.sourced host key row deciding found live
  obtain ⟨inLog, later, laterIn, covers, past⟩ := consistent.covered before deciding issued
  obtain rfl := consistent.chronicle.issued_once sourceIn inLog deciding minted issued
  obtain ⟨held, here, -, spent⟩ := consistent.kept source inLog key row.content deciding issued
  rw [exchanged.agree source.host host, found] at here
  obtain rfl := Option.some.inj here
  rcases spent later (exchanged.applied source.host later laterIn) covers past with newer | mark
  · rw [stamped] at newer
    exact lt_irrefl _ newer
  · rw [live] at mark
    cases mark

/-- What the factors and codes issued before a delete belong to was issued before it too. -/
theorem Consistent.adds_before (consistent : Consistent cluster)
    (before : entry ∈ issuedBeforeDelete cluster.log) :
    ∃ earlier, Adds earlier entry ∧
      ∀ source ∈ entry :: earlier, source ∈ issuedBeforeDelete cluster.log := by
  obtain ⟨newer, deletion, split, -⟩ := issuedBeforeDelete_split before
  obtain ⟨between, earlier, older⟩ := append_of_mem before
  have whole : cluster.log = (newer ++ deletion :: between) ++ entry :: earlier := by
    rw [append_assoc, cons_append, ← older]
    exact split
  refine ⟨earlier, consistent.chronicle.adds whole, fun source member => ?_⟩
  rw [older]
  exact mem_append_right _ member

theorem Consistent.pointer_inactive [DecidableEq ι] (consistent : Consistent cluster)
    (exchanged : cluster.Exchanged) (host : ι) (deciding : key.deciding = true) {active : String}
    {source : Entry ι} (before : source ∈ issuedBeforeDelete cluster.log)
    (issued : .upsert key (.pointer active) ∈ source.changes) :
    activeSet (cluster.nodes host).rows key ≠ some active := by
  intro live
  obtain ⟨row, found, present, content⟩ := activeSet_eq_some live
  refine consistent.issued_after exchanged deciding found present before ?_
  rw [content]
  exact issued

/-- In every run with covered deletes, once everything has been exchanged no node accepts what
was issued before the last delete of the user. -/
theorem deleted_holdings_refused [DecidableEq ι] {last : Cluster ι}
    (run : Run Cluster.step (fun cluster event => Permitted cluster event ∧ Guarded cluster event)
      Cluster.fresh last) (exchanged : last.Exchanged) (host : ι) (cutoff : String)
    {entry : Entry ι} (before : entry ∈ issuedBeforeDelete last.log) {key : Holding}
    {content : Content} (issued : .upsert key content ∈ entry.changes) :
    accepts (last.nodes host).rows cutoff key content = false := by
  have consistent : Consistent last :=
    run.invariant Consistent Consistent.fresh fun _ _ _ admitted stepped holds =>
      holds.step admitted.1 admitted.2 stepped
  obtain ⟨earlier, adds, older⟩ := consistent.adds_before before
  have typed := adds.typed _ issued
  rw [Bool.eq_false_iff]
  intro accepted
  simp only [accepts, Option.any_eq_true, Bool.and_eq_true, decide_eq_true_eq,
    Bool.not_eq_eq_eq_not, Bool.not_true] at accepted
  obtain ⟨row, found, ⟨rfl, live⟩, rest⟩ := accepted
  have deciding (decides : key.deciding = true) : False :=
    consistent.issued_after exchanged decides found live before issued
  cases key with
  | token id | binding id | factorSet | codeSet => exact deciding rfl
  | user =>
    cases held : row.content with
    | user role passwordHash => rw [held] at rest; cases rest
    | _ => rw [held] at typed; cases typed
  | factor method label =>
    -- The factor's epoch was minted before the delete as well.
    cases held : row.content with
    | factor secret epoch =>
      rw [held] at issued rest
      obtain ⟨source, member, minted⟩ := adds.epoch method label secret epoch issued
      exact consistent.pointer_inactive exchanged host rfl (older source member) minted
        (of_decide_eq_true rest)
    | _ => rw [held] at typed; cases typed
  | code hash =>
    cases held : row.content with
    | code setID used =>
      rw [held] at issued rest
      obtain ⟨source, member, minted⟩ := adds.set hash setID used issued
      exact consistent.pointer_inactive exchanged host rfl (older source member) minted
        (of_decide_eq_true (Bool.and_eq_true_iff.mp rest).2)
    | _ => rw [held] at typed; cases typed

/-- No node and no dump has a row that no entry inserts, and a node applies entries of the log. -/
structure Rooted (cluster : Cluster ι) : Prop where
  logged : ∀ host, ∀ entry ∈ (cluster.nodes host).applied, entry ∈ cluster.log
  rows : ∀ key, (∀ entry ∈ cluster.log, ∀ content, .upsert key content ∉ entry.changes) →
    (∀ host, (cluster.nodes host).rows key = none) ∧ ∀ dump ∈ cluster.dumps, dump key = none

omit [GoLayout] in
theorem Rooted.setNode [DecidableEq ι] (rooted : Rooted cluster) (host : ι) {node : Node ι}
    (logged : ∀ entry ∈ node.applied, entry ∈ cluster.log)
    (absent : ∀ key, (∀ entry ∈ cluster.log, ∀ content, .upsert key content ∉ entry.changes) →
      node.rows key = none) : Rooted (cluster.setNode host node) := by
  refine ⟨fun other => ?_, fun key unissued => ⟨fun other => ?_, (rooted.rows key unissued).2⟩⟩
  · simp only [Cluster.setNode, update_apply]
    split
    · exact logged
    · exact rooted.logged other
  · simp only [Cluster.setNode, update_apply]
    split
    · exact absent key unissued
    · exact (rooted.rows key unissued).1 other

theorem Rooted.step [DecidableEq ι] {next : Cluster ι} {event : Event ι}
    (rooted : Rooted cluster) (stepped : cluster.step event = some next) : Rooted next := by
  cases event with
  | perform host operation clock =>
    obtain ⟨changes, -, rfl⟩ := map_eq_some_iff.mp stepped
    have grown : Rooted { cluster with log := ⟨host, clock, changes⟩ :: cluster.log } :=
      ⟨fun other entry applied => mem_cons_of_mem _ (rooted.logged other entry applied),
        fun key unissued => rooted.rows key fun entry member =>
          unissued entry (mem_cons_of_mem _ member)⟩
    refine grown.setNode host (fun entry applied => ?_) fun key unissued => ?_
    · exact (mem_cons.mp applied).elim (fun own => own ▸ mem_cons_self)
        (grown.logged host entry)
    · exact writeAll_none clock (unissued _ mem_cons_self) ((grown.rows key unissued).1 host)
  | deliver host index skewGuard =>
    obtain ⟨entry, found, rfl⟩ := map_eq_some_iff.mp stepped
    have member : entry ∈ cluster.log := mem_of_getElem? found
    refine rooted.setNode host (forall_mem_cons.mpr ⟨member, rooted.logged host⟩)
      fun key unissued => ?_
    exact applyAll_none skewGuard entry.clock (unissued entry member)
      ((rooted.rows key unissued).1 host)
  | replay host index statement skewGuard =>
    obtain ⟨entry, found, replayed⟩ := bind_eq_some_iff.mp stepped
    obtain ⟨change, listed, rfl⟩ := map_eq_some_iff.mp replayed
    have member := rooted.logged host entry (mem_of_getElem? found)
    refine rooted.setNode host (rooted.logged host) fun key unissued => ?_
    refine applyAll_none skewGuard entry.clock (fun content only => ?_)
      ((rooted.rows key unissued).1 host)
    exact unissued entry member content (mem_singleton.mp only ▸ mem_of_getElem? listed)
  | dump host =>
    obtain rfl := Option.some.inj stepped
    refine ⟨rooted.logged, fun key unissued => ?_⟩
    obtain ⟨absent, dumped⟩ := rooted.rows key unissued
    exact ⟨absent, forall_mem_cons.mpr ⟨absent host, dumped⟩⟩
  | merge host index wanted =>
    obtain ⟨offered, found, rfl⟩ := map_eq_some_iff.mp stepped
    refine rooted.setNode host (rooted.logged host) fun key unissued => ?_
    obtain ⟨absent, dumped⟩ := rooted.rows key unissued
    simp only [absent host, dumped offered (mem_of_getElem? found), mergeRow, ite_self]

end Recreated

/-! ## Two runs of two nodes -/

section Concrete

/-- Every entry has reached both nodes, and they have the same rows under its keys. -/
def Cluster.settled (cluster : Cluster Bool) : Bool :=
  cluster.log.all fun entry =>
    decide (∀ host, entry ∈ (cluster.nodes host).applied) &&
      entry.changes.all fun
        | .upsert key _ => (cluster.nodes false).rows key = (cluster.nodes true).rows key
        | _ => true

variable [GoLayout]

theorem Cluster.exchanged_of_settled {ok : Cluster Bool → Event Bool → Prop} {last : Cluster Bool}
    (run : Run Cluster.step ok Cluster.fresh last) (settled : last.settled = true) :
    last.Exchanged := by
  have rooted : Rooted last := run.invariant Rooted
    ⟨fun _ _ applied => absurd applied not_mem_nil,
      fun _ _ => ⟨fun _ => rfl, fun _ dumped => absurd dumped not_mem_nil⟩⟩
    fun _ _ _ _ stepped rooted => rooted.step stepped
  have checked (entry : Entry Bool) (member : entry ∈ last.log) :=
    Bool.and_eq_true_iff.mp (all_eq_true.mp settled entry member)
  have same : (last.nodes false).rows = (last.nodes true).rows := by
    funext key
    by_cases issued : ∃ entry ∈ last.log, ∃ content, .upsert key content ∈ entry.changes
    · obtain ⟨entry, member, content, listed⟩ := issued
      exact of_decide_eq_true (all_eq_true.mp (checked entry member).2 _ listed)
    · have absent := (rooted.rows key fun entry member content listed =>
        issued ⟨entry, member, content, listed⟩).1
      exact (absent false).trans (absent true).symm
  refine ⟨fun host entry member => of_decide_eq_true (checked entry member).1 host, ?_⟩
  rintro (_ | _) (_ | _)
  exacts [rfl, same, same.symm, rfl]

instance (log : List (Entry Bool)) (clock : Key) : Decidable (Covered log clock) := by
  unfold Covered; infer_instance

instance (skewGuard : Option Int) (clock : Key) : Decidable (Unskewed skewGuard clock) := by
  unfold Unskewed; infer_instance

instance (cluster : Cluster Bool) (event : Event Bool) : Decidable (Permitted cluster event) := by
  cases event <;> unfold Permitted <;> infer_instance

instance (cluster : Cluster Bool) (event : Event Bool) : Decidable (Guarded cluster event) := by
  cases event with
  | perform _ operation _ => cases operation <;> unfold Guarded <;> infer_instance
  | _ => unfold Guarded; infer_instance

end Concrete

/-- A reading of a node's clock in the first minute of the year. -/
def atSecond (second : Nat) (bound : second ≤ 59) : Key :=
  .rfc { newYear with second, time := ⟨by decide, by decide, bound⟩ }

/-- One node has deleted the user before it hears of the token, which was revoked, of the
second factor and of the recovery codes; the other creates the user again.  What came too late
for the delete is retired by a dump. -/
def revokedThenDeleted : List (Event Bool) :=
  [.perform false (.insertUser "operator" "first") (atSecond 1 (by decide)),
    .deliver true 0 none,
    .perform true (.insertToken "t1" "hash" "") (atSecond 2 (by decide)),
    .perform true (.insertUser2FA "totp" "phone" "secret" "e1") (atSecond 3 (by decide)),
    .perform false (.insertRoleBinding "b1" "/" "admin" .plain) (atSecond 4 (by decide)),
    .perform true (.insertRecoveryCodes "s1" ["c1", "c2"]) (atSecond 5 (by decide)),
    .perform true (.revokeToken "t1") (atSecond 6 (by decide)),
    .perform false .deleteUser (atSecond 7 (by decide)),
    .deliver true 3 none, .deliver true 0 none,
    .perform true (.insertUser "viewer" "second") (atSecond 8 (by decide)),
    .deliver false 6 none, .deliver false 5 none, .deliver false 3 none, .deliver false 2 none,
    .deliver false 0 none, .dump true, .merge false 0 fun _ => true]

def recreated (cluster : Cluster Bool) : Bool :=
  cluster.settled && ((cluster.nodes false).rows .user).any (!·.deleted) &&
    ((issuedBeforeDelete cluster.log).flatMap (·.changes)).length = 10

attribute [local instance] strictLayout

theorem deleted_holdings_refused_when_revoked :
    ∃ last : Cluster Bool, recreated last = true ∧
      ∀ host, ∀ entry ∈ issuedBeforeDelete last.log, ∀ key content,
        .upsert key content ∈ entry.changes →
          accepts (last.nodes host).rows "" key content = false := by
  obtain ⟨last, run, again⟩ : ∃ last, Run Cluster.step
      (fun cluster event => Permitted cluster event ∧ Guarded cluster event) Cluster.fresh last ∧
      recreated last = true := Run.reaches revokedThenDeleted (by decide +kernel)
  have settled : last.settled = true :=
    (Bool.and_eq_true_iff.mp (Bool.and_eq_true_iff.mp again).1).1
  exact ⟨last, again, fun host _ before _ _ issued =>
    deleted_holdings_refused run (Cluster.exchanged_of_settled run settled) host "" before issued⟩

def tokenThenDeleted : List (Event Bool) :=
  [.perform false (.insertUser "operator" "first") (atSecond 1 (by decide)),
    .deliver true 0 none,
    .perform true (.insertToken "t1" "hash" "") (atSecond 2 (by decide)),
    .deliver false 0 none,
    .perform false .deleteUser (atSecond 3 (by decide)),
    .deliver true 0 none,
    .perform true (.insertUser "viewer" "second") (atSecond 4 (by decide)),
    .deliver false 0 none]

def acceptsOldToken (cluster : Cluster Bool) : Bool :=
  (issuedBeforeDelete cluster.log).any (fun entry =>
      entry.changes.any (· = .upsert (.token "t1") (.token "hash" ""))) &&
    decide (∀ host, accepts (cluster.nodes host).rows "" (.token "t1") (.token "hash" ""))

/-- `DeleteUser` leaves the tokens alone and `InsertUser` revives the row they are joined
with: the old token works for the new account, on every node. -/
theorem token_survives_delete :
    ∃ last : Cluster Bool, Run Cluster.step Permitted Cluster.fresh last ∧ last.Exchanged ∧
      acceptsOldToken last = true :=
  have reached : ∃ last, Run Cluster.step Permitted Cluster.fresh last ∧
      last.settled = true ∧ acceptsOldToken last = true :=
    Run.reaches tokenThenDeleted (by decide +kernel)
  reached.imp fun _ ⟨run, settled, accepted⟩ =>
    ⟨run, Cluster.exchanged_of_settled run settled, accepted⟩

end Litevirt.Holdings

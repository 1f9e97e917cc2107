import Litevirt.Audit.Evidence
import Litevirt.Sync.Order

/-!
# What an untampered verdict says

A host's rows were written under one adopted key, with a contract from the start, and a settled
head attests its sequence.  An untampered verdict still leaves room: a broken link of a row
without an id is not counted, rows without a number are taken for history, and only the latest
head of a key is looked at, settled or not.  Apart from these the log is intact up to the head.
-/

namespace Litevirt.Audit

open Litevirt.Hlc Litevirt.Lib Litevirt.Sync List

section Written

variable [GoLayout] [RowHash]

def writtenBy (events : List AuditEvent) (host : Bytes) : List AuditRecord :=
  (auditRun events).log.filter (·.hostName = host)

variable {c : AuditClient}

theorem id_of_mem_insertAuditLocked {r row : AuditRecord} {stampAt : Option Int}
    {signing : Signing} {executes : Bool}
    (member : row ∈ (insertAuditLocked c r stampAt signing executes).1.log) :
    row ∈ c.log ∨ row.id = r.id := by
  have inserted : ∀ tail (new : AuditRecord),
      row ∈ (insertAuditLocked.insert stampAt executes (c.setTail r.hostName tail) tail new).1.log →
      row ∈ c.log ∨ row.id = new.id := by
    intro tail new member
    unfold insertAuditLocked.insert at member
    split at member
    · exact .inl member
    split at member
    · exact .inl member
    · rcases mem_append.mp member with old | isNew
      · exact .inl old
      · exact .inr (congrArg _ (mem_singleton.mp isNew))
  unfold insertAuditLocked at member
  simp only at member
  split at member
  · exact .inl member
  rename_i guarded passed
  obtain ⟨-, sameID, -⟩ := guardAuditNUL_ok passed
  cases signing with
  | fails text => exact .inl member
  | none | signs signature keyID => exact (inserted _ _ member).imp_right (·.trans sameID)

theorem id_ne_nil_of_step {event : AuditEvent}
    (drawn : ∀ call, event = .insert call → call.randomID ≠ []) (ids : ∀ r ∈ c.log, r.id ≠ []) :
    ∀ r ∈ (auditStep c event).log, r.id ≠ [] := by
  intro row member
  cases event with
  | restart => exact ids row member
  | loadTail host =>
    unfold auditStep at member
    simp only at member
    split at member <;> exact ids row member
  | insert call =>
    have given : (if call.record.id = [] then { call.record with id := call.randomID }
        else call.record).id ≠ [] := by
      split
      · exact drawn call rfl
      · assumption
    unfold auditStep insertAuditLog at member
    simp only at member
    split at member
    · exact ids row member
    all_goals
      rcases id_of_mem_insertAuditLocked member with old | same
      · exact ids row old
      · exact same ▸ given

theorem id_ne_nil_of_run {events : List AuditEvent}
    (drawn : ∀ call, .insert call ∈ events → call.randomID ≠ []) :
    ∀ r ∈ (auditRun events).log, r.id ≠ [] := by
  suffices kept : ∀ c : AuditClient, (∀ r ∈ c.log, r.id ≠ []) →
      ∀ r ∈ (events.foldl auditStep c).log, r.id ≠ [] from
    kept _ fun _ member => by cases member
  induction events with
  | nil => exact fun _ ids => ids
  | cons event rest ih =>
    intro c ids
    refine ih (fun call among => drawn call (mem_cons_of_mem _ among)) _ ?_
    exact id_ne_nil_of_step (fun call same => drawn call (same ▸ mem_cons_self)) ids

end Written

/-- The log holds exactly the written rows up to a sequence, with their hashed fields and hashes,
and no other row of the host from 0 up to there. -/
def Intact (log : List AuditRecord) (host : Bytes) (last : Int) (written : List AuditRecord) :
    Prop :=
  ((log.filter fun r => r.hostName = host ∧ 0 ≤ r.seq ∧ r.seq ≤ last).map attested).Perm
    ((written.filter (·.seq ≤ last)).map attested)

instance (log : List AuditRecord) (host : Bytes) (last : Int) (written : List AuditRecord) :
    Decidable (Intact log host last written) := inferInstanceAs (Decidable (List.Perm _ _))

/-- Every row of the host is numbered, and its first row and those up to a sequence have an id. -/
structure Numbered (log : List AuditRecord) (host : Bytes) (last : Int) : Prop where
  positive : ∀ r ∈ log, r.hostName = host → 0 < r.seq
  ids : ∀ r ∈ log, r.hostName = host →
    (r.seq ≤ last ∨ ∀ other ∈ log, other.hostName = host → r.seq ≤ other.seq) → r.id ≠ []

/-- The latest head of the key has settled, or the log reaches the sequence anyhow. -/
def HeadCounts [GoLayout] (now : Int) (tables : AuditTables) (host keyID : Bytes) (last : Int) :
    Prop :=
  (∃ h, latestHead tables.heads host keyID = some h ∧ headHasSettled now h true = true) ∨
    ∃ r ∈ tables.log, r.hostName = host ∧ last ≤ r.seq

/-- One key signs for the host: it is adopted from the start, it is not retired, and its
signatures are those over the rows of the host. -/
structure SoleKey [GoLayout] (keyring : Keyring) (now : Int) (tables : AuditTables)
    (host keyID : Bytes) (written : List AuditRecord) : Prop where
  named : host ≠ []
  signed : ∀ r ∈ written, r.signature ≠ [] ∧ r.keyID = keyID
  unforged : Unforged keyring host written
  contract : (signingContracts (some keyring) now tables).1 host = some 0
  unretired :
    retirementsFrom (auditKeyLifecycle (some keyring) tables.lifecycle) ⟨host, keyID⟩ = none

/-- A head of the key that verifies and has settled; it attests a row that was written. -/
structure SettledHead [GoLayout] (keyring : Keyring) (now : Int) (tables : AuditTables)
    (host keyID : Bytes) (written : List AuditRecord) (h : AuditChainHead) : Prop where
  stored : h ∈ tables.heads
  isHost : h.hostName = host
  isKey : h.keyID = keyID
  verified : keyring.verifyHead h = none
  settled : headHasSettled now h true = true
  unforged : ∃ r ∈ written, r.seq = h.seq ∧ r.contentHash = h.headHash

variable {log : List AuditRecord} {host : Bytes} {last : Int} {written : List AuditRecord}

theorem Intact.row (intact : Intact log host last written)
    {original : AuditRecord} (member : original ∈ written) (within : original.seq ≤ last) :
    ∃ r ∈ log, r.hostName = host ∧ attested r = attested original := by
  have listed : attested original ∈ (written.filter (·.seq ≤ last)).map attested :=
    mem_map_of_mem (mem_filter.mpr ⟨member, by simpa using within⟩)
  obtain ⟨r, among, same⟩ := mem_map.mp (intact.symm.subset listed)
  obtain ⟨stored, isOwn⟩ := mem_filter.mp among
  simp only [decide_eq_true_eq] at isOwn
  exact ⟨r, stored, isOwn.1, same⟩

variable {r : AuditRecord}

theorem Intact.original (intact : Intact log host last written)
    (member : r ∈ log) (isHost : r.hostName = host) (above : 0 ≤ r.seq) (within : r.seq ≤ last) :
    ∃ original ∈ written, attested r = attested original := by
  have listed : attested r ∈ (log.filter fun r => r.hostName = host ∧ 0 ≤ r.seq ∧ r.seq ≤ last).map
      attested :=
    mem_map_of_mem (mem_filter.mpr ⟨member, by simpa using ⟨isHost, above, within⟩⟩)
  obtain ⟨original, among, same⟩ := mem_map.mp (intact.subset listed)
  exact ⟨original, (mem_filter.mp among).1, same.symm⟩

theorem id_of_attested {original : AuditRecord} (same : attested r = attested original) :
    r.id = original.id := by
  simp only [attested, auditFieldValues, Prod.mk.injEq, List.cons.injEq] at same
  exact same.2.1.1

def ownRows (log : List AuditRecord) (host : Bytes) : List AuditRecord :=
  (walkOrder log).filter (·.hostName = host)

theorem mem_ownRows : r ∈ ownRows log host ↔ r ∈ log ∧ r.hostName = host := by
  rw [ownRows, mem_filter, walkOrder, mem_insertionSort, decide_eq_true_eq]

theorem seq_le_of_notAfter {a b : AuditRecord} (sameHost : a.hostName = b.hostName)
    (first : NotAfter a b) : a.seq ≤ b.seq := by
  by_contra later
  exact absurd first (not_le.mpr (sortKey_lt_of_seq sameHost.symm (not_le.mp later)))

theorem ordered_ownRows (log : List AuditRecord) (host : Bytes) :
    (ownRows log host).Pairwise fun a b => a.seq ≤ b.seq := by
  refine ((pairwise_insertionSort NotAfter log).filter _).imp_of_mem ?_
  intro a b aMember bMember first
  exact seq_le_of_notAfter
    ((hostName_of_mem_filter a aMember).trans (hostName_of_mem_filter b bMember).symm) first

theorem filter_ownRows_perm (positive : ∀ r ∈ log, r.hostName = host → 0 < r.seq) :
    ((ownRows log host).filter (·.seq ≤ last)).Perm
      (log.filter fun r => r.hostName = host ∧ 0 ≤ r.seq ∧ r.seq ≤ last) := by
  rw [ownRows, filter_filter]
  refine ((perm_insertionSort NotAfter log).filter _).trans (List.Perm.of_eq ?_)
  refine filter_congr fun r member => ?_
  by_cases isHost : r.hostName = host
  · have above := positive r member isHost
    simp [isHost, above.le]
  · simp [isHost]

section Verdict

variable [GoLayout] [RowHash] {keyring : Keyring} {now : Int} {tables : AuditTables}
  {host keyID : Bytes} {written : List AuditRecord} {h : AuditChainHead}

theorem quiet_walk (host : Bytes)
    (untampered : (verifyAuditChain (some keyring) now tables).tampered = false) :
    Quiet (runRows (checkRow (walkContext (some keyring) now tables)) .start
      (ownRows tables.log host)).2 := by
  refine (quiet_of_untampered untampered).mono fun finding made => ?_
  unfold verifyAuditChain
  have walked : finding ∈ (walk (walkContext (some keyring) now tables) tables.log).2 :=
    mem_runKeyed.mpr ⟨host, made⟩
  simp [walked]

theorem quiet_heads (untampered : (verifyAuditChain (some keyring) now tables).tampered = false)
    (stored : h ∈ tables.heads) :
    Quiet (checkHeads (walkContext (some keyring) now tables) now tables
      (walk (walkContext (some keyring) now tables) tables.log).1 h.hostName) := by
  refine (quiet_of_untampered untampered).mono fun finding made => ?_
  unfold verifyAuditChain verifyChainHeads
  have checked := mem_flatMap.mpr
    ⟨h.hostName, mem_sortTexts.mpr (mem_map_of_mem stored), made⟩
  simp only [mem_append, checked, true_or, or_true]

theorem reaches_head (untampered : (verifyAuditChain (some keyring) now tables).tampered = false)
    (sole : SoleKey keyring now tables host keyID written)
    (published : SettledHead keyring now tables host keyID written h) (above : 0 < h.seq)
    (counts : HeadCounts now tables host keyID h.seq) :
    ∃ r ∈ ownRows tables.log host, h.seq ≤ r.seq := by
  rcases counts with ⟨latest, isLatest, settled⟩ | ⟨r, member, isHost, reaches⟩
  · obtain ⟨-, -, -, highest⟩ := latestHead_spec isLatest
    have lower := highest h published.stored published.isHost published.isKey
    have quiet := quiet_heads untampered published.stored
    rw [published.isHost] at quiet
    have observed := seq_le_observed rfl isLatest sole.unretired settled quiet
    rw [walk, runKeyed_state] at observed
    rcases runRows_seq .start (ownRows tables.log host) with none | ⟨r, member, isSeq⟩
    · rw [ownRows] at none
      rw [none] at observed
      exact absurd observed (by simp [HostWalk.start]; omega)
    · refine ⟨r, member, lower.trans ?_⟩
      rw [ownRows] at isSeq
      rwa [isSeq] at observed
  · exact ⟨r, mem_ownRows.mpr ⟨member, isHost⟩, reaches⟩

theorem intact_of_numbered (injective : Function.Injective RowHash.hexSum)
    (chained : Chained [] 0 written)
    (untampered : (verifyAuditChain (some keyring) now tables).tampered = false)
    (sole : SoleKey keyring now tables host keyID written)
    (published : SettledHead keyring now tables host keyID written h)
    (numbered : Numbered tables.log host h.seq)
    (counts : HeadCounts now tables host keyID h.seq) : Intact tables.log host h.seq written := by
  obtain ⟨attestedRow, isWritten, atHead, -⟩ := published.unforged
  have above : 0 < h.seq := atHead ▸ seq_lt_of_chained chained _ isWritten
  have reaches := reaches_head untampered sole published above counts
  have hosts : ∀ r ∈ ownRows tables.log host, r.hostName = host := fun r member =>
    (mem_ownRows.mp member).2
  have positive : ∀ r ∈ ownRows tables.log host, 0 < r.seq := fun r member =>
    numbered.positive r (mem_ownRows.mp member).1 (hosts r member)
  have ordered := ordered_ownRows tables.log host
  refine ((filter_ownRows_perm numbered.positive).symm.map attested).trans (List.Perm.of_eq ?_)
  refine attested_of_quiet injective sole.named sole.contract rfl sole.unforged le_rfl hosts ordered
    positive ?_ (quiet_walk host untampered) chained (fun _ member _ => member) rfl ?_
    (.inr reaches)
  · intro r member within
    exact numbered.ids r (mem_ownRows.mp member).1 (hosts r member) (.inl within)
  -- the first row has an id, so it is the first that was written
  intro first isFirst accepted
  have member := mem_of_mem_head? (Option.mem_def.mpr isFirst)
  refine seq_of_first injective chained sole.unforged accepted (hosts first member)
    (positive first member) (numbered.ids first (mem_ownRows.mp member).1 (hosts first member)
      (.inr fun other stored isHost => ?_))
  have among := mem_ownRows.mpr ⟨stored, isHost⟩
  generalize ownRows tables.log host = rows at isFirst ordered among
  cases rows with
  | nil => cases among
  | cons head later =>
    cases isFirst
    rcases mem_cons.mp among with rfl | behind
    · exact le_rfl
    · exact (pairwise_cons.mp ordered).1 other behind

theorem numbered_of_intact (injective : Function.Injective RowHash.hexSum)
    (chained : Chained [] 0 written) (ids : ∀ r ∈ written, r.id ≠ [])
    (untampered : (verifyAuditChain (some keyring) now tables).tampered = false)
    (sole : SoleKey keyring now tables host keyID written)
    (published : SettledHead keyring now tables host keyID written h)
    (intact : Intact tables.log host h.seq written) :
    Numbered tables.log host h.seq ∧ HeadCounts now tables host keyID h.seq := by
  obtain ⟨attestedRow, isWritten, atHead, -⟩ := published.unforged
  have above : 0 < h.seq := atHead ▸ seq_lt_of_chained chained _ isWritten
  cases written with
  | nil => cases isWritten
  | cons first more =>
    obtain ⟨noPrev, isOne, hashed, clean, -⟩ := chained
    obtain ⟨r, stored, isHost, same⟩ := intact.row mem_cons_self (by omega)
    have atOne : r.seq = 1 := (congrArg Prod.fst same).trans (by simpa [attested] using isOne)
    have hasID : r.id ≠ [] := id_of_attested same ▸ ids first mem_cons_self
    obtain ⟨before, after, split⟩ := append_of_mem (mem_ownRows.mpr ⟨stored, isHost⟩)
    have quiet := quiet_walk host untampered
    rw [split] at quiet
    have hosts : ∀ other ∈ before ++ r :: after, other.hostName = host := fun other member =>
      (mem_ownRows.mp (split ▸ member)).2
    obtain rfl : before = [] := eq_nil_of_first injective sole.named sole.contract rfl hosts quiet
      hasID hashed clean noPrev (congrArg (·.2.2) same).symm
    have lowest : ∀ other ∈ tables.log, other.hostName = host → 1 ≤ other.seq := by
      intro other otherStored otherHost
      have member := mem_ownRows.mpr ⟨otherStored, otherHost⟩
      have ordered := ordered_ownRows tables.log host
      rw [split] at member ordered
      rcases mem_cons.mp member with rfl | behind
      · exact atOne.ge
      · exact atOne ▸ (pairwise_cons.mp ordered).1 other behind
    refine ⟨⟨lowest, fun other otherStored otherHost early => ?_⟩, ?_⟩
    · have low : other.seq ≤ h.seq := early.elim id fun least => by
        have := least r stored isHost
        omega
      have positive := lowest other otherStored otherHost
      obtain ⟨original, isOriginal, same⟩ := intact.original otherStored otherHost (by omega) low
      exact id_of_attested same ▸ ids original isOriginal
    · obtain ⟨last, lastStored, lastHost, same⟩ := intact.row isWritten atHead.le
      exact .inr ⟨last, lastStored, lastHost, ((congrArg Prod.fst same).trans atHead).ge⟩

/-- When nothing counts as tampering, the log is intact up to the head exactly if the rows of the
host are numbered and have their ids, and the latest head of the key has settled or the log
reaches the head. -/
theorem intact_iff_numbered (injective : Function.Injective RowHash.hexSum)
    {events : List AuditEvent} (drawn : ∀ call, .insert call ∈ events → call.randomID ≠ [])
    (sole : SoleKey keyring now tables host keyID (writtenBy events host))
    (published : SettledHead keyring now tables host keyID (writtenBy events host) h)
    (untampered : (verifyAuditChain (some keyring) now tables).tampered = false) :
    Intact tables.log host h.seq (writtenBy events host) ↔
      Numbered tables.log host h.seq ∧ HeadCounts now tables host keyID h.seq := by
  have chained : Chained [] 0 (writtenBy events host) := (sound_auditRun events).chained host
  constructor
  · intro intact
    refine numbered_of_intact injective chained (fun r member => ?_) untampered sole published
      intact
    exact id_ne_nil_of_run drawn r (mem_filter.mp member).1
  · rintro ⟨numbered, counts⟩
    exact intact_of_numbered injective chained untampered sole published numbered counts

end Verdict

def hexDigit (value : UInt8) : UInt8 := if value < 10 then value + 48 else value + 87

def digitValue (digit : UInt8) : UInt8 := if digit < 58 then digit - 48 else digit - 87

def hexDump (text : Bytes) : Bytes :=
  48 :: text.flatMap fun byte => [hexDigit (byte / 16), hexDigit (byte % 16)]

def readDump : Bytes → Bytes
  | high :: low :: rest => (digitValue high * 16 + digitValue low) :: readDump rest
  | _ => []

theorem forall_byte {p : UInt8 → Prop} (each : ∀ n : Fin 256, p (UInt8.ofNat n)) (byte : UInt8) :
    p byte := by
  have this := each ⟨byte.toNat, byte.toNat_lt⟩
  simpa using this

theorem hexDigits_spec : ∀ byte : UInt8, isHex (hexDigit (byte / 16)) = true ∧
    isHex (hexDigit (byte % 16)) = true ∧
    digitValue (hexDigit (byte / 16)) * 16 + digitValue (hexDigit (byte % 16)) = byte :=
  forall_byte (by decide +kernel)

theorem readDump_hexDump (text : Bytes) : readDump (hexDump text).tail = text := by
  unfold hexDump
  rw [tail_cons]
  induction text with
  | nil => rfl
  | cons byte rest ih =>
    rw [flatMap_cons, cons_append, cons_append, nil_append, readDump, ih,
      (hexDigits_spec byte).2.2]

/-- A hash without collisions. -/
@[reducible] def dumpHash : RowHash where
  hexSum := hexDump
  hex text byte member := by
    rcases mem_cons.mp member with rfl | among
    · decide
    obtain ⟨source, -, isDigit⟩ := mem_flatMap.mp among
    rcases mem_pair.mp isDigit with rfl | rfl
    · exact (hexDigits_spec source).1
    · exact (hexDigits_spec source).2.1
  nonempty _ := cons_ne_nil _ _

theorem dumpHash_injective : Function.Injective dumpHash.hexSum := fun text other same => by
  rw [← readDump_hexDump text, ← readDump_hexDump other]
  exact congrArg (fun dump => readDump dump.tail) same

def startCall (id : Bytes) : InsertCall where
  record := ⟨id, bytes "t", bytes "u", bytes "n1", bytes "vm.start", bytes "web", [], bytes "ok",
    [], [], [], [], 0⟩
  randomID := bytes "r"
  now := 0
  hold := .inactive
  signing := .signs (bytes "s") (bytes "k1")
  executes := true

def twoRows : List AuditEvent := [.insert (startCall (bytes "a")), .insert (startCall (bytes "b"))]

attribute [local instance] strictLayout dumpHash

def twoWritten : List AuditRecord := writtenBy twoRows (bytes "n1")

def twoKeyring : Keyring where
  verifyRow _ _ contentHash seq _ :=
    if (contentHash, seq) ∈ twoWritten.map fun r => (r.contentHash, r.seq) then none
    else some (bytes "invalid signature")
  verifyHead _ := none
  keyBelongsToHost _ _ := true

def twoHead : AuditChainHead :=
  ⟨bytes "n1", 0, 2, ((twoWritten.map (·.contentHash)).getLast?).getD [], bytes "k1", bytes "s", []⟩

def twoTables (log : List AuditRecord) : AuditTables where
  log := log
  heads := [twoHead]
  signingKeys := [⟨bytes "n1", bytes "k1", []⟩]
  lifecycle := [⟨bytes "n1", bytes "k1", .adopted, bytes "k1", 0, 0, 0⟩]

theorem twoRows_drawn : ∀ call, .insert call ∈ twoRows → call.randomID ≠ [] := by
  intro call member
  simp only [twoRows, mem_cons, AuditEvent.insert.injEq, not_mem_nil, or_false] at member
  rcases member with rfl | rfl <;> decide +kernel

theorem twoKeyring_unforged : Unforged twoKeyring (bytes "n1") twoWritten := by
  intro keyID contentHash seq sigHex passes
  unfold twoKeyring at passes
  simp only at passes
  split at passes
  · rename_i listed
    obtain ⟨r, member, same⟩ := mem_map.mp listed
    exact ⟨r, member, congrArg Prod.fst same, congrArg Prod.snd same⟩
  · cases passes

theorem twoKeyring_soleKey (log : List AuditRecord) :
    SoleKey twoKeyring 0 (twoTables log) (bytes "n1") (bytes "k1") twoWritten := by
  -- neither contract nor retirement reads the log
  have contract : (signingContracts (some twoKeyring) 0 (twoTables [])).1 (bytes "n1") =
    some 0 := by decide +kernel
  have unretired : retirementsFrom (auditKeyLifecycle (some twoKeyring) (twoTables []).lifecycle)
    ⟨bytes "n1", bytes "k1"⟩ = none := by decide +kernel
  exact SoleKey.mk (by decide +kernel) (by decide +kernel) twoKeyring_unforged contract unretired

theorem twoHead_settled (log : List AuditRecord) :
    SettledHead twoKeyring 0 (twoTables log) (bytes "n1") (bytes "k1") twoWritten twoHead :=
  SettledHead.mk mem_cons_self rfl rfl rfl (by decide +kernel) (by decide +kernel)

theorem written_log_intact :
    (verifyAuditChain (some twoKeyring) 0 (twoTables twoWritten)).tampered = false ∧
      (Intact twoWritten (bytes "n1") 2 twoWritten ↔
        Numbered twoWritten (bytes "n1") 2 ∧
          HeadCounts 0 (twoTables twoWritten) (bytes "n1") (bytes "k1") 2) := by
  have untampered : (verifyAuditChain (some twoKeyring) 0
      (twoTables twoWritten)).tampered = false := by decide +kernel
  exact ⟨untampered, intact_iff_numbered dumpHash_injective twoRows_drawn
    (twoKeyring_soleKey _) (twoHead_settled _) untampered⟩

def rewritten : List AuditRecord :=
  match twoWritten with
  | first :: rest => { first with id := [], target := bytes "db" } :: rest
  | [] => []

/-- A row whose id is blanked is rewritten without any evidence of tampering. -/
theorem blank_id_rewrites_row :
    Function.Injective dumpHash.hexSum ∧ (∀ call, .insert call ∈ twoRows → call.randomID ≠ []) ∧
      SoleKey twoKeyring 0 (twoTables rewritten) (bytes "n1") (bytes "k1")
        (writtenBy twoRows (bytes "n1")) ∧
      SettledHead twoKeyring 0 (twoTables rewritten) (bytes "n1") (bytes "k1")
        (writtenBy twoRows (bytes "n1")) twoHead ∧
      (verifyAuditChain (some twoKeyring) 0 (twoTables rewritten)).tampered = false ∧
      ¬ Intact (twoTables rewritten).log (bytes "n1") twoHead.seq
        (writtenBy twoRows (bytes "n1")) :=
  ⟨dumpHash_injective, twoRows_drawn, twoKeyring_soleKey _, twoHead_settled _, by decide +kernel,
    by decide +kernel⟩

end Litevirt.Audit

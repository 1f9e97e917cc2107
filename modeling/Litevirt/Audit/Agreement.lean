import Litevirt.Audit.Writer

/-!
# Writer and verifier

Every row that the writer inserts continues the chain of its host: sequences run from 1 without a
gap, and each hash covers the one before it.  So the verifier sorts the rows of a host as they
were written, and every link that it recomputes is there.
-/

namespace Litevirt.Audit

open Litevirt.Hlc Litevirt.Lib Litevirt.Sync List Function

/-- Where a chain ends: its last hash and sequence. -/
def chainEnd : Bytes → Int → List AuditRecord → Bytes × Int
  | prev, seq, [] => (prev, seq)
  | _, _, r :: rest => chainEnd r.contentHash r.seq rest

theorem chainEnd_concat (prev : Bytes) (seq : Int) (rows : List AuditRecord) (r : AuditRecord) :
    chainEnd prev seq (rows ++ [r]) = (r.contentHash, r.seq) := by
  induction rows generalizing prev seq with
  | nil => rfl
  | cons first rest ih => exact ih _ _

section Chain

variable [RowHash]

/-- Rows that continue a chain after `prev` at `seq`. -/
def Chained : Bytes → Int → List AuditRecord → Prop
  | _, _, [] => True
  | prev, seq, r :: rest =>
    r.prevHash = prev ∧ r.seq = seq + 1 ∧ r.contentHash = hashAuditRow r ∧ NulFree r ∧
      Chained r.contentHash r.seq rest

variable {prev : Bytes} {seq : Int} {rows : List AuditRecord}

theorem chained_concat {r : AuditRecord} (chained : Chained prev seq rows)
    (linked : r.prevHash = (chainEnd prev seq rows).1)
    (next : r.seq = (chainEnd prev seq rows).2 + 1) (hashed : r.contentHash = hashAuditRow r)
    (clean : NulFree r) : Chained prev seq (rows ++ [r]) := by
  induction rows generalizing prev seq with
  | nil => exact ⟨linked, next, hashed, clean, trivial⟩
  | cons first rest ih =>
    obtain ⟨firstLinked, firstNext, firstHashed, firstClean, rest⟩ := chained
    exact ⟨firstLinked, firstNext, firstHashed, firstClean, ih rest linked next⟩

theorem seq_lt_of_chained (chained : Chained prev seq rows) : ∀ r ∈ rows, seq < r.seq := by
  induction rows generalizing prev seq with
  | nil => simp
  | cons first rest ih =>
    obtain ⟨-, next, -, -, rest⟩ := chained
    refine forall_mem_cons.mpr ⟨by omega, fun r member => ?_⟩
    have later := ih rest r member
    omega

theorem pairwise_seq_of_chained (chained : Chained prev seq rows) :
    rows.Pairwise fun a b => a.seq < b.seq := by
  induction rows generalizing prev seq with
  | nil => exact List.Pairwise.nil
  | cons first rest ih =>
    obtain ⟨-, -, -, -, rest⟩ := chained
    exact pairwise_cons.mpr ⟨seq_lt_of_chained rest, ih rest⟩

theorem max?_seq_of_chained (chained : Chained prev seq rows) :
    (rows.map (·.seq)).max?.getD seq = (chainEnd prev seq rows).2 := by
  induction rows using List.reverseRecOn with
  | nil => rfl
  | append_singleton rows r _ =>
    rw [chainEnd_concat]
    have ordered := pairwise_seq_of_chained chained
    rw [pairwise_append] at ordered
    have top : ((rows ++ [r]).map (·.seq)).max? = some r.seq := by
      rw [max?_eq_some_iff]
      refine ⟨by simp, fun value member => ?_⟩
      obtain ⟨other, among, rfl⟩ := mem_map.mp member
      rcases mem_append.mp among with before | last
      · exact le_of_lt (ordered.2.2 other before r mem_cons_self)
      · rw [mem_singleton.mp last]
    rw [top]
    rfl

end Chain

theorem sortKey_lt_of_seq {a b : AuditRecord} (sameHost : a.hostName = b.hostName)
    (before : a.seq < b.seq) : sortKey a < sortKey b :=
  Prod.Lex.toLex_lt_toLex.mpr
    (.inr ⟨congrArg byteValues sameHost, Prod.Lex.toLex_lt_toLex.mpr (.inl before)⟩)

instance : Std.Total NotAfter := ⟨fun a b => le_total (sortKey a) (sortKey b)⟩

instance : IsTrans AuditRecord NotAfter := ⟨fun _ _ _ first second => le_trans first second⟩

variable {host : Bytes}

theorem pairwise_notAfter {rows : List AuditRecord} (hosts : ∀ r ∈ rows, r.hostName = host)
    (ordered : rows.Pairwise fun a b => a.seq < b.seq) : rows.Pairwise NotAfter := by
  refine ordered.imp_of_mem fun {a b} aMember bMember before => ?_
  exact le_of_lt (sortKey_lt_of_seq ((hosts a aMember).trans (hosts b bMember).symm) before)

variable {log : List AuditRecord}

theorem hostName_of_mem_filter :
    ∀ r ∈ log.filter (·.hostName = host), r.hostName = host := fun r member => by
  simpa using (mem_filter.mp member).2

/-- The walk meets the rows of a host in the order in which the log holds them, when their
sequences grow in that order. -/
theorem filter_walkOrder
    (ordered : (log.filter (·.hostName = host)).Pairwise fun a b => a.seq < b.seq) :
    (walkOrder log).filter (·.hostName = host) = log.filter (·.hostName = host) := by
  have perm : ((walkOrder log).filter (·.hostName = host)).Perm (log.filter (·.hostName = host)) :=
    (perm_insertionSort NotAfter log).filter _
  refine List.Perm.eq_of_pairwise ?_ ((pairwise_insertionSort NotAfter log).filter _)
    (pairwise_notAfter hostName_of_mem_filter ordered) perm
  intro a b aMember bMember aFirst bFirst
  have key : sortKey a = sortKey b := le_antisymm aFirst bFirst
  have sameSeq : a.seq = b.seq :=
    congrArg (fun k : List ℕ ×ₗ ℤ ×ₗ List ℕ ×ₗ List ℕ => (ofLex (ofLex k).2).1) key
  have nodup : ((log.filter (·.hostName = host)).map (·.seq)).Nodup :=
    pairwise_map.mpr (ordered.imp ne_of_lt)
  exact inj_on_of_nodup_map nodup (perm.mem_iff.mp aMember) bMember sameSeq

theorem filter_concat_self (log : List AuditRecord) (row : AuditRecord) :
    (log ++ [row]).filter (·.hostName = row.hostName) =
      log.filter (·.hostName = row.hostName) ++ [row] := by simp

theorem filter_concat_other {row : AuditRecord} (other : host ≠ row.hostName) :
    (log ++ [row]).filter (·.hostName = host) = log.filter (·.hostName = host) := by
  simp [Ne.symm other]

section Writer

variable [RowHash]

def hostEnd (log : List AuditRecord) (host : Bytes) : Bytes × Int :=
  chainEnd [] 0 (log.filter (·.hostName = host))

/-- Each host has one chain, and the tails that are known are where they end. -/
structure Sound (c : AuditClient) : Prop where
  chained : ∀ host, Chained [] 0 (c.log.filter (·.hostName = host))
  known : ∀ host, (c.tails host).known = true →
    (c.tails host).hash = (hostEnd c.log host).1 ∧ (c.tails host).seq = (hostEnd c.log host).2
  fresh : ∀ host, (c.tails host).known = false → c.tails host = .zero

theorem sound_start {log : List AuditRecord}
    (chained : ∀ host, Chained [] 0 (log.filter (·.hostName = host))) :
    Sound (.start log) where
  chained := chained
  known _ known := by cases known
  fresh _ _ := rfl

variable {host : Bytes} {tail : ChainTail}

theorem loadHostTail_of_chained {log : List AuditRecord}
    (chained : Chained [] 0 (log.filter (·.hostName = host))) (empty : tail.hash = []) :
    (loadHostTail log host tail).hash = (hostEnd log host).1 ∧
      (loadHostTail log host tail).seq = (hostEnd log host).2 := by
  have ordered : hostRows log host = log.filter (·.hostName = host) :=
    (pairwise_notAfter hostName_of_mem_filter (pairwise_seq_of_chained chained)).insertionSort_eq
  refine ⟨?_, max?_seq_of_chained chained⟩
  unfold loadHostTail hostEnd
  rw [ordered]
  generalize log.filter (·.hostName = host) = rows
  induction rows using List.reverseRecOn with
  | nil => exact empty
  | append_singleton rows r _ => rw [chainEnd_concat, getLast?_concat]

variable {c : AuditClient}

theorem Sound.setTail (sound : Sound c) (known : tail.known = true)
    (hash : tail.hash = (hostEnd c.log host).1) (seq : tail.seq = (hostEnd c.log host).2) :
    Sound (c.setTail host tail) where
  chained := sound.chained
  known other isKnown := by
    unfold AuditClient.setTail at isKnown ⊢
    by_cases here : other = host
    · subst here
      simp only [update_self]
      exact ⟨hash, seq⟩
    · simp only [update_of_ne here] at isKnown ⊢
      exact sound.known other isKnown
  fresh other unknown := by
    unfold AuditClient.setTail at unknown ⊢
    by_cases here : other = host
    · subst here
      simp only [update_self, known] at unknown
      cases unknown
    · simp only [update_of_ne here] at unknown ⊢
      exact sound.fresh other unknown

theorem Sound.append (sound : Sound c) {row : AuditRecord}
    (linked : row.prevHash = (hostEnd c.log row.hostName).1)
    (next : row.seq = (hostEnd c.log row.hostName).2 + 1)
    (hashed : row.contentHash = hashAuditRow row) (clean : NulFree row) (known : tail.known = true)
    (hash : tail.hash = row.contentHash) (seq : tail.seq = row.seq) :
    Sound ({ c with log := c.log ++ [row] }.setTail row.hostName tail) := by
  have ends : hostEnd (c.log ++ [row]) row.hostName = (row.contentHash, row.seq) := by
    rw [hostEnd, filter_concat_self, chainEnd_concat]
  refine ⟨fun host => ?_, fun host isKnown => ?_, fun host unknown => ?_⟩ <;>
    by_cases here : host = row.hostName
  · subst here
    rw [AuditClient.setTail, filter_concat_self]
    exact chained_concat (sound.chained _) linked next hashed clean
  · rw [AuditClient.setTail, filter_concat_other here]
    exact sound.chained host
  · subst here
    simp only [AuditClient.setTail, update_self, ends]
    exact ⟨hash, seq⟩
  · simp only [AuditClient.setTail, update_of_ne here] at isKnown ⊢
    rw [hostEnd, filter_concat_other here]
    exact sound.known host isKnown
  · subst here
    simp only [AuditClient.setTail, update_self, known] at unknown
    cases unknown
  · simp only [AuditClient.setTail, update_of_ne here] at unknown ⊢
    exact sound.fresh host unknown

variable [GoLayout]

theorem Sound.insertAuditLocked (sound : Sound c) (r : AuditRecord) (stampAt : Option Int)
    (signing : Signing) (executes : Bool) :
    Sound (insertAuditLocked c r stampAt signing executes).1 := by
  unfold Audit.insertAuditLocked
  simp only
  generalize loaded : (if (c.tails r.hostName).known = true then c.tails r.hostName else
    { loadHostTail c.log r.hostName (c.tails r.hostName) with known := true }) = tail
  have ends : tail.known = true ∧ tail.hash = (hostEnd c.log r.hostName).1 ∧
      tail.seq = (hostEnd c.log r.hostName).2 := by
    subst loaded
    split
    · rename_i known
      exact ⟨known, sound.known _ known⟩
    · rename_i unknown
      have zero := sound.fresh r.hostName (by simpa using unknown)
      exact ⟨rfl, loadHostTail_of_chained (sound.chained _) (by rw [zero]; rfl)⟩
  obtain ⟨known, hash, seq⟩ := ends
  have loadedSound := sound.setTail known hash seq
  split
  · exact loadedSound
  rename_i guarded passed
  obtain ⟨clean, -, host, prev, next⟩ := guardAuditNUL_ok passed
  -- the signature and the key are no part of what is hashed
  have inserted : ∀ row : AuditRecord, row.hostName = guarded.hostName →
      row.prevHash = guarded.prevHash → row.seq = guarded.seq →
      row.contentHash = hashAuditRow row → NulFree row →
      Sound (insertAuditLocked.insert stampAt executes (c.setTail r.hostName tail) tail row).1 := by
    intro row sameHost samePrev sameSeq hashed nulFree
    unfold insertAuditLocked.insert
    split
    · exact loadedSound
    split
    · exact loadedSound
    have isHost : row.hostName = r.hostName := sameHost.trans host
    refine loadedSound.append ?_ ?_ hashed nulFree rfl rfl rfl
    · rw [samePrev, prev, isHost]
      exact hash
    · rw [sameSeq, next, isHost]
      exact congrArg (· + 1) seq
  cases signing with
  | fails text => exact loadedSound
  | none | signs signature keyID => exact inserted _ rfl rfl rfl rfl clean

theorem Sound.reopen (sound : Sound c) : Sound (c.setTail host (reopenTail c.log host tail)) := by
  have ends := loadHostTail_of_chained (sound.chained host) (show ChainTail.zero.hash = [] from rfl)
  exact sound.setTail rfl ends.1 ends.2

theorem Sound.insertAuditLog (sound : Sound c) (call : InsertCall) :
    Sound (insertAuditLog c call).1 := by
  unfold Audit.insertAuditLog
  cases call.hold with
  | held => exact sound
  | inactive => exact sound.insertAuditLocked _ _ _ _
  | reopened =>
    exact sound.reopen.insertAuditLocked _ _ _ _

theorem Sound.step (sound : Sound c) (event : AuditEvent) : Sound (auditStep c event) := by
  cases event with
  | insert call => exact sound.insertAuditLog call
  | restart => exact sound_start sound.chained
  | loadTail host =>
    unfold auditStep
    simp only
    split
    · exact sound
    rename_i unknown
    have zero := sound.fresh host (by simpa using unknown)
    obtain ⟨hash, seq⟩ := loadHostTail_of_chained (sound.chained host)
      (show (c.tails host).hash = [] by rw [zero]; rfl)
    exact sound.setTail rfl hash seq

theorem sound_auditRun (events : List AuditEvent) : Sound (auditRun events) := by
  suffices kept : ∀ c, Sound c → Sound (events.foldl auditStep c) from
    kept _ (sound_start fun _ => trivial)
  induction events with
  | nil => exact fun _ sound => sound
  | cons event rest ih => exact fun c sound => ih _ (sound.step event)

end Writer

/-- A finding against the chain itself: a link, a sequence, a hash or an ambiguous row. -/
def chainFault : Finding → Bool
  | .broken _ | .seqGap _ | .laundered _ | .ambiguous _ => true
  | _ => false

/-- None of the findings is against a chain. -/
def Faultless (findings : List Finding) : Prop := ∀ finding ∈ findings, chainFault finding = false

theorem Faultless.append {findings more : List Finding} (first : Faultless findings)
    (second : Faultless more) : Faultless (findings ++ more) := fun finding member =>
  (mem_append.mp member).elim (first finding) (second finding)

theorem Faultless.flatMap {α : Type} {items : List α} {report : α → List Finding}
    (each : ∀ item ∈ items, Faultless (report item)) : Faultless (items.flatMap report) := by
  intro finding member
  obtain ⟨item, among, made⟩ := mem_flatMap.mp member
  exact each item among finding made

theorem faultless_nil : Faultless [] := fun _ member => by cases member

theorem faultless_singleton {finding : Finding} (fine : chainFault finding = false) :
    Faultless [finding] := forall_mem_singleton.mpr fine

theorem faultless_flagLegacy (host : Bytes) (run : LegacyRun) :
    Faultless (flagLegacy host run) := by
  intro finding member
  obtain ⟨id, -, rfl⟩ := mem_map.mp member
  rfl

theorem checkSeq_next {id : Bytes} {w : HostWalk} {seq : Int} (positive : 0 < seq)
    (next : ∀ last, w.seq = some last → seq = last + 1) :
    (checkSeq host id w seq).1.prev = w.prev ∧ (checkSeq host id w seq).1.seq = some seq ∧
      Faultless (checkSeq host id w seq).2 := by
  unfold checkSeq
  rw [if_neg (not_le.mpr positive)]
  refine ⟨rfl, rfl, Faultless.append ?_ ?_⟩
  · split
    · split
      · exact faultless_nil
      · split
        · exact faultless_flagLegacy _ _
        · exact faultless_nil
    · exact faultless_nil
  · split
    · rename_i last isLast
      have follows := next last isLast
      rw [if_neg (by omega), if_neg (by simpa using follows)]
      exact faultless_nil
    · exact faultless_nil

theorem checkUnsigned_spec (contract : Option Int) (linked : Bool) (w : HostWalk)
    (r : AuditRecord) :
    (checkUnsigned contract linked w r).1.prev = w.prev ∧
      (checkUnsigned contract linked w r).1.seq = w.seq ∧
      Faultless (checkUnsigned contract linked w r).2 := by
  have unsigned : Faultless [.unsigned] := faultless_singleton rfl
  have flagged : ∀ text, Faultless [.unsigned, .unsignedAfterSigned text] := fun text =>
    unsigned.append (faultless_singleton rfl)
  unfold checkUnsigned
  split
  · exact ⟨rfl, rfl, unsigned⟩
  split
  · simp only
    split
    · exact ⟨rfl, rfl, flagged _⟩
    · exact ⟨rfl, rfl, unsigned⟩
  · split
    · exact ⟨rfl, rfl, flagged _⟩
    · exact ⟨rfl, rfl, unsigned⟩

theorem faultless_checkSigned (ctx : WalkContext) (r : AuditRecord) :
    Faultless (checkSigned ctx r) := by
  refine Faultless.append ?_ ?_
  · split
    · split
      · exact faultless_singleton rfl
      · exact faultless_nil
    · exact faultless_nil
  · split
    · exact faultless_singleton rfl
    · split
      · exact faultless_nil
      · split <;> exact faultless_singleton rfl

theorem checkLinked_next (ctx : WalkContext) (linked : Bool) {w : HostWalk} {r : AuditRecord}
    (positive : 0 < r.seq) (next : ∀ last, w.seq = some last → r.seq = last + 1) :
    (checkLinked ctx linked w r).1.prev = r.contentHash ∧
      (checkLinked ctx linked w r).1.seq = some r.seq ∧
      Faultless (checkLinked ctx linked w r).2 := by
  unfold checkLinked
  simp only
  generalize numbering : checkSeq r.hostName r.id _ r.seq = numbered
  obtain ⟨prev, seq, faultless⟩ : numbered.1.prev = r.contentHash ∧ numbered.1.seq = some r.seq ∧
      Faultless numbered.2 := by
    subst numbering
    exact checkSeq_next positive next
  split
  · have spec := fun w : HostWalk => checkUnsigned_spec (ctx.contracted r.hostName) linked w r
    exact ⟨(spec _).1.trans prev, (spec _).2.1.trans seq, faultless.append (spec _).2.2⟩
  · exact ⟨prev, seq, faultless.append (faultless_checkSigned ctx r)⟩

section Verifier

variable [RowHash] (ctx : WalkContext)

variable {w : HostWalk}

theorem checkRow_next {r : AuditRecord} (attributed : r.hostName ≠ [])
    (linked : r.prevHash = w.prev) (positive : 0 < r.seq)
    (next : ∀ last, w.seq = some last → r.seq = last + 1) (hashed : r.contentHash = hashAuditRow r)
    (clean : NulFree r) :
    (checkRow ctx w r).1.prev = r.contentHash ∧ (checkRow ctx w r).1.seq = some r.seq ∧
      Faultless (checkRow ctx w r).2 := by
  have same : { r with prevHash := w.prev } = r := by rw [← linked]
  have nonempty : r.contentHash ≠ [] := hashed ▸ RowHash.nonempty _
  obtain ⟨prev, seq, faultless⟩ := checkLinked_next ctx
    (equalFold (hashAuditRow r) r.contentHash) positive next
  unfold checkRow
  rw [if_neg attributed, if_neg nonempty]
  simp only [same]
  refine ⟨prev, seq, (Faultless.append ?_ ?_).append faultless⟩
  · rw [← hashed, equalFold_self]
    exact faultless_nil
  · rw [clean]
    exact faultless_nil

theorem runRows_chained {rows : List AuditRecord} {prev : Bytes} {seq : Int}
    (attributed : ∀ r ∈ rows, r.hostName ≠ []) (chained : Chained prev seq rows)
    (atPrev : w.prev = prev) (start : 0 ≤ seq) (atSeq : ∀ last, w.seq = some last → last = seq) :
    Faultless (runRows (checkRow ctx) w rows).2 := by
  induction rows generalizing prev seq w with
  | nil => exact faultless_nil
  | cons r rest ih =>
    obtain ⟨linked, next, hashed, clean, restChained⟩ := chained
    have positive : 0 < r.seq := by omega
    obtain ⟨isAttributed, restAttributed⟩ := forall_mem_cons.mp attributed
    obtain ⟨newPrev, newSeq, faultless⟩ := checkRow_next ctx isAttributed
      (linked.trans atPrev.symm) positive (fun last isLast => by rw [next, atSeq last isLast])
      hashed clean
    refine faultless.append
      (ih restAttributed restChained newPrev positive.le fun last isLast => ?_)
    rw [newSeq] at isLast
    exact (Option.some.inj isLast).symm

theorem runRows_unattributed {rows : List AuditRecord}
    (unattributed : ∀ r ∈ rows, r.hostName = []) :
    Faultless (runRows (checkRow ctx) w rows).2 := by
  induction rows generalizing w with
  | nil => exact faultless_nil
  | cons r rest ih =>
    obtain ⟨isUnattributed, restUnattributed⟩ := forall_mem_cons.mp unattributed
    refine Faultless.append ?_ (ih restUnattributed)
    unfold checkRow
    rw [if_pos isUnattributed]
    exact faultless_singleton rfl

theorem faultless_walk {log : List AuditRecord}
    (chained : ∀ host, Chained [] 0 (log.filter (·.hostName = host))) :
    Faultless (walk ctx log).2 := by
  intro finding member
  obtain ⟨host, made⟩ := mem_runKeyed.mp member
  rw [filter_walkOrder (pairwise_seq_of_chained (chained host))] at made
  by_cases unattributed : host = []
  · refine runRows_unattributed ctx (fun r among => ?_) finding made
    exact (hostName_of_mem_filter r among).trans unattributed
  refine runRows_chained ctx (fun r among => ?_) (chained host) rfl le_rfl (fun _ isLast => ?_)
    finding made
  · exact (hostName_of_mem_filter r among) ▸ unattributed
  · cases isLast

end Verifier

theorem faultless_openRegions (states : Bytes → HostWalk) (hosts : List Bytes) :
    Faultless (openRegions states hosts) := by
  refine Faultless.flatMap fun host _ => ?_
  split
  · split
    · exact faultless_flagLegacy _ _
    · exact faultless_nil
  · exact faultless_nil

theorem faultless_notSigning (contracted : Bytes → Option Int) (unadopted : List SigningKey)
    (states : Bytes → HostWalk) (hosts : List Bytes) :
    Faultless (notSigning contracted unadopted states hosts) := by
  refine Faultless.flatMap fun host _ => ?_
  split
  · split
    · exact faultless_nil
    · exact faultless_singleton rfl
  · exact faultless_nil

section Heads

variable [GoLayout] (ctx : WalkContext) (now : Int)

theorem faultless_checkHead (log : List AuditRecord) (observed : Int) (h : AuditChainHead) :
    Faultless (checkHead ctx now log observed h).2 := by
  have credited : ∀ text, ∀ mismatch : Prop, [Decidable mismatch] →
      Faultless (if mismatch then [.headMismatch text] else []) := by
    intro text mismatch _
    split
    · exact faultless_singleton rfl
    · exact faultless_nil
  unfold checkHead
  split
  · exact faultless_singleton rfl
  simp only
  split
  · split
    · exact faultless_singleton rfl
    · exact credited _ _
  · exact credited _ _

theorem faultless_checkHeads (tables : AuditTables) (states : Bytes → HostWalk) (host : Bytes) :
    Faultless (checkHeads ctx now tables states host) := by
  refine Faultless.append (Faultless.flatMap fun checked member => ?_) ?_
  · obtain ⟨h, -, rfl⟩ := mem_map.mp member
    exact faultless_checkHead ctx now _ _ h
  · split
    · exact faultless_singleton rfl
    · exact faultless_nil

theorem faultless_verifyChainHeads (tables : AuditTables) (states : Bytes → HostWalk) :
    Faultless (verifyChainHeads ctx now tables states) := by
  refine (Faultless.flatMap fun host _ => faultless_checkHeads ctx now tables states host).append
    (Faultless.flatMap fun host _ => ?_)
  simp only
  split
  · exact faultless_singleton rfl
  · exact faultless_nil

theorem faultless_verifyAuditChain [RowHash] (keyring : Option Keyring) {tables : AuditTables}
    (chained : ∀ host, Chained [] 0 (tables.log.filter (·.hostName = host))) :
    Faultless (verifyAuditChain keyring now tables).findings := by
  refine (((Faultless.append ?_ (faultless_walk _ chained)).append
    (faultless_openRegions _ _)).append (faultless_notSigning _ _ _ _)).append
    (faultless_verifyChainHeads _ now tables _)
  intro finding member
  obtain ⟨key, -, rfl⟩ := mem_map.mp member
  rfl

end Heads

theorem brokenAt_eq_nil {res : AuditVerifyResult} (none : ∀ id, .broken id ∉ res.findings) :
    res.brokenAt = [] := by
  refine foldlRecOn (motive := (· = [])) res.findings _ rfl fun kept empty finding member => ?_
  cases finding with
  | broken id => exact absurd member (none id)
  | _ => exact empty

/-- Whatever is written, in whatever order and with whatever restarts, signatures and clocks, the
verifier finds every link, sequence and hash in its place. -/
theorem writer_verifier_agree [GoLayout] [RowHash] (events : List AuditEvent)
    (keyring : Option Keyring) (now : Int) (heads : List AuditChainHead)
    (signingKeys : List SigningKey) (lifecycle : List LifecycleRow) :
    let res := verifyAuditChain keyring now ⟨(auditRun events).log, heads, signingKeys, lifecycle⟩
    (∀ id, .broken id ∉ res.findings) ∧ res.brokenAt = [] ∧ res.seqGaps = [] ∧
      res.launderedRows = [] ∧ res.ambiguousRows = [] := by
  intro res
  have faultless : Faultless res.findings :=
    faultless_verifyAuditChain now keyring (sound_auditRun events).chained
  have unbroken : ∀ id, .broken id ∉ res.findings := fun id member => by
    cases faultless _ member
  refine ⟨unbroken, brokenAt_eq_nil unbroken, ?_, ?_, ?_⟩ <;>
  · refine filterMap_eq_nil_iff.mpr fun finding member => ?_
    have fine := faultless finding member
    cases finding <;> first | rfl | cases fine

end Litevirt.Audit

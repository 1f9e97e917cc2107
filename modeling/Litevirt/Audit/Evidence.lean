import Litevirt.Audit.Agreement

/-!
# What the verifier lets pass

What is known of the rows and heads that raised no evidence of tampering.  A row of a host under
a contract is signed and in its place; its stored hash pins its content unless its id is empty,
since a broken link is kept by the id of its row.  The latest head of a key, once settled, is
reached by the log.
-/

namespace Litevirt.Audit

open Litevirt.Hlc Litevirt.Lib Litevirt.Sync List

/-- No finding is evidence of tampering: a broken link counts by the id of its row. -/
def Quiet (findings : List Finding) : Prop :=
  ∀ finding ∈ findings, AuditVerifyResult.isTamper finding = false ∧
    ∀ id, finding = .broken id → id = []

variable {findings more : List Finding}

theorem Quiet.mono (quiet : Quiet more) (among : findings ⊆ more) :
    Quiet findings := fun finding member => quiet finding (among member)

theorem Quiet.left (quiet : Quiet (findings ++ more)) :
    Quiet findings := quiet.mono (subset_append_left _ _)

theorem Quiet.right (quiet : Quiet (findings ++ more)) :
    Quiet more := quiet.mono (subset_append_right _ _)

theorem Quiet.not_mem (quiet : Quiet findings) {finding : Finding}
    (tamper : AuditVerifyResult.isTamper finding = true) : finding ∉ findings := fun member => by
  rw [(quiet finding member).1] at tamper
  cases tamper

theorem broken_id_of_brokenAt {kept : Bytes}
    (none : findings.foldl (fun kept finding =>
      match finding with
      | .broken id => if kept = [] then id else kept
      | _ => kept) kept = []) : kept = [] ∧ ∀ id, .broken id ∈ findings → id = [] := by
  induction findings generalizing kept with
  | nil => exact ⟨none, fun _ member => by cases member⟩
  | cons finding rest ih =>
    obtain ⟨next, later⟩ := ih none
    cases finding with
    | broken id =>
      have both : kept = [] ∧ id = [] := by
        simp only at next
        by_cases empty : kept = []
        · rw [if_pos empty] at next
          exact ⟨empty, next⟩
        · rw [if_neg empty] at next
          exact absurd next empty
      refine ⟨both.1, fun other member => ?_⟩
      rcases mem_cons.mp member with same | among
      · cases same
        exact both.2
      · exact later other among
    | _ =>
      refine ⟨next, fun id member => later id ?_⟩
      rcases mem_cons.mp member with same | among
      · cases same
      · exact among

theorem quiet_of_untampered {res : AuditVerifyResult} (untampered : res.tampered = false) :
    Quiet res.findings := by
  simp only [AuditVerifyResult.tampered, decide_eq_false_iff_not, not_or, not_not] at untampered
  obtain ⟨unbroken, noEvidence⟩ := untampered
  intro finding member
  refine ⟨?_, fun id same => (broken_id_of_brokenAt unbroken).2 id (same ▸ member)⟩
  simp only [any_eq_true, not_exists, not_and, Bool.not_eq_true] at noEvidence
  exact noEvidence finding member

/-- What is known of a row that raised no evidence. -/
structure Accepted [RowHash] (keyring : Keyring) (w : HostWalk) (r : AuditRecord)
    (after : HostWalk) : Prop where
  hashed : r.contentHash ≠ []
  prev : after.prev = r.contentHash
  linked : r.id ≠ [] → equalFold (hashAuditRow { r with prevHash := w.prev }) r.contentHash = true
  seq : 0 < r.seq → after.seq = some r.seq
  next : 0 < r.seq → ∀ last, w.seq = some last → r.seq = last + 1
  verified : 0 < r.seq →
    keyring.verifyRow r.hostName r.keyID r.contentHash r.seq r.signature = none

variable {w : HostWalk}

theorem checkSeq_numbered {host id : Bytes} {seq : Int} (positive : 0 < seq)
    (quiet : Quiet (checkSeq host id w seq).2) :
    (checkSeq host id w seq).1.seq = some seq ∧ ∀ last, w.seq = some last → seq = last + 1 := by
  unfold checkSeq at quiet ⊢
  rw [if_neg (not_le.mpr positive)] at quiet ⊢
  refine ⟨rfl, fun last isLast => ?_⟩
  have gaps := quiet.right
  simp only [isLast] at gaps
  by_contra skips
  split at gaps <;> exact absurd mem_cons_self (gaps.not_mem rfl)

theorem checkSeq_prev (host id : Bytes) (w : HostWalk) (seq : Int) :
    (checkSeq host id w seq).1.prev = w.prev := by
  unfold checkSeq
  split <;> rfl

variable {r : AuditRecord} {linked : Bool}

theorem not_quiet_checkUnsigned (positive : 0 < r.seq) :
    ¬ Quiet (checkUnsigned (some 0) linked w r).2 := by
  intro quiet
  simp only [checkUnsigned, if_neg (ne_of_gt positive), if_pos positive] at quiet
  exact absurd (mem_cons_of_mem _ mem_cons_self) (quiet.not_mem rfl)

variable {ctx : WalkContext} {keyring : Keyring}

theorem verifyRow_of_checkSigned
    (loaded : ctx.keyring = some keyring) (quiet : Quiet (checkSigned ctx r)) :
    keyring.verifyRow r.hostName r.keyID r.contentHash r.seq r.signature = none := by
  have signature := quiet.right
  simp only [loaded] at signature
  split at signature
  · assumption
  · split at signature <;> exact absurd mem_cons_self (signature.not_mem rfl)

theorem checkLinked_numbered
    (contract : ctx.contracted r.hostName = some 0) (loaded : ctx.keyring = some keyring)
    (positive : 0 < r.seq) (quiet : Quiet (checkLinked ctx linked w r).2) :
    (checkLinked ctx linked w r).1.seq = some r.seq ∧
      (∀ last, w.seq = some last → r.seq = last + 1) ∧
      keyring.verifyRow r.hostName r.keyID r.contentHash r.seq r.signature = none := by
  unfold checkLinked at quiet ⊢
  split at quiet
  · rw [contract] at quiet
    exact absurd quiet.right (not_quiet_checkUnsigned positive)
  rename_i isSigned
  rw [if_neg isSigned]
  obtain ⟨seq, next⟩ := checkSeq_numbered positive quiet.left
  exact ⟨seq, next, verifyRow_of_checkSigned loaded quiet.right⟩

theorem checkLinked_prev (ctx : WalkContext) (linked : Bool) (w : HostWalk) (r : AuditRecord) :
    (checkLinked ctx linked w r).1.prev = r.contentHash := by
  unfold checkLinked
  split
  · exact (checkUnsigned_spec _ _ _ _).1.trans (checkSeq_prev _ _ _ _)
  · exact checkSeq_prev _ _ _ _

section Walk

variable [RowHash] {ctx : WalkContext} {keyring : Keyring} {host : Bytes}

variable {w : HostWalk} {r : AuditRecord}

theorem accepted_of_quiet (named : host ≠ []) (contract : ctx.contracted host = some 0)
    (loaded : ctx.keyring = some keyring) (isHost : r.hostName = host)
    (quiet : Quiet (checkRow ctx w r).2) : Accepted keyring w r (checkRow ctx w r).1 := by
  subst isHost
  unfold checkRow at quiet ⊢
  rw [if_neg named] at quiet ⊢
  split at quiet
  · rw [contract, Option.isSome_some, Bool.or_true] at quiet
    exact absurd mem_cons_self (quiet.not_mem rfl)
  rename_i hashed
  rw [if_neg hashed]
  have checked := quiet.right
  refine ⟨hashed, checkLinked_prev _ _ _ _, fun hasID => ?_, fun positive => ?_,
    fun positive => ?_, fun positive => ?_⟩
  · by_contra unlinked
    have broken := quiet.left.left
    rw [if_neg unlinked] at broken
    exact hasID ((broken _ mem_cons_self).2 _ rfl)
  · exact (checkLinked_numbered contract loaded positive checked).1
  · exact (checkLinked_numbered contract loaded positive checked).2.1
  · exact (checkLinked_numbered contract loaded positive checked).2.2

variable {original : AuditRecord} {after : HostWalk}

/-- A stored hash that is the one of a written row pins the row: no other content, and no other
place in the chain, has that hash. -/
theorem Accepted.pinned (injective : Function.Injective RowHash.hexSum)
    (accepted : Accepted keyring w r after) (hasID : r.id ≠ [])
    (hashed : original.contentHash = hashAuditRow original) (clean : NulFree original)
    (same : original.contentHash = r.contentHash) :
    original.prevHash = w.prev ∧ auditFieldValues r = auditFieldValues original := by
  have linked := accepted.linked hasID
  rw [← same, hashed] at linked
  have content := sameContent_of_canonical clean (injective (hexSum_eq_of_equalFold linked).symm)
  exact ⟨content.prevHash, content.values.symm⟩

/-- What is claimed of a row: its place, its hashed fields and its hash. -/
def attested (r : AuditRecord) : Int × List Bytes × Bytes :=
  (r.seq, auditFieldValues r, r.contentHash)

/-- The signatures that verify for the host are those over the rows that were written. -/
def Unforged (keyring : Keyring) (host : Bytes) (written : List AuditRecord) : Prop :=
  ∀ keyID contentHash seq sigHex, keyring.verifyRow host keyID contentHash seq sigHex = none →
    ∃ r ∈ written, r.contentHash = contentHash ∧ r.seq = seq

variable {prev : Bytes} {seq : Int}

theorem Chained.of_next {rest : List AuditRecord} (chained : Chained prev seq rest)
    (member : r ∈ rest) (next : r.seq = seq + 1) :
    ∃ later, rest = r :: later ∧ r.contentHash = hashAuditRow r ∧ NulFree r ∧
      Chained r.contentHash r.seq later := by
  cases rest with
  | nil => cases member
  | cons first later =>
    obtain ⟨-, firstNext, hashed, clean, laterChained⟩ := chained
    rcases mem_cons.mp member with rfl | among
    · exact ⟨later, rfl, hashed, clean, laterChained⟩
    · have beyond := seq_lt_of_chained laterChained r among
      omega

variable {rows : List AuditRecord} {last : Int}

theorem filter_chained_past (chained : Chained prev seq rows) (past : last ≤ seq) :
    rows.filter (·.seq ≤ last) = [] := by
  refine filter_eq_nil_iff.mpr fun r member => ?_
  have beyond := seq_lt_of_chained chained r member
  simpa using by omega

/-- From a place in the chain the walk finds the written rows, one after the other, as far as the
log reaches. -/
theorem attested_of_quiet (injective : Function.Injective RowHash.hexSum) (named : host ≠ [])
    (contract : ctx.contracted host = some 0) (loaded : ctx.keyring = some keyring)
    {written rest : List AuditRecord} (unforged : Unforged keyring host written)
    (start : 0 ≤ seq) (hosts : ∀ r ∈ rows, r.hostName = host)
    (ordered : rows.Pairwise fun a b => a.seq ≤ b.seq) (positive : ∀ r ∈ rows, 0 < r.seq)
    (ids : ∀ r ∈ rows, r.seq ≤ last → r.id ≠ []) (quiet : Quiet (runRows (checkRow ctx) w rows).2)
    (chained : Chained prev seq rest) (remaining : ∀ r ∈ written, seq < r.seq → r ∈ rest)
    (atPrev : w.prev = prev)
    (follows : ∀ r, rows.head? = some r → Accepted keyring w r (checkRow ctx w r).1 →
      r.seq = seq + 1) (reaches : last ≤ seq ∨ ∃ r ∈ rows, last ≤ r.seq) :
    (rows.filter (·.seq ≤ last)).map attested = (rest.filter (·.seq ≤ last)).map attested := by
  induction rows generalizing prev seq w rest with
  | nil =>
    rw [filter_chained_past chained (reaches.resolve_right (by simp))]
    rfl
  | cons r later ih =>
    obtain ⟨isHost, laterHosts⟩ := forall_mem_cons.mp hosts
    obtain ⟨before, laterOrdered⟩ := pairwise_cons.mp ordered
    obtain ⟨isPositive, laterPositive⟩ := forall_mem_cons.mp positive
    obtain ⟨hasID, laterIDs⟩ := forall_mem_cons.mp ids
    have accepted := accepted_of_quiet named contract loaded isHost quiet.left
    have next : r.seq = seq + 1 := follows r rfl accepted
    obtain ⟨original, isWritten, sameHash, sameSeq⟩ :=
      unforged _ _ _ _ (isHost ▸ accepted.verified isPositive)
    obtain ⟨more, rfl, hashed, clean, moreChained⟩ :=
      chained.of_next (remaining original isWritten (by omega)) (sameSeq.trans next)
    by_cases within : r.seq ≤ last
    · have pinned := accepted.pinned injective (hasID within) hashed clean sameHash
      rw [filter_cons_of_pos (by simpa using within),
        filter_cons_of_pos (by simpa [sameSeq] using within), map_cons]
      refine congrArg₂ _ ?_ (ih (by omega) laterHosts laterOrdered laterPositive laterIDs
        quiet.right moreChained ?_ (accepted.prev.trans sameHash.symm) ?_ ?_)
      · rw [attested, attested, pinned.2, sameHash, sameSeq]
      · intro other otherWritten beyond
        refine (mem_cons.mp (remaining other otherWritten (by omega))).resolve_left ?_
        rintro rfl
        exact absurd beyond (lt_irrefl _)
      · intro following isNext passed
        have member := mem_of_mem_head? (Option.mem_def.mpr isNext)
        rw [sameSeq]
        exact passed.next (laterPositive following member) _ (accepted.seq isPositive)
      · rcases reaches with past | ⟨far, among, reached⟩
        · exact absurd within (by omega)
        · rcases mem_cons.mp among with rfl | among
          · exact .inl (sameSeq ▸ reached)
          · exact .inr ⟨far, among, reached⟩
    · -- past the end of what is attested both sides are empty
      rw [filter_chained_past chained (by omega), filter_eq_nil_iff.mpr]
      intro other member
      rcases mem_cons.mp member with rfl | among
      · simpa using within
      · have after := before other among
        simpa using by omega

theorem hashed_of_chained (chained : Chained prev seq rows) :
    ∀ r ∈ rows, r.contentHash = hashAuditRow r ∧ NulFree r := by
  induction rows generalizing prev seq with
  | nil => simp
  | cons first later ih =>
    obtain ⟨-, -, hashed, clean, laterChained⟩ := chained
    exact forall_mem_cons.mpr ⟨⟨hashed, clean⟩, ih laterChained⟩

theorem prevHash_ne_nil (chained : Chained prev seq rows) (nonempty : prev ≠ []) :
    ∀ r ∈ rows, r.prevHash ≠ [] := by
  induction rows generalizing prev seq with
  | nil => simp
  | cons first later ih =>
    obtain ⟨linked, -, hashed, -, laterChained⟩ := chained
    exact forall_mem_cons.mpr
      ⟨linked ▸ nonempty, ih laterChained (hashed ▸ RowHash.nonempty _)⟩

theorem seq_of_prevHash_nil (chained : Chained prev seq rows) (member : r ∈ rows)
    (first : r.prevHash = []) : r.seq = seq + 1 := by
  cases rows with
  | nil => cases member
  | cons head later =>
    obtain ⟨-, next, hashed, -, laterChained⟩ := chained
    rcases mem_cons.mp member with rfl | among
    · exact next
    · exact absurd first (prevHash_ne_nil laterChained (hashed ▸ RowHash.nonempty _) r among)

theorem seq_of_first (injective : Function.Injective RowHash.hexSum) {written : List AuditRecord}
    (chained : Chained [] 0 written) (unforged : Unforged keyring host written)
    (accepted : Accepted keyring .start r after) (isHost : r.hostName = host) (positive : 0 < r.seq)
    (hasID : r.id ≠ []) : r.seq = 1 := by
  obtain ⟨original, isWritten, sameHash, sameSeq⟩ :=
    unforged _ _ _ _ (isHost ▸ accepted.verified positive)
  obtain ⟨hashed, clean⟩ := hashed_of_chained chained original isWritten
  have pinned := accepted.pinned injective hasID hashed clean sameHash
  rw [← sameSeq, seq_of_prevHash_nil chained isWritten pinned.1]
  rfl

theorem eq_nil_of_first (injective : Function.Injective RowHash.hexSum) (named : host ≠ [])
    (contract : ctx.contracted host = some 0) (loaded : ctx.keyring = some keyring)
    {before after : List AuditRecord}
    (hosts : ∀ other ∈ before ++ r :: after, other.hostName = host)
    (quiet : Quiet (runRows (checkRow ctx) .start (before ++ r :: after)).2) (hasID : r.id ≠ [])
    (hashed : original.contentHash = hashAuditRow original) (clean : NulFree original)
    (first : original.prevHash = []) (same : original.contentHash = r.contentHash) :
    before = [] := by
  rw [runRows_append] at quiet
  have accepted := accepted_of_quiet named contract loaded (hosts r (by simp)) quiet.right.left
  have stands := (accepted.pinned injective hasID hashed clean same).1
  rcases eq_nil_or_concat' before with empty | ⟨front, last, rfl⟩
  · exact empty
  rw [runRows_append] at quiet
  have lastAccepted := accepted_of_quiet named contract loaded (hosts last (by simp))
    quiet.left.right.left
  rw [runRows_append, runRows_cons, runRows_nil, lastAccepted.prev, first] at stands
  exact absurd stands.symm lastAccepted.hashed

theorem checkRow_seq (w : HostWalk) (r : AuditRecord) :
    (checkRow ctx w r).1.seq = w.seq ∨ (checkRow ctx w r).1.seq = some r.seq := by
  have numbered : ∀ w : HostWalk, (checkSeq r.hostName r.id w r.seq).1.seq = w.seq ∨
      (checkSeq r.hostName r.id w r.seq).1.seq = some r.seq := by
    intro w
    unfold checkSeq
    split
    · exact .inl rfl
    · exact .inr rfl
  unfold checkRow
  split
  · exact .inl rfl
  split
  · split <;> exact .inl rfl
  unfold checkLinked
  split
  · rw [(checkUnsigned_spec _ _ _ _).2.1]
    exact numbered _
  · exact numbered _

theorem runRows_seq (w : HostWalk) (rows : List AuditRecord) :
    (runRows (checkRow ctx) w rows).1.seq = w.seq ∨
      ∃ r ∈ rows, (runRows (checkRow ctx) w rows).1.seq = some r.seq := by
  induction rows generalizing w with
  | nil => exact .inl rfl
  | cons r later ih =>
    rcases ih (checkRow ctx w r).1 with kept | ⟨other, among, isSeq⟩
    · rcases checkRow_seq w r with same | isRow
      · exact .inl (kept.trans same)
      · exact .inr ⟨r, mem_cons_self, kept.trans isRow⟩
    · exact .inr ⟨other, mem_cons_of_mem _ among, isSeq⟩

end Walk

theorem mem_sortTexts {texts : List Bytes} {text : Bytes} :
    text ∈ sortTexts texts ↔ text ∈ texts := by
  rw [sortTexts, mem_insertionSort, mem_dedup]

/-- The latest head of a key is one of its heads, and none is higher. -/
theorem latestHead_spec {heads : List AuditChainHead} {host keyID : Bytes} {h : AuditChainHead}
    (latest : latestHead heads host keyID = some h) :
    h ∈ heads ∧ h.hostName = host ∧ h.keyID = keyID ∧
      ∀ other ∈ heads, other.hostName = host → other.keyID = keyID → other.seq ≤ h.seq := by
  unfold latestHead at latest
  simp only at latest
  split at latest
  · cases latest
  rename_i top isTop
  have member := mem_of_getLast? latest
  rw [mem_insertionSort, mem_filter, mem_filter] at member
  simp only [decide_eq_true_eq] at member
  obtain ⟨⟨stored, isHost, isKey⟩, atTop⟩ := member
  refine ⟨stored, isHost, isKey, fun other otherStored otherHost otherKey => ?_⟩
  rw [atTop]
  refine (max?_eq_some_iff.mp isTop).2 _ (mem_map_of_mem ?_)
  exact mem_filter.mpr ⟨otherStored, by simpa using ⟨otherHost, otherKey⟩⟩

theorem le_foldl_max {checked : List (Option Int × List Finding)} {c : Option Int × List Finding}
    (member : c ∈ checked) (top : Int) :
    c.1.getD 0 ≤ checked.foldl (fun top c => max top (c.1.getD 0)) top := by
  have grows : ∀ (checked : List (Option Int × List Finding)) (top : Int),
      top ≤ checked.foldl (fun top c => max top (c.1.getD 0)) top := by
    intro checked
    induction checked with
    | nil => exact fun _ => le_rfl
    | cons first rest ih => exact fun top => (le_max_left _ _).trans (ih _)
  induction checked generalizing top with
  | nil => cases member
  | cons first rest ih =>
    rcases mem_cons.mp member with rfl | among
    · exact (le_max_right _ _).trans (grows _ _)
    · exact ih among _

section Heads

variable [GoLayout] {ctx : WalkContext} {keyring : Keyring} {now : Int} {h : AuditChainHead}

theorem seq_le_observed (loaded : ctx.keyring = some keyring) {tables : AuditTables}
    {states : Bytes → HostWalk} {host keyID : Bytes}
    (latest : latestHead tables.heads host keyID = some h)
    (unretired : ctx.retired ⟨host, keyID⟩ = none) (settled : headHasSettled now h true = true)
    (quiet : Quiet (checkHeads ctx now tables states host)) :
    h.seq ≤ (states host).seq.getD 0 := by
  obtain ⟨stored, isHost, isKey, -⟩ := latestHead_spec latest
  have listed : h ∈ latestAuditHeadsByKey tables.heads host := by
    refine mem_filterMap.mpr ⟨keyID, mem_sortTexts.mpr ?_, latest⟩
    exact isKey ▸ mem_map_of_mem (mem_filter.mpr ⟨stored, by simpa using isHost⟩)
  have checked := mem_map_of_mem
    (f := checkHead ctx now tables.log ((states host).seq.getD 0)) listed
  -- the findings are quiet, so the head is not rejected and its number is credited
  have accepted := quiet.left.mono fun finding made => mem_flatMap.mpr ⟨_, checked, made⟩
  have credited : (checkHead ctx now tables.log ((states host).seq.getD 0) h).1 = some h.seq := by
    rw [← isHost, ← isKey] at unretired
    unfold checkHead at accepted ⊢
    split at accepted
    · exact absurd mem_cons_self (accepted.not_mem rfl)
    · simp only [unretired, loaded, Option.isSome_some, settled, if_true]
  have attests := le_foldl_max checked 0
  rw [credited] at attests
  by_contra short
  have reported := quiet.right
  rw [if_pos (lt_of_lt_of_le (not_le.mp short) attests)] at reported
  exact absurd mem_cons_self (reported.not_mem rfl)

end Heads

end Litevirt.Audit

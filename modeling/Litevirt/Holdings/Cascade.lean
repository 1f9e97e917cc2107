import Litevirt.Sync.Merge

/-!
# What a local user holds, and what deleting the user reaches

`users.go` and `auth.go` of `internal/corrosion`: API tokens, second factors, recovery codes and
role bindings of one user.  `DeleteUser` is a batch of guarded updates that each replica runs
against its own rows.  A factor or a code counts only under the active set its pointer names;
tokens and bindings count by themselves.
-/

namespace Litevirt.Holdings

open Litevirt.Sync List

/-- The primary keys of the rows of one user. -/
inductive Holding where
  | user
  | token (id : String)
  | factorSet
  | factor (method label : String)
  | codeSet
  | code (hash : String)
  | binding (id : String)
  deriving DecidableEq

/-- `user:NAME` and `user:NAME@local`. -/
inductive Principal where
  | plain
  | qualified
  deriving DecidableEq

inductive Content where
  | user (role passwordHash : String)
  | token (hash expiresAt : String)
  | pointer (active : String)
  | factor (secret epoch : String)
  | code (setID : String) (used : Bool)
  | binding (path role : String) (principal : Principal)
  deriving DecidableEq

structure Row where
  content : Content
  clock : Key
  deleted : Bool
  deriving DecidableEq

abbrev Rows := Holding → Option Row

def activeSet (rows : Rows) (key : Holding) : Option String :=
  match rows key with
  | some ⟨.pointer active, _, false⟩ => some active
  | _ => none

variable {rows : Rows} {key : Holding}

theorem activeSet_eq_some {active : String} (live : activeSet rows key = some active) :
    ∃ row, rows key = some row ∧ row.deleted = false ∧ row.content = .pointer active := by
  unfold activeSet at live
  split at live
  · rename_i found
    cases live
    exact ⟨_, found, rfl, rfl⟩
  · cases live

/-- The WHERE clause of a statement that sets `deleted_at`. -/
inductive Scope where
  | user
  | one (key : Holding)
  | factors
  | factorSet
  | codes
  | codeSet
  | bindings
  | otherCodes (setID : String)
  deriving DecidableEq

def Scope.selects : Scope → Holding → Row → Bool
  | user, key, _ => key = .user
  | one wanted, key, _ => key = wanted
  | factors, .factor _ _, row => !row.deleted
  | factorSet, .factorSet, row => !row.deleted
  | codes, .code _, row => !row.deleted
  | codeSet, .codeSet, row => !row.deleted
  | bindings, .binding _, row => !row.deleted
  | otherCodes setID, .code _, row =>
    match row.content with
    | .code held used => held ≠ setID && !used
    | _ => false
  | _, _, _ => false

inductive Change where
  | upsert (key : Holding) (content : Content)
  | reactivate (role passwordHash : String)
  | tombstone (scope : Scope)
  /-- The guarded update of `TouchUser2FA` and `RecordTOTPStep`. -/
  | touch (method label : String)
  /-- The guarded update of `MarkRecoveryCodeUsed`. -/
  | markUsed (hash : String)
  deriving DecidableEq

/-- An explicit upsert clears `deleted_at`; a plain INSERT does not name the column. -/
def Holding.revives : Holding → Bool
  | factorSet => true
  | factor _ _ => true
  | codeSet => true
  | code _ => true
  | _ => false

/-- The row a statement leaves under a key, on the node that issues it. -/
def Change.write (rows : Rows) (clock : Key) (change : Change) (key : Holding) : Option Row :=
  match change with
  | upsert wanted content =>
    if key = wanted then
      some ⟨content, clock, !key.revives && (rows key).any (·.deleted)⟩
    else rows key
  | reactivate role passwordHash =>
    if key = .user then (rows key).map fun _ => ⟨.user role passwordHash, clock, false⟩
    else rows key
  | tombstone scope =>
    (rows key).map fun row =>
      if scope.selects key row then { row with clock, deleted := true } else row
  | touch method label =>
    (rows key).map fun row =>
      match row.content with
      | .factor _ epoch =>
        if key = .factor method label ∧ row.deleted = false ∧
            activeSet rows .factorSet = some epoch then { row with clock }
        else row
      | _ => row
  | markUsed hash =>
    (rows key).map fun row =>
      match row.content with
      | .code setID false =>
        if key = .code hash ∧ row.deleted = false ∧ activeSet rows .codeSet = some setID then
          { row with content := .code setID true, clock }
        else row
      | _ => row

/-- The row a statement leaves under a key on a node it is replicated to. -/
def Change.apply [GoLayout] (skewGuard : Option Int) (rows : Rows) (clock : Key) (change : Change)
    (key : Holding) : Option Row :=
  let localTS := ((rows key).map (·.clock.text)).getD []
  if skewQuarantinesIncoming skewGuard localTS clock.text then rows key
  else
    match rows key with
    | none => change.write rows clock key
    | some row =>
      if lwwOrder row.clock.text clock.text = .lt then change.write rows clock key else some row

inductive Operation where
  | insertUser (role passwordHash : String)
  | insertToken (id hash expiresAt : String)
  | revokeToken (id : String)
  /-- `InsertUser2FA`, with the epoch it mints when it needs one. -/
  | insertUser2FA (method label secret epoch : String)
  | touchUser2FA (method label : String)
  | insertRecoveryCodes (setID : String) (hashes : List String)
  | markRecoveryCodeUsed (hash : String)
  | insertRoleBinding (id path role : String) (principal : Principal)
  | deleteRoleBinding (id : String)
  | deleteUser
  deriving DecidableEq

def deleteUserBatch : List Change :=
  [.tombstone .user, .tombstone .factors, .tombstone .factorSet, .tombstone .codes,
    .tombstone .codeSet, .tombstone .bindings]

/-- The statements of an operation on a node with these rows, nothing when the first of them
fails. -/
def Operation.changes (rows : Rows) : Operation → Option (List Change)
  | insertUser role passwordHash =>
    match rows .user with
    | none => some [.upsert .user (.user role passwordHash)]
    | some row => if row.deleted then some [.reactivate role passwordHash] else none
  | insertToken id hash expiresAt =>
    if (rows (.token id)).isSome then none
    else some [.upsert (.token id) (.token hash expiresAt)]
  | revokeToken id => some [.tombstone (.one (.token id))]
  | insertUser2FA method label secret epoch =>
    match activeSet rows .factorSet with
    | some active => some [.upsert (.factor method label) (.factor secret active)]
    | none =>
      some [.upsert .factorSet (.pointer epoch),
        .upsert (.factor method label) (.factor secret epoch)]
  | touchUser2FA method label => some [.touch method label]
  | insertRecoveryCodes setID hashes =>
    some (.upsert .codeSet (.pointer setID) :: .tombstone (.otherCodes setID) ::
      hashes.map fun hash => .upsert (.code hash) (.code setID false))
  | markRecoveryCodeUsed hash => some [.markUsed hash]
  | insertRoleBinding id path role principal =>
    if (rows (.binding id)).isSome then none
    else some [.upsert (.binding id) (.binding path role principal)]
  | deleteRoleBinding id => some [.tombstone (.one (.binding id))]
  | deleteUser => some deleteUserBatch

/-- What a reader asks beside the row itself: a token is joined with its live user and must not
have expired, a factor or code must belong to the active set. -/
def Content.counts (rows : Rows) (cutoff : String) : Content → Bool
  | token _ expiresAt => (rows .user).any (!·.deleted) && (expiresAt = "" || cutoff < expiresAt)
  | factor _ epoch => activeSet rows .factorSet = some epoch
  | code setID used => !used && activeSet rows .codeSet = some setID
  | binding _ _ _ => true
  | user _ _ => false
  | pointer _ => false

/-- A row that a reader takes for the user: `liveTokenCandidates`, `ListUser2FA`,
`ListUnusedRecoveryCodes` and `ListRoleBindings`. -/
def accepts (rows : Rows) (cutoff : String) (key : Holding) (content : Content) : Bool :=
  (rows key).any fun row => row.content = content && !row.deleted && content.counts rows cutoff

/-- Tokens, bindings and the pointers: their rows are written by the operation that issues
them and by tombstones, and by nothing else. -/
def Holding.deciding : Holding → Bool
  | token _ => true
  | factorSet => true
  | codeSet => true
  | binding _ => true
  | _ => false

/-- A row written at a clock; a live one was issued then. -/
def Written (changes : List Change) (clock : Key) (key : Holding) (after : Option Row) : Prop :=
  ∃ row, after = some row ∧ row.clock = clock ∧
    (row.deleted = false → .upsert key row.content ∈ changes)

/-- A statement leaves a deciding row alone or writes it. -/
theorem Change.write_cases (rows : Rows) (clock : Key) (change : Change)
    (deciding : key.deciding = true) :
    change.write rows clock key = rows key ∨
      Written [change] clock key (change.write rows clock key) := by
  cases change with
  | upsert wanted content =>
    unfold write
    dsimp only
    split
    · rename_i same
      subst same
      exact .inr ⟨_, rfl, rfl, fun _ => mem_singleton_self _⟩
    · exact .inl rfl
  | reactivate role passwordHash =>
    unfold write
    dsimp only
    split
    · rename_i same
      rw [same] at deciding
      cases deciding
    · exact .inl rfl
  | tombstone scope =>
    unfold write
    cases rows key with
    | none => exact .inl rfl
    | some row =>
      dsimp only [Option.map_some]
      split
      · exact .inr ⟨_, rfl, rfl, nofun⟩
      · exact .inl rfl
  | touch method label | markUsed hash =>
    refine .inl ?_
    unfold write
    cases rows key with
    | none => rfl
    | some row =>
      dsimp only [Option.map_some]
      split
      · split
        · rename_i selected
          rw [selected.1] at deciding
          cases deciding
        · rfl
      · rfl

/-- Only an upsert of the key makes a row where there was none. -/
theorem Change.write_none {rows : Rows} {key : Holding} (clock : Key) {change : Change}
    (other : ∀ content, change ≠ .upsert key content) (absent : rows key = none) :
    change.write rows clock key = none := by
  cases change with
  | upsert wanted content =>
    have different : key ≠ wanted := fun same => other content (same ▸ rfl)
    exact (if_neg different).trans absent
  | reactivate role passwordHash => simp [write, absent]
  | tombstone scope | touch method label | markUsed hash => simp [write, absent]

/-- The statement tombstones a live row under the key, whatever else the node holds. -/
def Change.covers (key : Holding) : Change → Bool
  | tombstone (.one wanted) => key = wanted
  | tombstone .factorSet => key = .factorSet
  | tombstone .codeSet => key = .codeSet
  | tombstone .bindings =>
    match key with
    | .binding _ => true
    | _ => false
  | _ => false

theorem Change.write_covers {change : Change} {row : Row} (clock : Key)
    (reached : change.covers key = true) (found : rows key = some row)
    (live : row.deleted = false) :
    ∃ after, change.write rows clock key = some after ∧ after.clock = clock := by
  have selected (scope : Scope) (hit : scope.selects key row = true) :
      (tombstone scope).write rows clock key = some { row with clock, deleted := true } := by
    simp [write, found, hit]
  unfold covers at reached
  split at reached
  · exact ⟨_, selected _ (by simpa [Scope.selects] using reached), rfl⟩
  · obtain rfl := of_decide_eq_true reached
    exact ⟨_, selected _ (by simp [Scope.selects, live]), rfl⟩
  · obtain rfl := of_decide_eq_true reached
    exact ⟨_, selected _ (by simp [Scope.selects, live]), rfl⟩
  · split at reached
    · exact ⟨_, selected _ (by simp [Scope.selects, live]), rfl⟩
    · cases reached
  · cases reached

section Replicated

variable [GoLayout] {skewGuard : Option Int} {rows : Rows} {clock : Key} {change : Change}
  {key : Holding}

theorem lwwOrder_eq_lt {a b : Key} : lwwOrder a.text b.text = .lt ↔ a.rank < b.rank := by
  rw [lwwOrder_text, cmp_eq_lt_iff]

/-- A replicated statement leaves a deciding row alone or writes it over an older one. -/
theorem Change.apply_cases (deciding : key.deciding = true) :
    change.apply skewGuard rows clock key = rows key ∨
      Written [change] clock key (change.apply skewGuard rows clock key) ∧
        ∀ old, rows key = some old → old.clock.rank < clock.rank := by
  have written := change.write_cases rows clock deciding
  unfold apply
  dsimp only
  split
  · exact .inl rfl
  cases found : rows key with
  | none =>
    rw [found] at written
    exact written.imp_right fun new => ⟨new, nofun⟩
  | some row =>
    rw [found] at written
    dsimp only
    split
    · rename_i newer
      refine written.imp_right fun new => ⟨new, fun old same => ?_⟩
      obtain rfl := Option.some.inj same
      exact lwwOrder_eq_lt.mp newer
    · exact .inl rfl

/-- The skew guard lets the clock pass. -/
def Unskewed (skewGuard : Option Int) (clock : Key) : Prop :=
  ∀ now ∈ skewGuard, tsFutureSkewed clock.text now = false

theorem Unskewed.admitted (unskewed : Unskewed skewGuard clock) (localTS : Hlc.Bytes) :
    skewQuarantinesIncoming skewGuard localTS clock.text = false := by
  cases skewGuard with
  | none => rfl
  | some now => simp [skewQuarantinesIncoming, unskewed now rfl]

end Replicated

/-- A batch on the node that issues it. -/
def writeAll (rows : Rows) (clock : Key) (changes : List Change) : Rows :=
  changes.foldl (fun rows change => change.write rows clock) rows

/-- A batch on a node it is replicated to. -/
def applyAll [GoLayout] (skewGuard : Option Int) (rows : Rows) (clock : Key)
    (changes : List Change) : Rows :=
  changes.foldl (fun rows change => change.apply skewGuard rows clock) rows

/-- The row was written at the clock or is a tombstone. -/
def Spent (clock : Key) (after : Option Row) : Prop :=
  ∃ row, after = some row ∧ (row.clock = clock ∨ row.deleted = true)

section Batches

variable {run : Rows → Change → Rows} {clock : Key} {key : Holding}

variable {changes : List Change}

/-- A batch whose statements leave the row alone or write it does so too. -/
theorem foldl_cases (rows : Rows)
    (each : ∀ rows, ∀ change ∈ changes, run rows change key = rows key ∨
      Written [change] clock key (run rows change key)) :
    changes.foldl run rows key = rows key ∨
      Written changes clock key (changes.foldl run rows key) := by
  induction changes generalizing rows with
  | nil => exact .inl rfl
  | cons change rest ih =>
    have later := ih (run rows change) fun rows other member =>
      each rows other (mem_cons_of_mem _ member)
    rw [foldl_cons]
    rcases later with same | ⟨row, found, stamped, issued⟩
    · rw [same]
      refine (each rows change mem_cons_self).imp_right ?_
      rintro ⟨row, found, stamped, issued⟩
      refine ⟨row, found, stamped, fun live => ?_⟩
      exact mem_cons.mpr (.inl (mem_singleton.mp (issued live)))
    · exact .inr ⟨row, found, stamped, fun live => mem_cons_of_mem _ (issued live)⟩

variable {rows : Rows}

theorem Spent.foldl (spent : Spent clock (rows key))
    (each : ∀ rows, ∀ change ∈ changes, run rows change key = rows key ∨
      Written [change] clock key (run rows change key)) :
    Spent clock (changes.foldl run rows key) := by
  rcases foldl_cases rows each with same | ⟨row, found, stamped, -⟩
  · rw [same]
    exact spent
  · exact ⟨row, found, .inl stamped⟩

variable {row : Row}

theorem foldl_spent
    (each : ∀ rows, ∀ change ∈ changes, run rows change key = rows key ∨
      Written [change] clock key (run rows change key))
    (spends : ∀ rows change, rows key = some row → change.covers key = true →
      Spent clock (run rows change key))
    (found : rows key = some row) (reached : ∃ change ∈ changes, change.covers key = true) :
    Spent clock (changes.foldl run rows key) := by
  induction changes generalizing rows with
  | nil => exact absurd reached (by simp)
  | cons change rest ih =>
    have restEach : ∀ rows, ∀ change ∈ rest, run rows change key = rows key ∨
        Written [change] clock key (run rows change key) :=
      fun rows other member => each rows other (mem_cons_of_mem _ member)
    rw [foldl_cons]
    by_cases here : change.covers key = true
    · exact (spends rows change found here).foldl restEach
    rcases each rows change mem_cons_self with same | ⟨after, written, stamped, -⟩
    · refine ih restEach (same.trans found) ?_
      obtain ⟨other, member, covers⟩ := reached
      rcases mem_cons.mp member with rfl | later
      · exact absurd covers here
      · exact ⟨other, later, covers⟩
    · exact Spent.foldl ⟨after, written, .inl stamped⟩ restEach

theorem foldl_none
    (each : ∀ rows, ∀ change ∈ changes, rows key = none → run rows change key = none)
    (absent : rows key = none) : changes.foldl run rows key = none := by
  induction changes generalizing rows with
  | nil => exact absent
  | cons change rest ih =>
    exact ih (fun rows other member => each rows other (mem_cons_of_mem _ member))
      (each rows change mem_cons_self absent)

theorem writeAll_none (clock : Key) (unissued : ∀ content, .upsert key content ∉ changes)
    (absent : rows key = none) : writeAll rows clock changes key = none :=
  foldl_none (fun _ _ member absent => Change.write_none clock
    (fun content same => unissued content (same ▸ member)) absent) absent

theorem writeAll_cases (rows : Rows) (clock : Key) (changes : List Change)
    (deciding : key.deciding = true) :
    writeAll rows clock changes key = rows key ∨
      Written changes clock key (writeAll rows clock changes key) :=
  foldl_cases rows fun rows change _ => change.write_cases rows clock deciding

theorem writeAll_upsert {content : Content} (rows : Rows) (deciding : key.deciding = true)
    (issued : .upsert key content ∈ changes) :
    ∃ row, writeAll rows clock changes key = some row ∧ row.clock = clock := by
  induction changes generalizing rows with
  | nil => cases issued
  | cons change rest ih =>
    rcases mem_cons.mp issued with rfl | later
    · have after := writeAll_cases ((Change.upsert key content).write rows clock) clock rest
        deciding
      rcases after with same | ⟨row, found, stamped, -⟩
      · exact ⟨_, same.trans (if_pos rfl), rfl⟩
      · exact ⟨row, found, stamped⟩
    · exact ih _ later

theorem writeAll_spent (deciding : key.deciding = true) (found : rows key = some row)
    (reached : ∃ change ∈ changes, change.covers key = true) :
    Spent clock (writeAll rows clock changes key) := by
  refine foldl_spent (fun rows change _ => change.write_cases rows clock deciding) ?_ found reached
  intro rows change found covers
  cases mark : row.deleted with
  | false =>
    obtain ⟨after, written, stamped⟩ := change.write_covers clock covers found mark
    exact ⟨after, written, .inl stamped⟩
  | true =>
    rcases change.write_cases rows clock deciding with same | ⟨after, written, stamped, -⟩
    · exact ⟨row, same.trans found, .inr mark⟩
    · exact ⟨after, written, .inl stamped⟩

variable [GoLayout] {skewGuard : Option Int}

theorem applyAll_none (skewGuard : Option Int) (clock : Key)
    (unissued : ∀ content, .upsert key content ∉ changes)
    (absent : rows key = none) : applyAll skewGuard rows clock changes key = none := by
  refine foldl_none (fun rows change member absent => ?_) absent
  have written := Change.write_none clock
    (fun content same => unissued content (same ▸ member)) absent
  unfold Change.apply
  dsimp only
  split
  · exact absent
  · rw [absent]
    exact written

theorem applyAll_cases (rows : Rows) (changes : List Change) (deciding : key.deciding = true) :
    applyAll skewGuard rows clock changes key = rows key ∨
      Written changes clock key (applyAll skewGuard rows clock changes key) :=
  foldl_cases rows fun _ _ _ => (Change.apply_cases deciding).imp_right And.left

theorem applyAll_newer (rows : Rows) (changes : List Change) (deciding : key.deciding = true) :
    applyAll skewGuard rows clock changes key = rows key ∨
      ∀ old, rows key = some old → old.clock.rank < clock.rank := by
  induction changes generalizing rows with
  | nil => exact .inl rfl
  | cons change rest ih =>
    have first : change.apply skewGuard rows clock key = rows key ∨ _ :=
      Change.apply_cases deciding
    rcases first with same | ⟨-, older⟩
    · rw [← same]
      exact ih (change.apply skewGuard rows clock)
    · exact .inr older

theorem applyAll_spent (deciding : key.deciding = true) (unskewed : Unskewed skewGuard clock)
    (found : rows key = some row) (older : row.clock.rank < clock.rank)
    (reached : ∃ change ∈ changes, change.covers key = true) :
    Spent clock (applyAll skewGuard rows clock changes key) := by
  refine foldl_spent (fun _ _ _ => (Change.apply_cases deciding).imp_right And.left) ?_ found
    reached
  intro rows change found covers
  cases mark : row.deleted with
  | false =>
    obtain ⟨after, written, stamped⟩ := change.write_covers clock covers found mark
    refine ⟨after, ?_, .inl stamped⟩
    unfold Change.apply
    simp only [unskewed.admitted, found, lwwOrder_eq_lt.mpr older, written, Bool.false_eq_true,
      ↓reduceIte]
  | true =>
    have kept : change.apply skewGuard rows clock key = rows key ∨ _ :=
      Change.apply_cases deciding
    rcases kept with same | ⟨⟨after, written, stamped, -⟩, -⟩
    · exact ⟨row, same.trans found, .inr mark⟩
    · exact ⟨after, written, .inl stamped⟩

end Batches

end Litevirt.Holdings

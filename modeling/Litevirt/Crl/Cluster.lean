import Litevirt.Crl.Mint
import Litevirt.Lib.Pages

/-!
# Installing what the cluster published

`SyncClusterCRL` and `forEachClusterCRL` of `internal/corrosion/crl.go`: the rows of the table
are visited page by page, and those that verify are installed together.  A row that does not
verify, for whatever reason, is remembered locally and not looked at again.
-/

namespace Litevirt.Crl

open Litevirt.Lib List

def maxClusterCRLBytes : Nat := 2 ^ 20

def clusterCRLPageSize : Nat := 128

/-- A row of `cluster_crl`; whether it is tombstoned is not looked at. -/
structure Row (ι β : Type) where
  id : ι
  pem : β
  deriving DecidableEq

/-- Which accesses of a run of `SyncClusterCRL` fail: the set-up of the local table, each
query, the CA certificate for a row, the note that a row is invalid, and the installation. -/
structure SyncFaults (ι β : Type) where
  init : Bool
  page : Nat → Bool
  rowCA : Row ι β → Bool
  note : Row ι β → Bool
  install : InstallFaults

/-- What the visits leave: the ids known to be invalid and the texts that verified. -/
structure Visits (ι β : Type) where
  invalid : List ι
  verified : List β

section Visit

variable {β ρ δ ι : Type} [DecidableEq ι] (pki : Pki β ρ δ ι)

/-- One visit; `known` says that the row's id was listed as invalid when it was read. -/
def visit (faults : SyncFaults ι β) (known : Bool) (visits : Visits ι β) (row : Row ι β) :
    Visits ι β :=
  if maxClusterCRLBytes < pki.size row.pem ∨ row.id ≠ pki.rowID row.pem then visits
  else if known then visits
  else
    match verifyCRLs pki (faults.rowCA row) row.pem with
    | .ok _ => { visits with verified := visits.verified ++ [row.pem] }
    | .error _ =>
      if faults.note row then visits
      else { visits with invalid := row.id :: visits.invalid }

def visitPage (faults : SyncFaults ι β) (visits : Visits ι β) (page : List (Row ι β)) :
    Visits ι β :=
  page.foldl (fun sofar row => visit pki faults (row.id ∈ visits.invalid) sofar row) visits

variable {pki}

/-- A row that binds its content, of at most the size limit, that the CA signed. -/
def GenuineRow (pki : Pki β ρ δ ι) (row : Row ι β) : Prop :=
  row.id = pki.rowID row.pem ∧ pki.size row.pem ≤ maxClusterCRLBytes ∧
    ∃ members : List (Parsed pki), Genuine row.pem members

def CleanCache (pki : Pki β ρ δ ι) (invalid : List ι) : Prop :=
  ∀ row, GenuineRow pki row → row.id ∉ invalid

variable {visits : Visits ι β} {row : Row ι β}

theorem visit_genuine {faults : SyncFaults ι β} (genuine : GenuineRow pki row)
    (readable : faults.rowCA row = false) :
    visit pki faults false visits row =
      { visits with verified := visits.verified ++ [row.pem] } := by
  obtain ⟨bound, small, members, signed⟩ := genuine
  have accepted : ¬ (maxClusterCRLBytes < pki.size row.pem ∨ row.id ≠ pki.rowID row.pem) :=
    not_or.mpr ⟨Nat.not_lt.mpr small, not_not.mpr bound⟩
  have verified := verifyCRLs_eq_ok.mpr ⟨readable, signed⟩
  simp [visit, accepted, verified]

theorem visit_other (faults : SyncFaults ι β) (known : Bool) (visits : Visits ι β)
    (other : ¬ GenuineRow pki row) :
    (visit pki faults known visits row).verified = visits.verified ∧
      ((visit pki faults known visits row).invalid = visits.invalid ∨
        row.id = pki.rowID row.pem ∧ pki.size row.pem ≤ maxClusterCRLBytes ∧
          (visit pki faults known visits row).invalid = row.id :: visits.invalid) := by
  unfold visit
  split
  · exact ⟨rfl, .inl rfl⟩
  rename_i accepted
  obtain ⟨small, bound⟩ := not_or.mp accepted
  split
  · exact ⟨rfl, .inl rfl⟩
  split
  · rename_i members verified
    exact absurd ⟨not_not.mp bound, Nat.not_lt.mp small, members,
      (verifyCRLs_eq_ok.mp verified).2⟩ other
  · split
    · exact ⟨rfl, .inl rfl⟩
    · exact ⟨rfl, .inr ⟨not_not.mp bound, Nat.not_lt.mp small, rfl⟩⟩

omit [DecidableEq ι] in
theorem CleanCache.list {invalid : List ι} (clean : CleanCache pki invalid)
    (bound : row.id = pki.rowID row.pem) (small : pki.size row.pem ≤ maxClusterCRLBytes)
    (other : ¬ GenuineRow pki row) : CleanCache pki (row.id :: invalid) := by
  intro genuine signed listed
  rcases mem_cons.mp listed with same | earlier
  · have texts : genuine.pem = row.pem := by
      refine pki.rowID_injective ?_
      rw [← signed.1, ← bound, same]
    obtain ⟨members, all⟩ := signed.2.2
    exact other ⟨bound, small, members, texts ▸ all⟩
  · exact clean genuine signed earlier

/-- What the visits of some rows leave: a clean cache and the genuine texts among them. -/
structure Found (pki : Pki β ρ δ ι) (seen : List (Row ι β)) (visits : Visits ι β) : Prop where
  clean : CleanCache pki visits.invalid
  verified : ∀ text, text ∈ visits.verified ↔
    ∃ row ∈ seen, row.pem = text ∧ GenuineRow pki row

variable {seen : List (Row ι β)}

theorem Found.visit (found : Found pki seen visits) (faults : SyncFaults ι β) (known : Bool)
    (met : GenuineRow pki row → known = false ∧ faults.rowCA row = false) :
    Found pki (seen ++ [row]) (Crl.visit pki faults known visits row) := by
  by_cases genuine : GenuineRow pki row
  · obtain ⟨rfl, readable⟩ := met genuine
    rw [visit_genuine genuine readable]
    refine ⟨found.clean, fun text => ?_⟩
    simp only [mem_append, mem_singleton, found.verified, or_and_right, exists_or]
    refine or_congr_right ⟨?_, ?_⟩
    · rintro rfl
      exact ⟨row, rfl, rfl, genuine⟩
    · rintro ⟨_, rfl, rfl, _⟩
      rfl
  · obtain ⟨verified, listed⟩ := visit_other faults known visits genuine
    constructor
    · rcases listed with same | ⟨bound, small, longer⟩
      · rw [same]
        exact found.clean
      · rw [longer]
        exact found.clean.list bound small genuine
    · intro text
      rw [verified, found.verified]
      simp only [mem_append, mem_singleton, or_and_right, exists_or]
      refine ⟨.inl, ?_⟩
      rintro (earlier | ⟨_, rfl, _, signed⟩)
      · exact earlier
      · exact absurd signed genuine

theorem Found.page (found : Found pki seen visits) (faults : SyncFaults ι β)
    {page : List (Row ι β)}
    (readable : ∀ row ∈ page, GenuineRow pki row → faults.rowCA row = false) :
    Found pki (seen ++ page) (visitPage pki faults visits page) := by
  -- the ids listed as invalid are those of the time of the query, for the whole page
  have listed : ∀ row, GenuineRow pki row → decide (row.id ∈ visits.invalid) = false :=
    fun row genuine => decide_eq_false (found.clean row genuine)
  have folded : ∀ (seen : List (Row ι β)) (sofar : Visits ι β), Found pki seen sofar →
      Found pki (seen ++ page) (page.foldl
        (fun sofar row => Crl.visit pki faults (row.id ∈ visits.invalid) sofar row) sofar) := by
    induction page with
    | nil => simp
    | cons row rest ih =>
      intro seen sofar found
      have first := found.visit faults (row.id ∈ visits.invalid)
        fun genuine => ⟨listed row genuine, readable row mem_cons_self genuine⟩
      have later := ih (fun other held => readable other (mem_cons_of_mem _ held)) _ _ first
      simpa using later
  exact folded seen visits found

end Visit

section

variable {β ρ δ ι : Type} [LinearOrder β] [LinearOrder ι]

def Row.after (mark row : Row ι β) : Bool :=
  mark.id < row.id || (mark.id = row.id && mark.pem < row.pem)

theorem Row.after_asymm (a b : Row ι β) (after : a.after b = true) : b.after a = false := by
  simp only [Row.after, Bool.or_eq_true, Bool.and_eq_true, decide_eq_true_eq] at after
  simp only [Row.after, Bool.or_eq_false_iff, Bool.and_eq_false_iff, decide_eq_false_iff_not]
  rcases after with below | ⟨same, below⟩
  · exact ⟨lt_asymm below, .inl fun same => lt_irrefl _ (same ▸ below)⟩
  · exact ⟨fun above => lt_irrefl _ (same ▸ above), .inr (lt_asymm below)⟩

structure ClusterTable (ι β : Type) [LinearOrder β] [LinearOrder ι] where
  rows : List (Row ι β)
  sorted : rows.Pairwise fun a b => a.after b = true

variable (pki : Pki β ρ δ ι)

/-- The pages after the mark; the flag says that no query failed. -/
def forEachClusterCRL (faults : SyncFaults ι β) (rows : List (Row ι β)) :
    Nat → Nat → Option (Row ι β) → Visits ι β → Visits ι β × Bool
  | 0, _, _, visits => (visits, false)
  | fuel + 1, n, mark, visits =>
    if faults.page n then (visits, false)
    else
      let page := pageAfter Row.after clusterCRLPageSize rows mark
      let visits := visitPage pki faults visits page
      if page.length < clusterCRLPageSize then (visits, true)
      else forEachClusterCRL faults rows fuel (n + 1) page.getLast? visits

/-- The rows the query can return: it leaves out texts with too many characters. -/
def ClusterTable.bounded (table : ClusterTable ι β) : List (Row ι β) :=
  table.rows.filter fun row => pki.chars row.pem ≤ maxClusterCRLBytes

def ClusterTable.visits (table : ClusterTable ι β) (faults : SyncFaults ι β)
    (invalid : List ι) : Visits ι β × Bool :=
  let rows := table.bounded pki
  forEachClusterCRL pki faults rows (rows.length + 1) 0 none ⟨invalid, []⟩

inductive SyncError where
  | init
  | read
  | install (err : InstallError)
  deriving DecidableEq

/-- What a node keeps: the file and the ids it lists as invalid. -/
structure Store (ι β : Type) where
  file : Option (File β)
  invalid : List ι

def syncClusterCRL [LinearOrder δ] (store : Store ι β) (table : ClusterTable ι β)
    (faults : SyncFaults ι β) (mtime : Nat) : Store ι β × Except SyncError Int64 :=
  if faults.init then (store, .error .init)
  else
    let visited := table.visits pki faults store.invalid
    let store := { store with invalid := visited.1.invalid }
    if !visited.2 then (store, .error .read)
    else if visited.1.verified.isEmpty then (store, .ok 0)
    else
      let installed := installCRLs pki store.file visited.1.verified faults.install mtime
      ({ store with file := installed.1 },
        match installed.2 with
        | .error err => .error (.install err)
        | .ok (version, true) => .ok version
        | .ok (_, false) => .ok 0)

variable {pki}

/-- The CA certificate can be read whenever a genuine row of the table is verified. -/
def VerifiesRows (pki : Pki β ρ δ ι) (table : ClusterTable ι β) (faults : SyncFaults ι β) :
    Prop :=
  ∀ row ∈ table.rows, GenuineRow pki row → faults.rowCA row = false

variable {faults : SyncFaults ι β}

/-- The visits end with some of the rows seen: all of them unless a query fails. -/
theorem forEachClusterCRL_spec {rows : List (Row ι β)}
    (sorted : rows.Pairwise fun a b => a.after b = true)
    (readable : ∀ row ∈ rows, GenuineRow pki row → faults.rowCA row = false)
    (fuel n : Nat) {seen unseen : List (Row ι β)} (split : rows = seen ++ unseen)
    {visits : Visits ι β} (found : Found pki seen visits) :
    ∃ all, (∀ row ∈ all, row ∈ rows) ∧
      Found pki all (forEachClusterCRL pki faults rows fuel n seen.getLast? visits).1 ∧
      ((forEachClusterCRL pki faults rows fuel n seen.getLast? visits).2 = true → all = rows) ∧
      ((∀ n, faults.page n = false) → unseen.length < fuel →
        (forEachClusterCRL pki faults rows fuel n seen.getLast? visits).2 = true) := by
  have kept : ∀ row ∈ seen, row ∈ rows := fun row held => split ▸ mem_append_left _ held
  induction fuel generalizing n seen unseen visits with
  | zero => exact ⟨seen, kept, found, nofun, fun _ short => absurd short (Nat.not_lt_zero _)⟩
  | succ fuel ih =>
    have page : pageAfter Row.after clusterCRLPageSize rows seen.getLast? =
        unseen.take clusterCRLPageSize := by
      unfold pageAfter
      rw [split, rowsAfter_seen Row.after_asymm (split ▸ sorted)]
    unfold forEachClusterCRL
    rw [page]
    split
    · rename_i failed
      exact ⟨seen, kept, found, nofun, fun calm _ => absurd failed (by simp [calm n])⟩
    have more : Found pki (seen ++ unseen.take clusterCRLPageSize)
        (visitPage pki faults visits (unseen.take clusterCRLPageSize)) :=
      found.page faults fun row held =>
        readable row (split ▸ mem_append_right _ (mem_of_mem_take held))
    simp only
    split
    · rename_i short
      have whole : unseen.take clusterCRLPageSize = unseen := by
        refine take_of_length_le ?_
        rw [length_take] at short
        omega
      rw [whole] at more ⊢
      rw [← split] at more
      exact ⟨rows, fun _ held => held, more, fun _ => rfl, fun _ _ => rfl⟩
    rename_i full
    rw [length_take] at full
    have nonempty : unseen.take clusterCRLPageSize ≠ [] := by
      intro empty
      have length := congrArg List.length empty
      rw [length_take] at length
      simp only [length_nil] at length
      unfold clusterCRLPageSize at full length
      omega
    have mark : (seen ++ unseen.take clusterCRLPageSize).getLast? =
        (unseen.take clusterCRLPageSize).getLast? := by
      rw [getLast?_append]
      cases last : (unseen.take clusterCRLPageSize).getLast? with
      | none => exact absurd (getLast?_eq_none_iff.mp last) nonempty
      | some row => rfl
    have rest : rows = (seen ++ unseen.take clusterCRLPageSize) ++
        unseen.drop clusterCRLPageSize := by
      rw [append_assoc, take_append_drop]
      exact split
    have next := ih (n + 1) rest more
      fun row held => rest ▸ mem_append_left _ held
    rw [mark] at next
    obtain ⟨all, within, left, done, ends⟩ := next
    refine ⟨all, within, left, done, fun calm enough => ends calm ?_⟩
    rw [length_drop]
    unfold clusterCRLPageSize at full ⊢
    omega

variable {table : ClusterTable ι β}

theorem mem_bounded {row : Row ι β} (genuine : GenuineRow pki row) :
    row ∈ table.bounded pki ↔ row ∈ table.rows := by
  have short : pki.chars row.pem ≤ maxClusterCRLBytes :=
    Nat.le_trans (pki.chars_le row.pem) genuine.2.1
  simp [ClusterTable.bounded, short]

/-- The visits of a table whose genuine rows can be verified. -/
theorem visits_spec {invalid : List ι}
    (clean : CleanCache pki invalid) (verifies : VerifiesRows pki table faults) :
    CleanCache pki (table.visits pki faults invalid).1.invalid ∧
      (∀ text ∈ (table.visits pki faults invalid).1.verified,
        ∃ row ∈ table.rows, row.pem = text ∧ GenuineRow pki row) ∧
      ((table.visits pki faults invalid).2 = true → ∀ row ∈ table.rows, GenuineRow pki row →
        row.pem ∈ (table.visits pki faults invalid).1.verified) ∧
      ((∀ n, faults.page n = false) → (table.visits pki faults invalid).2 = true) := by
  have sorted : (table.bounded pki).Pairwise fun a b => a.after b = true :=
    table.sorted.sublist filter_sublist
  have start : Found pki [] (⟨invalid, []⟩ : Visits ι β) := ⟨clean, by simp⟩
  obtain ⟨all, within, found, done, ends⟩ := forEachClusterCRL_spec sorted
    (fun row held genuine => verifies row ((mem_bounded genuine).mp held) genuine)
    ((table.bounded pki).length + 1) 0 (nil_append _).symm start
  refine ⟨found.clean, fun text held => ?_, fun whole row held genuine => ?_,
    fun calm => ends calm (Nat.lt_succ_self _)⟩
  · obtain ⟨row, seen, same, genuine⟩ := (found.verified text).mp held
    exact ⟨row, (mem_bounded genuine).mp (within row seen), same, genuine⟩
  · refine (found.verified row.pem).mpr ⟨row, ?_, rfl, genuine⟩
    rw [done whole]
    exact (mem_bounded genuine).mpr held

section Sync

variable [LinearOrder δ] {store : Store ι β} {table : ClusterTable ι β}
  {faults : SyncFaults ι β} {mtime : Nat}

def Published (pki : Pki β ρ δ ι) (table : ClusterTable ι β) (serial : Int) : Prop :=
  ∃ row ∈ table.rows, GenuineRow pki row ∧ Revokes pki row.pem serial

variable (pki store table faults mtime) in
/-- A run stops at its visits and leaves the file, or installs what they verified. -/
theorem syncClusterCRL_cases :
    (syncClusterCRL pki store table faults mtime).1 = store ∧ faults.init = true ∨
    (syncClusterCRL pki store table faults mtime).1.invalid =
        (table.visits pki faults store.invalid).1.invalid ∧
      ((syncClusterCRL pki store table faults mtime).1.file = store.file ∧
          ((table.visits pki faults store.invalid).2 = false ∨
            (table.visits pki faults store.invalid).1.verified = []) ∨
        (table.visits pki faults store.invalid).1.verified ≠ [] ∧
        (syncClusterCRL pki store table faults mtime).1.file =
          (installCRLs pki store.file (table.visits pki faults store.invalid).1.verified
            faults.install mtime).1) := by
  unfold syncClusterCRL
  split
  · exact .inl ⟨rfl, by assumption⟩
  refine .inr ?_
  simp only
  split
  · rename_i failed
    exact ⟨rfl, .inl ⟨rfl, .inl (by simpa using failed)⟩⟩
  split
  · rename_i none
    exact ⟨rfl, .inl ⟨rfl, .inr (isEmpty_iff.mp none)⟩⟩
  · rename_i some
    exact ⟨rfl, .inr ⟨fun none => some (isEmpty_iff.mpr none), rfl⟩⟩

variable {serial : Int}

theorem syncClusterCRL_keeps (keeps : KeepsLocal store.file faults.install)
    (enforced : Enforced pki store.file serial) :
    Enforced pki (syncClusterCRL pki store table faults mtime).1.file serial := by
  rcases syncClusterCRL_cases pki store table faults mtime with
    ⟨same, _⟩ | ⟨_, ⟨same, _⟩ | ⟨_, installed⟩⟩
  · rw [same]
    exact enforced
  · rw [same]
    exact enforced
  · rw [installed]
    exact installCRLs_keeps keeps enforced

theorem syncClusterCRL_adds (clean : CleanCache pki store.invalid)
    (verifies : VerifiesRows pki table faults)
    (enforced : Enforced pki (syncClusterCRL pki store table faults mtime).1.file serial) :
    Enforced pki store.file serial ∨ Published pki table serial := by
  rcases syncClusterCRL_cases pki store table faults mtime with
    ⟨same, _⟩ | ⟨_, ⟨same, _⟩ | ⟨_, installed⟩⟩
  · rw [same] at enforced
    exact .inl enforced
  · rw [same] at enforced
    exact .inl enforced
  · rw [installed] at enforced
    refine (installCRLs_adds enforced).imp_right ?_
    rintro ⟨text, taken, revokes⟩
    obtain ⟨row, held, rfl, genuine⟩ := (visits_spec clean verifies).2.1 text taken
    exact ⟨row, held, genuine, revokes⟩

structure SyncFaults.Calm (faults : SyncFaults ι β) : Prop where
  init : faults.init = false
  page : ∀ n, faults.page n = false
  rowCA : ∀ row, faults.rowCA row = false
  note : ∀ row, faults.note row = false
  install : faults.install.Calm

theorem syncClusterCRL_calm (clean : CleanCache pki store.invalid) (calm : faults.Calm)
    (serial : Int) :
    Enforced pki (syncClusterCRL pki store table faults mtime).1.file serial ↔
      Enforced pki store.file serial ∨ Published pki table serial := by
  have verifies : VerifiesRows pki table faults := fun row _ _ => calm.rowCA row
  refine ⟨syncClusterCRL_adds clean verifies, ?_⟩
  obtain ⟨_, sound, complete, ends⟩ := visits_spec clean verifies
  have all := complete (ends calm.page)
  rintro (enforced | ⟨row, held, genuine, revokes⟩)
  · exact syncClusterCRL_keeps (calm.install.keepsLocal _) enforced
  have verified := all row held genuine
  rcases syncClusterCRL_cases pki store table faults mtime with
    ⟨_, failed⟩ | ⟨_, ⟨_, failed | none⟩ | ⟨some, installed⟩⟩
  · rw [calm.init] at failed
    cases failed
  · rw [ends calm.page] at failed
    cases failed
  · rw [none] at verified
    cases verified
  · obtain ⟨result, succeeded⟩ := installCRLs_calm store.file mtime calm.install some
      fun text taken => by
        obtain ⟨source, _, rfl, signed⟩ := sound text taken
        exact signed.2.2
    rw [installed]
    exact (installCRLs_ok (calm.install.keepsLocal _) succeeded serial).mpr
      (.inr ⟨row.pem, verified, revokes⟩)

end Sync

end

end Litevirt.Crl

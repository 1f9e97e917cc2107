import Litevirt.Crl.Cluster
import Litevirt.Lib.Transition

/-!
# The handshake checker

`crlChecker` of `internal/pki/crl_checker.go`, which reloads the file when its modification time
changes.  A revocation that was published or enforced stays enforced in runs in which the CA
certificate can be read for every genuine row, no installation loses sight of the file, every
write gets a new modification time and no load of the checker fails.
-/

namespace Litevirt.Crl

open Litevirt.Lib Option

/-- What the checker holds of the file it saw last. -/
structure Checker where
  mtime : Nat
  loaded : Bool
  revoked : Option (List Int)
  deriving DecidableEq

def Checker.new : Checker := ⟨0, false, none⟩

section

variable {β ρ δ ι : Type} (pki : Pki β ρ δ ι)

/-- The serials of a bundle; one member with a bad signature and none is enforced. -/
def loadBundle (text : β) : Option (List Int) :=
  (parseCRLs pki text).bind fun members =>
    if members.all fun member => pki.signed member.block then some (serialsOf members) else none

/-- `statFails` hides the file; a load that fails leaves the checker with nothing, and with
the modification time of the file it could not read. -/
def Checker.refresh (file : Option (File β)) (statFails readFails : Bool) (checker : Checker) :
    Checker :=
  match if statFails then none else file with
  | none => .new
  | some held =>
    if checker.loaded && checker.mtime = held.mtime then checker
    else ⟨held.mtime, true, if readFails then none else loadBundle pki held.body⟩

structure Node (ι β : Type) where
  store : Store ι β
  checker : Checker

/-- What a handshake would answer now: `isRevoked`, when its accesses succeed. -/
def enforces (node : Node ι β) (serial : Int) : Bool :=
  (node.checker.refresh pki node.store.file false false).revoked.any (serial ∈ ·)

variable {pki}

theorem loadBundle_eq {text : β} {serial : Int} :
    (loadBundle pki text).any (serial ∈ ·) = true ↔ Revokes pki text serial := by
  unfold loadBundle Revokes Genuine
  cases parseCRLs pki text with
  | none => simp
  | some members =>
    by_cases signed : (members.all fun member => pki.signed member.block) = true
    · have all : ∀ member ∈ members, pki.signed member.block = true :=
        List.all_eq_true.mp signed
      simp only [bind_some, signed, ↓reduceIte, any_some, decide_eq_true_eq,
        Option.some.injEq]
      exact ⟨fun revoked => ⟨members, ⟨rfl, all⟩, revoked⟩, fun ⟨_, ⟨same, _⟩, revoked⟩ =>
        same ▸ revoked⟩
    · simp only [bind_some, signed, Bool.false_eq_true, ↓reduceIte, any_none,
        Option.some.injEq, false_iff, not_exists, not_and, and_imp]
      rintro others rfl all
      exact absurd (List.all_eq_true.mpr all) signed

/-- The checker holds the file's serials whenever it takes the file for the one it loaded. -/
def InSync (pki : Pki β ρ δ ι) (node : Node ι β) : Prop :=
  ∀ held, node.store.file = some held → node.checker.loaded = true →
    node.checker.mtime = held.mtime → node.checker.revoked = loadBundle pki held.body

variable {node : Node ι β}

theorem enforces_iff (inSync : InSync pki node) {serial : Int} :
    enforces pki node serial = true ↔ Enforced pki node.store.file serial := by
  unfold enforces Checker.refresh
  cases present : node.store.file with
  | none =>
    simp only [Bool.false_eq_true, ↓reduceIte, Checker.new, any_none, false_iff]
    rintro ⟨_, absent, _⟩
    cases absent
  | some held =>
    simp only [Bool.false_eq_true, ↓reduceIte, enforced_some]
    split
    · rename_i same
      obtain ⟨loaded, mtime⟩ := Bool.and_eq_true_iff.mp same
      rw [inSync held present loaded (of_decide_eq_true mtime)]
      exact loadBundle_eq
    · exact loadBundle_eq

/-- The file would not be taken for the one the checker loaded. -/
def Node.Fresh (node : Node ι β) (mtime : Nat) : Prop :=
  node.checker.loaded = true → node.checker.mtime ≠ mtime

/-- The file stays as it was or is written with the modification time. -/
def Rewritten (old new : Option (File β)) (mtime : Nat) : Prop :=
  new = old ∨ ∃ held, new = some held ∧ held.mtime = mtime

/-- What every state of a run under the condition below has. -/
structure Sound (pki : Pki β ρ δ ι) (node : Node ι β) : Prop where
  clean : CleanCache pki node.store.invalid
  inSync : InSync pki node

theorem Sound.write (sound : Sound pki node) {store : Store ι β} {mtime : Nat}
    (fresh : node.Fresh mtime) (clean : CleanCache pki store.invalid)
    (written : Rewritten node.store.file store.file mtime) :
    Sound pki { node with store := store } := by
  refine ⟨clean, fun held present loaded seen => ?_⟩
  rcases written with same | ⟨new, there, stamped⟩
  · exact sound.inSync held (same ▸ present) loaded seen
  · have equal : new = held := Option.some.inj (there.symm.trans present)
    exact absurd (seen.trans (equal ▸ stamped)) (fresh loaded)

theorem Sound.refresh (sound : Sound pki node) (statFails : Bool) :
    Sound pki { node with
      checker := node.checker.refresh pki node.store.file statFails false } := by
  refine ⟨sound.clean, fun held present => ?_⟩
  unfold Checker.refresh
  rw [present]
  cases statFails with
  | true => exact fun loaded => nomatch loaded
  | false =>
    simp only [Bool.false_eq_true, ↓reduceIte]
    split
    · exact fun loaded seen => sound.inSync held present loaded seen
    · exact fun _ _ => rfl

theorem generateCRL_rewritten (file : Option (File β)) (serials : List SerialText)
    (faults : MintFaults) (now : Int64) (nonce mtime : Nat) :
    Rewritten file (generateCRL pki file serials faults now nonce mtime).1 mtime := by
  rcases generateCRL_cases pki file serials faults now nonce mtime with
    same | ⟨_, _, _, _, _, written⟩
  · exact .inl same
  · exact .inr ⟨_, written, rfl⟩

theorem appendToCRL_spec (file : Option (File β)) (serial : SerialText) (loadFails : Bool)
    (faults : MintFaults) (now : Int64) (nonce mtime : Nat) :
    Rewritten file (appendToCRL pki file serial loadFails faults now nonce mtime).1 mtime ∧
      ∀ revoked, Enforced pki file revoked →
        Enforced pki (appendToCRL pki file serial loadFails faults now nonce mtime).1 revoked := by
  unfold appendToCRL
  split
  · exact ⟨.inl rfl, fun _ enforced => enforced⟩
  split
  · exact ⟨.inl rfl, fun _ enforced => enforced⟩
  · exact ⟨generateCRL_rewritten file _ faults now nonce mtime,
      fun _ enforced => generateCRL_keeps enforced⟩

/-- A node that has just started: its checker has loaded nothing and nothing is listed as
invalid.  The file may hold anything. -/
structure Started (node : Node ι β) : Prop where
  idle : node.checker.loaded = false
  unlisted : node.store.invalid = []

theorem Started.sound (started : Started node) : Sound pki node :=
  ⟨fun _ _ => by simp [started.unlisted], fun _ _ loaded => by
    rw [started.idle] at loaded
    cases loaded⟩

end

section

variable {β ρ δ ι : Type} [LinearOrder β] [LinearOrder δ] [LinearOrder ι]

inductive Event (ι β : Type) [LinearOrder β] [LinearOrder ι] where
  | sync (table : ClusterTable ι β) (faults : SyncFaults ι β) (mtime : Nat)
  | install (candidates : List β) (faults : InstallFaults) (mtime : Nat)
  | generate (serials : List SerialText) (faults : MintFaults) (now : Int64) (nonce mtime : Nat)
  | append (serial : SerialText) (loadFails : Bool) (faults : MintFaults) (now : Int64)
      (nonce mtime : Nat)
  | handshake (statFails readFails : Bool)

def Node.setFile (node : Node ι β) (file : Option (File β)) : Node ι β :=
  { node with store := { node.store with file := file } }

def step (pki : Pki β ρ δ ι) (node : Node ι β) : Event ι β → Option (Node ι β)
  | .sync table faults mtime =>
    some { node with store := (syncClusterCRL pki node.store table faults mtime).1 }
  | .install candidates faults mtime =>
    some (node.setFile (installCRLs pki node.store.file candidates faults mtime).1)
  | .generate serials faults now nonce mtime =>
    some (node.setFile (generateCRL pki node.store.file serials faults now nonce mtime).1)
  | .append serial loadFails faults now nonce mtime => some (node.setFile
      (appendToCRL pki node.store.file serial loadFails faults now nonce mtime).1)
  | .handshake statFails readFails => some { node with
      checker := node.checker.refresh pki node.store.file statFails readFails }

/-- The condition on a step: the CA certificate is read for every genuine row, the file is
read and verified when there is one, a write gets a modification time the checker has not
seen, and the checker's load succeeds. -/
def Untroubled (pki : Pki β ρ δ ι) (node : Node ι β) : Event ι β → Prop
  | .sync table faults mtime => VerifiesRows pki table faults ∧
      KeepsLocal node.store.file faults.install ∧ node.Fresh mtime
  | .install _ faults mtime => KeepsLocal node.store.file faults ∧ node.Fresh mtime
  | .generate _ _ _ _ mtime => node.Fresh mtime
  | .append _ _ _ _ _ mtime => node.Fresh mtime
  | .handshake _ readFails => readFails = false

omit [LinearOrder ι] in
theorem installCRLs_rewritten {pki : Pki β ρ δ ι} (file : Option (File β))
    (candidates : List β) (faults : InstallFaults) (mtime : Nat) :
    Rewritten file (installCRLs pki file candidates faults mtime).1 mtime := by
  rcases installCRLs_cases pki file candidates faults mtime with
    ⟨_, failed⟩ | ⟨_, held, _, _, _, _, same | stamped, written⟩
  · rw [failed]
    exact .inl rfl
  · rw [written]
    exact .inl same.symm
  · rw [written]
    exact .inr ⟨held, rfl, stamped⟩

variable {pki : Pki β ρ δ ι}

variable {node next : Node ι β} {event : Event ι β}

theorem Sound.step (untroubled : Untroubled pki node event)
    (stepped : Crl.step pki node event = some next) (sound : Sound pki node) : Sound pki next := by
  cases event with
  | sync table faults mtime =>
    cases stepped
    obtain ⟨verifies, _, fresh⟩ := untroubled
    have outcome := syncClusterCRL_cases pki node.store table faults mtime
    refine sound.write fresh ?_ ?_
    · rcases outcome with ⟨same, _⟩ | ⟨listed, _⟩
      · rw [same]
        exact sound.clean
      · rw [listed]
        exact (visits_spec sound.clean verifies).1
    · rcases outcome with ⟨same, _⟩ | ⟨_, ⟨same, _⟩ | ⟨_, installed⟩⟩
      · rw [same]
        exact .inl rfl
      · exact .inl same
      · rw [installed]
        exact installCRLs_rewritten _ _ _ _
  | install candidates faults mtime =>
    cases stepped
    exact sound.write untroubled.2 sound.clean (installCRLs_rewritten _ _ _ _)
  | generate serials faults now nonce mtime =>
    cases stepped
    exact sound.write untroubled sound.clean (generateCRL_rewritten _ _ _ _ _ _)
  | append serial loadFails faults now nonce mtime =>
    cases stepped
    exact sound.write untroubled sound.clean (appendToCRL_spec _ _ _ _ _ _ _).1
  | handshake statFails readFails =>
    cases stepped
    cases untroubled
    exact sound.refresh statFails

theorem enforced_step (untroubled : Untroubled pki node event)
    (stepped : step pki node event = some next) {serial : Int}
    (enforced : Enforced pki node.store.file serial) : Enforced pki next.store.file serial := by
  cases event with
  | sync table faults mtime =>
    cases stepped
    exact syncClusterCRL_keeps untroubled.2.1 enforced
  | install candidates faults mtime =>
    cases stepped
    exact installCRLs_keeps untroubled.1 enforced
  | generate serials faults now nonce mtime =>
    cases stepped
    exact generateCRL_keeps enforced
  | append serial loadFails faults now nonce mtime =>
    cases stepped
    exact (appendToCRL_spec _ _ _ _ _ _ _).2 _ enforced
  | handshake statFails readFails =>
    cases stepped
    exact enforced

/-- The serials that a step brings: those of the genuine rows it synchronizes and of the genuine
lists it installs, and those it is to mint. -/
def Brings (pki : Pki β ρ δ ι) : Event ι β → Int → Prop
  | .sync table _ _, serial => Published pki table serial
  | .install candidates _ _, serial => ∃ text ∈ candidates, Revokes pki text serial
  | .generate serials _ _ _ _, serial => ∃ text ∈ serials, text.value = some serial
  | .append text _ _ _ _ _, serial => text.value = some serial
  | .handshake _ _, _ => False

theorem brings_of_enforced (untroubled : Untroubled pki node event)
    (stepped : step pki node event = some next) (sound : Sound pki node) {serial : Int}
    (enforced : Enforced pki next.store.file serial) :
    Enforced pki node.store.file serial ∨ Brings pki event serial := by
  cases event with
  | sync table faults mtime =>
    cases stepped
    exact syncClusterCRL_adds sound.clean untroubled.1 enforced
  | install candidates faults mtime =>
    cases stepped
    exact installCRLs_adds enforced
  | generate serials faults now nonce mtime =>
    cases stepped
    exact generateCRL_adds enforced
  | append text loadFails faults now nonce mtime =>
    cases stepped
    exact appendToCRL_adds enforced
  | handshake statFails readFails =>
    cases stepped
    exact .inl enforced

/-- `after` is reached by steps under the condition and then a synchronization with the
table that meets no failure and gets a fresh modification time. -/
def Synced (pki : Pki β ρ δ ι) (ok : Node ι β → Event ι β → Prop) (first : Node ι β)
    (table : ClusterTable ι β) (after : Node ι β) : Prop :=
  ∃ node faults mtime, Run (step pki) ok first node ∧ faults.Calm ∧ node.Fresh mtime ∧
    step pki node (.sync table faults mtime) = some after

def OnlySyncs (table : ClusterTable ι β) : Event ι β → Prop
  | .sync rows _ _ => ∀ row ∈ rows.rows, row ∈ table.rows
  | .handshake _ _ => True
  | _ => False

variable {table : ClusterTable ι β}

theorem synced_sound {ok : Node ι β → Event ι β → Prop}
    (untroubled : ∀ node event, ok node event → Untroubled pki node event) {first after : Node ι β}
    (sound : Sound pki first) (synced : Synced pki ok first table after) :
    ∃ node, Run (step pki) ok first node ∧ Sound pki node ∧ Sound pki after ∧
      ∀ serial, enforces pki after serial = true ↔
        Enforced pki node.store.file serial ∨ Published pki table serial := by
  obtain ⟨node, faults, mtime, run, calm, fresh, stepped⟩ := synced
  have reached := run.invariant (Sound pki) sound
    fun _ _ _ permitted taken held => held.step (untroubled _ _ permitted) taken
  have last : Untroubled pki node (.sync table faults mtime) :=
    ⟨fun row _ _ => calm.rowCA row, calm.install.keepsLocal _, fresh⟩
  have ended := reached.step last stepped
  refine ⟨node, run, reached, ended, fun serial => ?_⟩
  rw [enforces_iff ended.inSync]
  cases stepped
  exact syncClusterCRL_calm reached.clean calm serial

/-- What is enforced was in the first file or came with a step. -/
theorem synced_allowed {start after : Node ι β} (started : Started start) {allowed : Int → Prop}
    (first : ∀ serial, Enforced pki start.store.file serial → allowed serial)
    (published : ∀ serial, Published pki table serial → allowed serial)
    (synced : Synced pki (fun node event => Untroubled pki node event ∧
      ∀ serial, Brings pki event serial → allowed serial) start table after)
    {serial : Int} (enforced : enforces pki after serial = true) : allowed serial := by
  obtain ⟨node, run, _, _, answers⟩ := synced_sound (fun _ _ met => met.1) started.sound synced
  have within := run.invariant
    (fun node => Sound pki node ∧ ∀ serial, Enforced pki node.store.file serial → allowed serial)
    ⟨started.sound, first⟩ fun node event next permitted taken held =>
      ⟨held.1.step permitted.1 taken, fun serial enforced =>
        (brings_of_enforced permitted.1 taken held.1 enforced).elim (held.2 serial)
          (permitted.2 serial)⟩
  exact ((answers serial).mp enforced).elim (within.2 serial) (published serial)

/-- Synchronizations with rows of the table enforce them and nothing beyond. -/
theorem synced_published {start after : Node ι β} (started : Started start)
    (none : start.store.file = none)
    (synced : Synced pki (fun node event => Untroubled pki node event ∧ OnlySyncs table event)
      start table after)
    {serial : Int} : enforces pki after serial = true ↔ Published pki table serial := by
  constructor
  · obtain ⟨node, faults, mtime, run, rest⟩ := synced
    have listed : Run (step pki) (fun node event => Untroubled pki node event ∧
        ∀ serial, Brings pki event serial → Published pki table serial) start node := by
      refine run.mono fun _ event met => ⟨met.1, fun serial brought => ?_⟩
      cases event with
      | sync rows faults mtime =>
        obtain ⟨row, held, genuine⟩ := brought
        exact ⟨row, met.2 row held, genuine⟩
      | handshake statFails readFails => exact brought.elim
      | install | generate | append => exact met.2.elim
    refine synced_allowed started ?_ (fun _ published => published)
      ⟨node, faults, mtime, listed, rest⟩
    rintro serial ⟨_, present, _⟩
    rw [none] at present
    cases present
  · obtain ⟨node, _, _, _, answers⟩ := synced_sound (fun _ _ met => met.1) started.sound synced
    exact fun published => (answers serial).mpr (.inr published)

/-- In every run whose steps all meet the condition: after a synchronization that meets no
failure the handshake enforces every serial of a genuine row and every serial that was
enforced at any time before; what it enforces was in the first file, in a genuine row or an
installed genuine list, or was minted; and two nodes that only synchronized the same rows, from
no local list, enforce the same serials. -/
theorem revocations_enforced (pki : Pki β ρ δ ι) :
    (∀ (start mid after : Node ι β) (table : ClusterTable ι β), Started start →
      Run (step pki) (Untroubled pki) start mid → Synced pki (Untroubled pki) mid table after →
      (∀ serial, Published pki table serial → enforces pki after serial = true) ∧
      ∀ serial, enforces pki mid serial = true → enforces pki after serial = true) ∧
    (∀ (start after : Node ι β) (table : ClusterTable ι β) (allowed : Int → Prop), Started start →
      (∀ serial, Enforced pki start.store.file serial → allowed serial) →
      (∀ serial, Published pki table serial → allowed serial) →
      Synced pki (fun node event => Untroubled pki node event ∧
        ∀ serial, Brings pki event serial → allowed serial) start table after →
      ∀ serial, enforces pki after serial = true → allowed serial) ∧
    ∀ (start other after otherAfter : Node ι β) (table : ClusterTable ι β),
      Started start → Started other → start.store.file = none → other.store.file = none →
      Synced pki (fun node event => Untroubled pki node event ∧ OnlySyncs table event)
        start table after →
      Synced pki (fun node event => Untroubled pki node event ∧ OnlySyncs table event)
        other table otherAfter →
      ∀ serial, enforces pki after serial = enforces pki otherAfter serial := by
  refine ⟨?_, fun start after table allowed started first published synced serial =>
    synced_allowed started first published synced, ?_⟩
  · intro start mid after table started run synced
    have reached := run.invariant (Sound pki) started.sound
      fun _ _ _ permitted taken held => held.step permitted taken
    obtain ⟨node, later, _, ended, answers⟩ := synced_sound (fun _ _ met => met) reached synced
    refine ⟨fun serial published => (answers serial).mpr (.inr published),
      fun serial enforced => (answers serial).mpr (.inl ?_)⟩
    exact later.invariant (fun node => Enforced pki node.store.file serial)
      ((enforces_iff reached.inSync).mp enforced)
      fun _ _ _ permitted taken held => enforced_step permitted taken held
  · intro start other after otherAfter table started otherStarted none otherNone synced otherSynced
      serial
    rw [Bool.eq_iff_iff, synced_published started none synced,
      synced_published otherStarted otherNone otherSynced]

end

/-- Blocks that spell out who signed them, the number, a nonce and the serials. -/
def plainPki : Pki (List (List Int)) (List Int) (List Int) (List (List Int)) where
  decode := some
  encode := id
  decode_encode := fun _ => rfl
  parse
    | _ :: number :: _ :: serials => some ⟨some number, serials⟩
    | _ => none
  signed
    | 1 :: _ => true
    | _ => false
  numbered := by
    intro block list _ parsed
    split at parsed
    · cases parsed
      rfl
    · cases parsed
  mint := fun number serials nonce => 1 :: number :: nonce :: serials
  parse_mint := fun _ _ _ => rfl
  signed_mint := fun _ _ _ => rfl
  sha256 := id
  sha256_injective := Function.injective_id
  rowID := id
  rowID_injective := Function.injective_id
  size := List.length
  chars := List.length
  chars_le := fun _ => Nat.le_refl _

def oneRow : ClusterTable (List (List Int)) (List (List Int)) where
  rows := [⟨[[1, 5, 0, 7]], [[1, 5, 0, 7]]⟩]
  sorted := List.pairwise_singleton _ _

def calmInstall : InstallFaults := ⟨false, false, fun _ => false, false, false⟩

/-- The accesses of a synchronization, of which those of the CA certificate may fail. -/
def reading (caFails : Bool) : SyncFaults (List (List Int)) (List (List Int)) :=
  ⟨false, fun _ => false, fun _ => caFails, fun _ => false, calmInstall⟩

theorem reading_calm : (reading false).Calm :=
  ⟨rfl, fun _ => rfl, fun _ => rfl, fun _ => rfl, rfl, rfl, fun _ => rfl, rfl, rfl⟩

def revokesSeven : Parsed plainPki := ⟨[1, 5, 0, 7], ⟨some 5, [7]⟩, rfl⟩

theorem genuine_revokesSeven : Genuine [[1, 5, 0, 7]] [revokesSeven] := by
  refine ⟨rfl, fun member held => ?_⟩
  rw [List.mem_singleton.mp held]
  rfl

theorem oneRow_published : Published plainPki oneRow 7 :=
  ⟨_, List.mem_singleton_self _, ⟨rfl, by decide, _, genuine_revokesSeven⟩, _,
    genuine_revokesSeven, by simp [mem_serialsOf, revokesSeven]⟩

def newNode : Node (List (List Int)) (List (List Int)) := ⟨⟨none, []⟩, .new⟩

theorem published_oneRow {serial : Int} (published : Published plainPki oneRow serial) :
    serial = 7 := by
  obtain ⟨row, held, -, revokes⟩ := published
  rw [List.mem_singleton.mp held, revokes_iff genuine_revokesSeven] at revokes
  simpa [mem_serialsOf, revokesSeven] using revokes

/-- A serial that was minted locally and the published one are both enforced, and no other. -/
theorem revocations_enforced_after_append : ∃ mid after,
    Run (step plainPki) (Untroubled plainPki) newNode mid ∧
      Synced plainPki (Untroubled plainPki) mid oneRow after ∧
      enforces plainPki mid 3 = true ∧ enforces plainPki after 3 = true ∧
      enforces plainPki after 7 = true ∧
      ∀ serial, enforces plainPki after serial = true → serial = 3 ∨ serial = 7 := by
  let minting : Event (List (List Int)) (List (List Int)) :=
    .append ⟨some 3, true⟩ false ⟨false, false, false, false⟩ 4 0 1
  obtain ⟨mid, appended⟩ : ∃ mid, step plainPki newNode minting = some mid := ⟨_, rfl⟩
  have untroubled : Untroubled plainPki newNode minting := nofun
  obtain ⟨fresh, enforced⟩ : mid.Fresh 2 ∧ enforces plainPki mid 3 = true := by
    cases appended
    exact ⟨(nomatch ·), by decide +kernel⟩
  have synced : Synced plainPki (Untroubled plainPki) mid oneRow _ :=
    ⟨mid, reading false, 2, .refl _, reading_calm, fresh, rfl⟩
  have run := Run.tail (.refl newNode) untroubled appended
  obtain ⟨⟨published, kept⟩, only⟩ := And.intro
    ((revocations_enforced plainPki).1 newNode mid _ oneRow ⟨rfl, rfl⟩ run synced)
    ((revocations_enforced plainPki).2.1 newNode _ oneRow (fun serial => serial = 3 ∨ serial = 7)
      ⟨rfl, rfl⟩ nofun (fun _ published => .inr (published_oneRow published))
      ⟨mid, reading false, 2, .tail (.refl _) ⟨untroubled, fun _ minted =>
        .inl (Option.some.inj minted).symm⟩ appended, reading_calm, fresh, rfl⟩)
  exact ⟨mid, _, run, synced, enforced, kept 3 enforced, published 7 oneRow_published, only⟩

/-- The CA certificate cannot be read during one synchronization; the genuine row is listed
as invalid, and the next one, which meets no failure, passes it over. -/
theorem published_revocation_lost : ∃ node after,
    Run (step plainPki) (fun _ _ => True) newNode node ∧
      step plainPki node (.sync oneRow (reading false) 2) = some after ∧
      (reading false).Calm ∧ node.Fresh 2 ∧ Published plainPki oneRow 7 ∧
      enforces plainPki after 7 = false := by
  have failed : Run (step plainPki) (fun _ _ => True) newNode _ := .tail (.refl _) trivial
    (show step plainPki newNode (.sync oneRow (reading true) 1) = some _ from rfl)
  exact ⟨_, _, failed, rfl, reading_calm, (nomatch ·), oneRow_published, by decide +kernel⟩

end Litevirt.Crl

import Litevirt.Lib.Outcome
import Litevirt.Lib.Table

/-!
# The enforced bundle of revocation lists

`InstallCRLs`, `GenerateCRL` and `AppendToCRL` of `internal/pki/crl.go`.  The file of the
handshake checker is a bundle of lists signed by the cluster CA, and the union of their serials
is enforced. A member that another one covers is left out, and no serial goes with it.
-/

namespace Litevirt.Crl

open Litevirt.Lib List

structure RevocationList where
  number : Option Int
  serials : List Int
  deriving DecidableEq

/-- The encodings, the signature of the cluster CA and the digests, as the libraries give
them: PEM text `β`, DER bytes `ρ`, digests `δ` and row ids `ι`. -/
structure Pki (β ρ δ ι : Type) where
  /-- The blocks of a text that holds nothing but revocation-list blocks. -/
  decode : β → Option (List ρ)
  encode : List ρ → β
  decode_encode : ∀ blocks, decode (encode blocks) = some blocks
  parse : ρ → Option RevocationList
  /-- The signature verifies against the cluster CA. -/
  signed : ρ → Bool
  numbered : ∀ block list, signed block = true → parse block = some list → list.number.isSome
  mint : Int → List Int → Nat → ρ
  parse_mint : ∀ number serials nonce, parse (mint number serials nonce) = some ⟨number, serials⟩
  signed_mint : ∀ number serials nonce, signed (mint number serials nonce) = true
  sha256 : ρ → δ
  sha256_injective : Function.Injective sha256
  rowID : β → ι
  rowID_injective : Function.Injective rowID
  /-- The length in bytes, and in characters as the database counts it. -/
  size : β → Nat
  chars : β → Nat
  chars_le : ∀ text, chars text ≤ size text

section

variable {β ρ δ ι : Type} (pki : Pki β ρ δ ι)

structure Parsed where
  block : ρ
  list : RevocationList
  parsed : pki.parse block = some list

variable {pki}

theorem Parsed.eq_of_block {a b : Parsed pki} (same : a.block = b.block) : a = b := by
  obtain ⟨_, other, reparsed⟩ := b
  subst same
  rw [parsed] at reparsed
  cases reparsed
  rfl

variable (pki)

def parseBlock (block : ρ) : Option (Parsed pki) :=
  match parsed : pki.parse block with
  | none => none
  | some list => some ⟨block, list, parsed⟩

def parseBlocks : List ρ → Option (List (Parsed pki))
  | [] => some []
  | block :: rest => (parseBlock pki block).bind fun first =>
    (parseBlocks rest).map (first :: ·)

def parseCRLs (text : β) : Option (List (Parsed pki)) :=
  match pki.decode text with
  | none => none
  | some blocks => if blocks.isEmpty then none else parseBlocks pki blocks

variable {pki}

theorem parseBlock_block {pki : Pki β ρ δ ι} (member : Parsed pki) :
    parseBlock pki member.block = some member := by
  unfold parseBlock
  split
  · rename_i absent
    rw [member.parsed] at absent
    cases absent
  · exact congrArg some (Parsed.eq_of_block rfl)

theorem parseBlocks_blocks {pki : Pki β ρ δ ι} (members : List (Parsed pki)) :
    parseBlocks pki (members.map Parsed.block) = some members := by
  induction members with
  | nil => rfl
  | cons member rest ih => simp [parseBlocks, parseBlock_block, ih]

variable {members : List (Parsed pki)}

theorem parseCRLs_encode (held : members ≠ []) :
    parseCRLs pki (pki.encode (members.map Parsed.block)) = some members := by
  have nonempty : (members.map Parsed.block).isEmpty = false := by
    cases members with
    | nil => exact absurd rfl held
    | cons member rest => rfl
  simp [parseCRLs, pki.decode_encode, nonempty, parseBlocks_blocks]

/-! ## Verification -/

inductive VerifyError where
  | parse
  | loadCA
  | signature
  | noNumber
  deriving DecidableEq

variable (pki) in
/-- `caFails` says that the CA certificate cannot be read; it is read after the parse. -/
def verifyCRLs (caFails : Bool) (text : β) : Except VerifyError (List (Parsed pki)) :=
  match parseCRLs pki text with
  | none => .error .parse
  | some members =>
    if caFails then .error .loadCA
    else
      match members.find? fun member =>
          !pki.signed member.block || member.list.number.isNone with
      | some member => .error (if pki.signed member.block then .noNumber else .signature)
      | none => .ok members

/-- A text the cluster CA signed all of. -/
def Genuine (text : β) (members : List (Parsed pki)) : Prop :=
  parseCRLs pki text = some members ∧ ∀ member ∈ members, pki.signed member.block = true

variable {text : β}

theorem verifyCRLs_eq_ok {caFails : Bool} :
    verifyCRLs pki caFails text = .ok members ↔ caFails = false ∧ Genuine text members := by
  unfold verifyCRLs Genuine
  cases parsed : parseCRLs pki text with
  | none => simp
  | some found =>
    cases caFails with
    | true => simp
    | false =>
      simp only [Bool.false_eq_true, ↓reduceIte, true_and, Option.some.injEq]
      constructor
      · intro verified
        split at verified
        · cases verified
        rename_i none
        cases verified
        refine ⟨rfl, fun member held => ?_⟩
        have passed := find?_eq_none.mp none member held
        simp only [Bool.or_eq_true, Bool.not_eq_true', not_or, Bool.not_eq_false] at passed
        exact passed.1
      · rintro ⟨rfl, signed⟩
        have none : (found.find? fun member =>
            !pki.signed member.block || member.list.number.isNone) = none := by
          refine find?_eq_none.mpr fun member held => ?_
          have number := pki.numbered _ _ (signed member held) member.parsed
          simp [signed member held, Option.isSome_iff_ne_none.mp number]
        rw [none]

theorem parseBlocks_length {blocks : List ρ}
    (parsed : parseBlocks pki blocks = some members) : members.length = blocks.length := by
  induction blocks generalizing members with
  | nil =>
    cases parsed
    rfl
  | cons block rest ih =>
    obtain ⟨first, _, later⟩ := Option.bind_eq_some_iff.mp parsed
    obtain ⟨others, remaining, rfl⟩ := Option.map_eq_some_iff.mp later
    simp [ih remaining]

theorem Genuine.nonempty (genuine : Genuine text members) :
    members ≠ [] := by
  obtain ⟨parsed, _⟩ := genuine
  unfold parseCRLs at parsed
  split at parsed
  · cases parsed
  split at parsed
  · cases parsed
  · rename_i blocks _ held
    rintro rfl
    have length := parseBlocks_length parsed
    exact held (isEmpty_iff_length_eq_zero.mpr length.symm)

theorem Genuine.unique {others : List (Parsed pki)} (first : Genuine text members)
    (second : Genuine text others) : members = others :=
  Option.some.inj (first.1.symm.trans second.1)

/-! ## Installing a bundle -/

def serialsOf (members : List (Parsed pki)) : List Int :=
  (members.flatMap fun member => member.list.serials).dedup

variable {serial : Int}

theorem mem_serialsOf :
    serial ∈ serialsOf members ↔ ∃ member ∈ members, serial ∈ member.list.serials := by
  simp [serialsOf]

namespace Parsed

/-- The number as the machine integer the members are ordered by. -/
def number (member : Parsed pki) : Int64 := Int64.ofInt (member.list.number.getD 0)

def serials (member : Parsed pki) : List Int := member.list.serials.dedup

variable [LinearOrder δ]

/-- `other` revokes all that `member` does, and more of it or a newer list. -/
def coveredBy (member other : Parsed pki) : Bool :=
  pki.sha256 member.block ≠ pki.sha256 other.block &&
    member.serials.length ≤ other.serials.length &&
    member.serials.all (fun serial => serial ∈ other.serials) &&
    (member.serials.length < other.serials.length ||
      member.number < other.number ||
      (member.number = other.number && pki.sha256 member.block < pki.sha256 other.block))

/-- The order of the members in the file. -/
def sortsBefore (member other : Parsed pki) : Prop :=
  if member.number = other.number then pki.sha256 member.block ≤ pki.sha256 other.block
  else member.number < other.number

instance : DecidableRel (@sortsBefore β ρ δ ι pki _) := fun _ _ => by
  unfold sortsBefore
  infer_instance

end Parsed

def byHash [DecidableEq δ] (lists : List (Parsed pki)) : Table δ (Parsed pki) :=
  lists.foldl (fun members list => members.put (pki.sha256 list.block) list) Table.empty

def prune [LinearOrder δ] (members : List (Parsed pki)) : List (Parsed pki) :=
  members.filter fun member => !members.any member.coveredBy

def bundleMembers [LinearOrder δ] (lists : List (Parsed pki)) : List (Parsed pki) :=
  (prune ((byHash lists).rows.map Prod.snd)).insertionSort Parsed.sortsBefore

structure File (β : Type) where
  body : β
  mtime : Nat
  deriving DecidableEq

/-- Which accesses of a run of `InstallCRLs` fail: the two reads of the file, the reads of
the CA certificate for it and for each text in turn, and the write. -/
structure InstallFaults where
  read : Bool
  readCA : Bool
  bodyCA : Nat → Bool
  reread : Bool
  write : Bool

inductive InstallError where
  | verify (err : VerifyError)
  | noCRL
  | write
  deriving DecidableEq

variable (pki) in
/-- The lists of all texts; the first text that does not verify ends the run. -/
def gather (caFails : Nat → Bool) : Nat → List β → Except VerifyError (List (Parsed pki))
  | _, [] => .ok []
  | n, body :: rest => do
      let members ← verifyCRLs pki (caFails n) body
      let others ← gather caFails (n + 1) rest
      .ok (members ++ others)

variable (pki) in
/-- The file takes part only when it can be read and verifies. -/
def localBundle (file : Option (File β)) (faults : InstallFaults) : Option β :=
  file.bind fun held =>
    if faults.read then none
    else (verifyCRLs pki faults.readCA held.body).toOption.map fun _ => held.body

def highestNumber (members : List (Parsed pki)) : Int64 :=
  members.foldl (fun highest member => if highest < member.number then member.number
    else highest) 0

variable (pki) in
def installCRLs [LinearOrder δ] [DecidableEq β] (file : Option (File β))
    (candidates : List β) (faults : InstallFaults) (mtime : Nat) :
    Option (File β) × Except InstallError (Int64 × Bool) :=
  match gather pki faults.bodyCA 0 (candidates ++ (localBundle pki file faults).toList) with
  | .error err => (file, .error (.verify err))
  | .ok lists =>
    let members := bundleMembers lists
    let bundle := pki.encode (members.map Parsed.block)
    if lists.isEmpty then (file, .error .noCRL)
    else if !faults.reread && file.any (fun held => held.body = bundle) then
      (file, .ok (highestNumber members, false))
    else if faults.write then (file, .error .write)
    else (some ⟨bundle, mtime⟩, .ok (highestNumber members, true))

/-! ## No serial is lost on the way into the file -/

section Pruning

variable [LinearOrder δ]

theorem find_byHash (lists : List (Parsed pki)) (member : Parsed pki) :
    (byHash lists).find (pki.sha256 member.block) = some member ↔ member ∈ lists := by
  have folded : ∀ table : Table δ (Parsed pki),
      (lists.foldl (fun members list => members.put (pki.sha256 list.block) list) table).find
          (pki.sha256 member.block) = some member ↔
        table.find (pki.sha256 member.block) = some member ∨ member ∈ lists := by
    induction lists with
    | nil => simp
    | cons list rest ih =>
      intro table
      rw [foldl_cons, ih, Table.find_put]
      split
      · rename_i same
        have equal : member = list := Parsed.eq_of_block (pki.sha256_injective same)
        simp [equal]
      · rename_i different
        have other : member ≠ list := fun equal => different (by rw [equal])
        simp [other]
  simpa [byHash] using folded Table.empty

variable {lists : List (Parsed pki)} {member : Parsed pki}

theorem find_byHash_key {digest : δ}
    (found : (byHash lists).find digest = some member) : digest = pki.sha256 member.block := by
  have folded : ∀ table : Table δ (Parsed pki),
      (∀ key value, table.find key = some value → key = pki.sha256 value.block) →
      ∀ key value, (lists.foldl
        (fun members list => members.put (pki.sha256 list.block) list) table).find key =
          some value → key = pki.sha256 value.block := by
    clear found
    induction lists with
    | nil => exact fun _ keyed => keyed
    | cons list rest ih =>
      intro table keyed
      refine ih _ fun key value present => ?_
      rw [Table.find_put] at present
      split at present
      · rename_i same
        cases present
        exact same
      · exact keyed key value present
  exact folded Table.empty (fun _ _ absent => nomatch absent) digest member found

theorem mem_byHash :
    member ∈ (byHash lists).rows.map Prod.snd ↔ member ∈ lists := by
  rw [mem_map]
  constructor
  · rintro ⟨⟨digest, found⟩, held, rfl⟩
    have present := Table.mem_rows_iff.mp held
    rw [find_byHash_key present] at present
    exact (find_byHash lists found).mp present
  · exact fun held => ⟨_, Table.mem_rows_iff.mpr ((find_byHash lists member).mpr held), rfl⟩

/-- What the members are compared by when one covers another. -/
def Parsed.key (member : Parsed pki) : ℕ ×ₗ Int ×ₗ δ :=
  toLex (member.serials.length, toLex (member.number.toInt, pki.sha256 member.block))

theorem Parsed.coveredBy_spec {other : Parsed pki} (covered : member.coveredBy other) :
    member.key < other.key ∧ ∀ serial ∈ member.serials, serial ∈ other.serials := by
  simp only [Parsed.coveredBy, Bool.and_eq_true, Bool.or_eq_true, decide_eq_true_eq,
    all_eq_true] at covered
  obtain ⟨⟨⟨_, fewer⟩, subset⟩, newer⟩ := covered
  refine ⟨?_, subset⟩
  simp only [Parsed.key, Prod.Lex.toLex_lt_toLex]
  rcases newer with (smaller | lower) | ⟨same, hashed⟩
  · exact .inl smaller
  · exact fewer.lt_or_eq.imp_right fun equal => ⟨equal, .inl (Int64.lt_iff_toInt_lt.mp lower)⟩
  · exact fewer.lt_or_eq.imp_right fun equal =>
      ⟨equal, .inr ⟨congrArg Int64.toInt same, hashed⟩⟩

theorem exists_kept {members : List (Parsed pki)} (held : member ∈ members) :
    ∃ kept ∈ prune members, ∀ serial ∈ member.serials, serial ∈ kept.serials := by
  let above := members.filter fun other => member.serials.all (· ∈ other.serials)
  have itself : member ∈ above := mem_filter.mpr ⟨held, by simp⟩
  -- the greatest of those that revoke all of the member's serials is covered by nobody
  cases greatest : above.argmax Parsed.key with
  | none =>
    rw [argmax_eq_none.mp greatest] at itself
    cases itself
  | some kept =>
    obtain ⟨present, subset⟩ := mem_filter.mp (argmax_mem greatest)
    have subset : ∀ serial ∈ member.serials, serial ∈ kept.serials := by simpa using subset
    refine ⟨kept, mem_filter.mpr ⟨present, ?_⟩, subset⟩
    rw [Bool.not_eq_true', any_eq_false]
    intro other heldOther covered
    obtain ⟨below, larger⟩ := Parsed.coveredBy_spec covered
    have among : other ∈ above := by
      refine mem_filter.mpr ⟨heldOther, ?_⟩
      simpa using fun serial revoked => larger serial (subset serial revoked)
    exact absurd (le_of_mem_argmax among greatest) (not_le.mpr below)

theorem mem_of_mem_bundleMembers (held : member ∈ bundleMembers lists) : member ∈ lists := by
  have pruned := (mem_insertionSort _).mp held
  exact mem_byHash.mp (mem_of_mem_filter pruned)

theorem mem_serialsOf_bundleMembers {serial : Int} :
    serial ∈ serialsOf (bundleMembers lists) ↔ serial ∈ serialsOf lists := by
  rw [mem_serialsOf, mem_serialsOf]
  constructor
  · rintro ⟨member, held, revoked⟩
    exact ⟨member, mem_of_mem_bundleMembers held, revoked⟩
  · rintro ⟨member, held, revoked⟩
    obtain ⟨kept, pruned, larger⟩ := exists_kept (mem_byHash.mpr held)
    refine ⟨kept, (mem_insertionSort _).mpr pruned, ?_⟩
    exact mem_dedup.mp (larger serial (mem_dedup.mpr revoked))

theorem bundleMembers_ne_nil (some : lists ≠ []) :
    bundleMembers lists ≠ [] := by
  obtain ⟨member, held⟩ := exists_mem_of_ne_nil lists some
  obtain ⟨kept, pruned, _⟩ := exists_kept (mem_byHash.mpr held)
  exact ne_nil_of_mem ((mem_insertionSort _).mpr pruned)

end Pruning

/-! ## What the file enforces -/

variable (pki) in
/-- A serial of a bundle the cluster CA signed all of. -/
def Revokes (text : β) (serial : Int) : Prop :=
  ∃ members : List (Parsed pki), Genuine text members ∧ serial ∈ serialsOf members

variable (pki) in
def Enforced (file : Option (File β)) (serial : Int) : Prop :=
  ∃ held, file = some held ∧ Revokes pki held.body serial

variable {held : File β}

theorem enforced_some :
    Enforced pki (some held) serial ↔ Revokes pki held.body serial :=
  ⟨fun ⟨_, present, revoked⟩ => by cases present; exact revoked,
    fun revoked => ⟨held, rfl, revoked⟩⟩

theorem revokes_iff (genuine : Genuine text members) :
    Revokes pki text serial ↔ serial ∈ serialsOf members := by
  constructor
  · rintro ⟨others, again, revoked⟩
    rw [genuine.unique again]
    exact revoked
  · exact fun revoked => ⟨members, genuine, revoked⟩

theorem revokes_encode (held : members ≠ [])
    (signed : ∀ member ∈ members, pki.signed member.block = true) :
    Revokes pki (pki.encode (members.map Parsed.block)) serial ↔ serial ∈ serialsOf members :=
  revokes_iff ⟨parseCRLs_encode held, signed⟩

variable {caFails : Nat → Bool} {bodies : List β} {lists : List (Parsed pki)} {n : Nat}

/-- The lists that are gathered are those of the texts, all of them genuine. -/
theorem gather_eq_ok (gathered : gather pki caFails n bodies = .ok lists) :
    (∀ member ∈ lists, pki.signed member.block = true) ∧
      ∀ serial, serial ∈ serialsOf lists ↔ ∃ body ∈ bodies, Revokes pki body serial := by
  induction bodies generalizing n lists with
  | nil =>
    cases gathered
    simp [mem_serialsOf]
  | cons body rest ih =>
    obtain ⟨members, verified, gathered⟩ := bind_eq_ok gathered
    obtain ⟨found, others, joined⟩ := bind_eq_ok gathered
    cases joined
    obtain ⟨_, genuine⟩ := verifyCRLs_eq_ok.mp verified
    obtain ⟨signed, revoked⟩ := ih others
    constructor
    · intro member held
      rcases mem_append.mp held with first | later
      · exact genuine.2 member first
      · exact signed member later
    · intro serial
      have split : serial ∈ serialsOf (members ++ found) ↔
          serial ∈ serialsOf members ∨ serial ∈ serialsOf found := by
        simp only [mem_serialsOf, mem_append, or_and_right, exists_or]
      rw [split, ← revokes_iff genuine, revoked]
      simp

/-- The bundle of the lists gathered enforces what the texts revoke. -/
theorem enforced_bundle [LinearOrder δ]
    (gathered : gather pki caFails n bodies = .ok lists) (nonempty : lists ≠ [])
    (body : held.body = pki.encode ((bundleMembers lists).map Parsed.block)) :
    Enforced pki (some held) serial ↔ ∃ body ∈ bodies, Revokes pki body serial := by
  obtain ⟨signed, revoked⟩ := gather_eq_ok gathered
  rw [enforced_some, body, revokes_encode (bundleMembers_ne_nil nonempty)
    fun member kept => signed member (mem_of_mem_bundleMembers kept),
    mem_serialsOf_bundleMembers, revoked]

theorem gather_isEmpty
    (gathered : gather pki caFails n bodies = .ok lists) {body : β} (held : body ∈ bodies) :
    lists.isEmpty = false := by
  cases bodies with
  | nil => cases held
  | cons first rest =>
    obtain ⟨members, verified, gathered⟩ := bind_eq_ok gathered
    obtain ⟨found, -, joined⟩ := bind_eq_ok gathered
    cases joined
    simp [(verifyCRLs_eq_ok.mp verified).2.nonempty]

theorem gather_of_genuine (readable : ∀ n, caFails n = false) (n : Nat)
    (genuine : ∀ body ∈ bodies, ∃ members : List (Parsed pki), Genuine body members) :
    ∃ lists, gather pki caFails n bodies = .ok lists := by
  induction bodies generalizing n with
  | nil => exact ⟨[], rfl⟩
  | cons body rest ih =>
    obtain ⟨members, signed⟩ := genuine body mem_cons_self
    obtain ⟨others, gathered⟩ := ih (n + 1) fun later held =>
      genuine later (mem_cons_of_mem _ held)
    have verified := verifyCRLs_eq_ok.mpr ⟨readable n, signed⟩
    simp [gather, verified, gathered, bind, Except.bind]

variable {faults : InstallFaults} {file : Option (File β)}

theorem mem_localBundle {body : β} (taken : body ∈ (localBundle pki file faults).toList) :
    ∃ held, file = some held ∧ held.body = body ∧
      ∃ members : List (Parsed pki), Genuine body members := by
  obtain ⟨held, present, kept⟩ := Option.bind_eq_some_iff.mp (Option.mem_toList.mp taken)
  split at kept
  · cases kept
  obtain ⟨members, verified, rfl⟩ := Option.map_eq_some_iff.mp kept
  cases outcome : verifyCRLs pki faults.readCA held.body with
  | error err =>
    rw [outcome] at verified
    cases verified
  | ok found => exact ⟨held, present, rfl, found, (verifyCRLs_eq_ok.mp outcome).2⟩

/-- The accesses to the file and to the CA certificate for it succeed. -/
def KeepsLocal (file : Option (File β)) (faults : InstallFaults) : Prop :=
  file.isSome → faults.read = false ∧ faults.readCA = false

theorem localBundle_revokes (keeps : KeepsLocal file faults) :
    (∃ body ∈ (localBundle pki file faults).toList, Revokes pki body serial) ↔
      Enforced pki file serial := by
  constructor
  · rintro ⟨body, taken, revoked⟩
    obtain ⟨held, present, rfl, _⟩ := mem_localBundle taken
    exact ⟨held, present, revoked⟩
  · rintro ⟨held, rfl, members, genuine, revoked⟩
    obtain ⟨read, readCA⟩ := keeps rfl
    have verified := verifyCRLs_eq_ok.mpr ⟨readCA, genuine⟩
    refine ⟨held.body, ?_, members, genuine, revoked⟩
    simp [localBundle, read, verified, Except.toOption]

structure InstallFaults.Calm (faults : InstallFaults) : Prop where
  read : faults.read = false
  readCA : faults.readCA = false
  bodyCA : ∀ n, faults.bodyCA n = false
  reread : faults.reread = false
  write : faults.write = false

theorem InstallFaults.Calm.keepsLocal (calm : faults.Calm) (file : Option (File β)) :
    KeepsLocal file faults := fun _ => ⟨calm.read, calm.readCA⟩

section Install

variable [LinearOrder δ] [DecidableEq β] {file : Option (File β)} {candidates : List β}
  {faults : InstallFaults} {mtime : Nat}

variable (pki file candidates faults mtime) in
/-- A run fails and leaves the file, or the file is the bundle of the lists gathered: as it
was, or written at `mtime`. -/
theorem installCRLs_cases :
    (∃ err, installCRLs pki file candidates faults mtime = (file, .error err)) ∨
      ∃ lists held result, gather pki faults.bodyCA 0
          (candidates ++ (localBundle pki file faults).toList) = .ok lists ∧ lists ≠ [] ∧
        held.body = pki.encode ((bundleMembers lists).map Parsed.block) ∧
        (file = some held ∨ held.mtime = mtime) ∧
        installCRLs pki file candidates faults mtime = (some held, .ok result) := by
  unfold installCRLs
  split
  · exact .inl ⟨_, rfl⟩
  rename_i lists gathered
  simp only
  split
  · exact .inl ⟨_, rfl⟩
  rename_i held
  have held : lists ≠ [] := fun empty => held (by rw [empty]; rfl)
  split
  · rename_i same
    cases file with
    | none => simp at same
    | some kept =>
      have same : kept.body = pki.encode ((bundleMembers lists).map Parsed.block) := by
        simpa using (Bool.and_eq_true_iff.mp same).2
      exact .inr ⟨lists, kept, _, gathered, held, same, .inl rfl, rfl⟩
  · split
    · exact .inl ⟨_, rfl⟩
    · exact .inr ⟨lists, _, _, gathered, held, rfl, .inr rfl, rfl⟩

/-- A run that succeeds enforces what the file enforced and what the candidates revoke. -/
theorem installCRLs_ok (keeps : KeepsLocal file faults) {result : Int64 × Bool}
    (installed : (installCRLs pki file candidates faults mtime).2 = .ok result) (serial : Int) :
    Enforced pki (installCRLs pki file candidates faults mtime).1 serial ↔
      Enforced pki file serial ∨ ∃ body ∈ candidates, Revokes pki body serial := by
  rcases installCRLs_cases pki file candidates faults mtime with
    ⟨err, failed⟩ | ⟨lists, held, done, gathered, nonempty, body, _, written⟩
  · rw [failed] at installed
    cases installed
  · rw [written, enforced_bundle gathered nonempty body, ← localBundle_revokes keeps]
    simp only [mem_append, or_and_right, exists_or]
    exact or_comm

theorem installCRLs_keeps (keeps : KeepsLocal file faults) {serial : Int}
    (enforced : Enforced pki file serial) :
    Enforced pki (installCRLs pki file candidates faults mtime).1 serial := by
  cases outcome : (installCRLs pki file candidates faults mtime).2 with
  | ok result => exact (installCRLs_ok keeps outcome serial).mpr (.inl enforced)
  | error err =>
    rcases installCRLs_cases pki file candidates faults mtime with
      ⟨_, failed⟩ | ⟨_, _, _, _, _, _, _, written⟩
    · rw [failed]
      exact enforced
    · rw [written] at outcome
      cases outcome

theorem installCRLs_adds {serial : Int}
    (enforced : Enforced pki (installCRLs pki file candidates faults mtime).1 serial) :
    Enforced pki file serial ∨ ∃ body ∈ candidates, Revokes pki body serial := by
  rcases installCRLs_cases pki file candidates faults mtime with
    ⟨err, failed⟩ | ⟨lists, held, done, gathered, nonempty, body, _, written⟩
  · rw [failed] at enforced
    exact .inl enforced
  rw [written, enforced_bundle gathered nonempty body] at enforced
  obtain ⟨text, taken, revokes⟩ := enforced
  rcases mem_append.mp taken with candidate | ownText
  · exact .inr ⟨text, candidate, revokes⟩
  · obtain ⟨own, present, rfl, _⟩ := mem_localBundle ownText
    exact .inl ⟨own, present, revokes⟩

variable (file mtime) in
theorem installCRLs_calm (calm : faults.Calm) (some : candidates ≠ [])
    (genuine : ∀ body ∈ candidates, ∃ members : List (Parsed pki), Genuine body members) :
    ∃ result, (installCRLs pki file candidates faults mtime).2 = .ok result := by
  have all : ∀ body ∈ candidates ++ (localBundle pki file faults).toList,
      ∃ members : List (Parsed pki), Genuine body members := by
    intro body taken
    rcases mem_append.mp taken with candidate | own
    · exact genuine body candidate
    · obtain ⟨_, _, _, signed⟩ := mem_localBundle own
      exact signed
  obtain ⟨lists, gathered⟩ := gather_of_genuine calm.bodyCA 0 all
  have nonempty : lists.isEmpty = false := by
    obtain ⟨body, held⟩ := exists_mem_of_ne_nil candidates some
    exact gather_isEmpty gathered (mem_append_left _ held)
  unfold installCRLs
  simp only [gathered, nonempty, calm.write, Bool.false_eq_true, ↓reduceIte]
  split
  · exact ⟨_, rfl⟩
  · exact ⟨_, rfl⟩

end Install

end

end Litevirt.Crl

import Litevirt.Audit.Lifecycle
import Litevirt.Audit.Record
import Litevirt.Lib.Keyed
import Litevirt.Sync.Instant

/-!
# Verification of the audit log

`VerifyAuditChain` of `internal/corrosion/audit.go` with the chain heads of `audit_heads.go` and
the signing contracts of `audit_rotate.go`.  Rows are walked with a state for each host. What is
found is one list, of which the fields of `AuditVerifyResult` are parts.  Certificates and ECDSA
stand behind the checks of the keyring.
-/

namespace Litevirt.Audit

open Litevirt.Hlc Litevirt.Lib Litevirt.Sync

structure AuditChainHead where
  hostName : Bytes
  epoch : Int
  seq : Int
  headHash : Bytes
  keyID : Bytes
  signature : Bytes
  createdAt : Bytes
  deriving DecidableEq, Repr

/-- A row of `audit_signing_keys`. -/
structure SigningKey where
  host : Bytes
  keyID : Bytes
  createdAt : Bytes
  deriving DecidableEq, Repr

/-- What a loaded `AuditKeyring` answers; an error is its text. -/
structure Keyring where
  verifyRow : (hostName keyID contentHash : Bytes) → Int → (sigHex : Bytes) → Option Bytes
  verifyHead : AuditChainHead → Option Bytes
  keyBelongsToHost : (keyID host : Bytes) → Bool

/-- The tables that are read; of `audit_key_lifecycle` the records that verify. -/
structure AuditTables where
  log : List AuditRecord
  heads : List AuditChainHead
  signingKeys : List SigningKey
  lifecycle : List LifecycleRow

/-- What the verifier counts or reports, with the text that it reports. -/
inductive Finding where
  | broken (id : Bytes)
  | unsigned
  | notSigning (text : Bytes)
  | unsignedAfterSigned (text : Bytes)
  | neverAdopted (text : Bytes)
  | unverifiable
  | badSignature (text : Bytes)
  | unknownKeyID (text : Bytes)
  | seqGap (text : Bytes)
  | laundered (id : Bytes)
  | unattributed
  | retiredKeyUse (text : Bytes)
  | truncatedHost (text : Bytes)
  | headMismatch (text : Bytes)
  | ambiguous (text : Bytes)
  deriving DecidableEq, Repr

structure AuditVerifyResult where
  rowsChecked : Nat
  findings : List Finding

namespace AuditVerifyResult

/-- `BrokenAt`: an id is kept unless it is empty or one is kept already. -/
def brokenAt (res : AuditVerifyResult) : Bytes :=
  res.findings.foldl (fun kept finding =>
    match finding with
    | .broken id => if kept = [] then id else kept
    | _ => kept) []

def seqGaps (res : AuditVerifyResult) : List Bytes :=
  res.findings.filterMap fun
    | .seqGap text => some text
    | _ => none

def launderedRows (res : AuditVerifyResult) : List Bytes :=
  res.findings.filterMap fun
    | .laundered id => some id
    | _ => none

def ambiguousRows (res : AuditVerifyResult) : List Bytes :=
  res.findings.filterMap fun
    | .ambiguous text => some text
    | _ => none

/-- The findings that are evidence of interference, the broken links apart. -/
def isTamper : Finding → Bool
  | .badSignature _ | .unknownKeyID _ | .seqGap _ | .laundered _ | .truncatedHost _
  | .retiredKeyUse _ | .headMismatch _ | .unsignedAfterSigned _ => true
  | _ => false

def tampered (res : AuditVerifyResult) : Bool := res.brokenAt ≠ [] ∨ res.findings.any isTamper

def unverified (res : AuditVerifyResult) : Bool :=
  res.findings.any fun
    | .neverAdopted _ | .ambiguous _ => true
    | _ => false

end AuditVerifyResult

def decimal (n : Int) : Bytes := bytes (toString n)

/-- `strings.Contains`. -/
def containsText (text needle : Bytes) : Bool := needle <:+: text

def isUnknownKeyErr (text : Bytes) : Bool :=
  containsText text (bytes "no published certificate") ||
    containsText text (bytes "does not chain to the cluster CA") ||
    containsText text (bytes "actually has id") || containsText text (bytes "carries no key id") ||
    containsText text (bytes "not an ECDSA key")

/-- `auditKeyLifecycle`: without a keyring no record verifies. -/
def auditKeyLifecycle (keyring : Option Keyring) (rows : List LifecycleRow) :
    LifecycleKey → LifecycleEvent → Option Int :=
  match keyring with
  | none => fun _ _ => none
  | some _ => reduceLifecycle rows

/-- `adoptionSettleWindow`, in nanoseconds. -/
def adoptionSettleWindow : Int := 600000000000

/-- `signingContracts`: the sequence at which each host's contract starts, and the published
certificates that never recorded an adoption. -/
def signingContracts [GoLayout] (keyring : Option Keyring) (now : Int) (tables : AuditTables) :
    (Bytes → Option Int) × List SigningKey :=
  let lifecycle := auditKeyLifecycle keyring tables.lifecycle
  tables.signingKeys.foldl (fun (out, unadopted) key =>
    if ((keyring.map (·.keyBelongsToHost key.keyID key.host)).getD false) = false then
      (out, unadopted)
    else
      let events := lifecycle ⟨key.host, key.keyID⟩
      match events .retired, events .adopted with
      | some _, _ => (out, unadopted)
      | none, some start =>
        match out key.host with
        | some cur => (if start < cur then Function.update out key.host (some start) else out,
            unadopted)
        | none => (Function.update out key.host (some start), unadopted)
      | none, none =>
        match timeParse key.createdAt with
        | some published =>
          if adoptionSettleWindow ≤ now - published then (out, unadopted ++ [key])
          else (out, unadopted)
        | none => (out, unadopted)) (fun _ => none, [])

structure LegacyRun where
  ids : List Bytes
  broken : Bool
  resolved : Bool
  deriving DecidableEq, Repr

structure HostWalk where
  prev : Bytes
  seq : Option Int
  hashed : Bool
  legacy : Option LegacyRun
  unsigned : Option Nat
  lastUnsigned : Bool
  deriving DecidableEq, Repr

def HostWalk.start : HostWalk := ⟨[], none, false, none, none, false⟩

structure WalkContext where
  contracted : Bytes → Option Int
  retired : LifecycleKey → Option Int
  keyring : Option Keyring

def flagLegacy (host : Bytes) (run : LegacyRun) : List Finding :=
  run.ids.map fun id => .unsignedAfterSigned (host ++ bytes ": row " ++ id ++
    bytes (" carries no signature and no sequence, and does not link into the history before " ++
      "this host's signing contract"))

/-- A numbered row: it closes the region of rows without a number, and its sequence must follow
the last one. -/
def checkSeq (host id : Bytes) (w : HostWalk) (seq : Int) : HostWalk × List Finding :=
  if seq ≤ 0 then (w, [])
  else
    let closed : Option LegacyRun × List Finding :=
      match w.legacy with
      | some run =>
        if run.resolved then (some run, [])
        else (some ⟨run.ids, run.broken, true⟩, if run.broken then flagLegacy host run else [])
      | none => (none, [])
    let gaps : List Finding :=
      match w.seq with
      | some last =>
        if seq = last then
          [.seqGap (host ++ bytes ": row " ++ id ++ bytes " repeats seq " ++ decimal seq ++
            bytes " (duplicate: two rows claim the same position, a forked chain)")]
        else if seq ≠ last + 1 then
          [.seqGap (host ++ bytes ": row " ++ id ++ bytes " has seq " ++ decimal seq ++
            bytes " after " ++ decimal last)]
        else []
      | none => []
    ({ w with legacy := closed.1, seq := some seq }, closed.2 ++ gaps)

def checkUnsigned (contract : Option Int) (linked : Bool) (w : HostWalk) (r : AuditRecord) :
    HostWalk × List Finding :=
  match contract with
  | none => (w, [.unsigned])
  | some start =>
    if r.seq = 0 then
      let run := w.legacy.getD ⟨[], false, false⟩
      if run.resolved then
        ({ w with legacy := some run },
          [.unsigned, .unsignedAfterSigned (r.hostName ++ bytes ": row " ++ r.id ++
            bytes " carries no signature and no sequence")])
      else
        let longer : LegacyRun := ⟨run.ids ++ [r.id], run.broken || !linked, false⟩
        ({ w with legacy := some longer }, [.unsigned])
    else if start < r.seq then
      (w, [.unsigned, .unsignedAfterSigned (r.hostName ++ bytes ": row " ++ r.id ++
        bytes (" carries no signature, but this host has a published signing certificate " ++
          "and no retirement"))])
    else (w, [.unsigned])

def checkSigned (ctx : WalkContext) (r : AuditRecord) : List Finding :=
  (match ctx.retired ⟨r.hostName, r.keyID⟩ with
    | some boundary =>
      if boundary < r.seq then
        [.retiredKeyUse (r.hostName ++ bytes ": row " ++ r.id ++ bytes " has seq " ++
          decimal r.seq ++ bytes ", signed by key " ++ r.keyID ++
          bytes " which was retired at seq " ++ decimal boundary)]
      else []
    | none => []) ++
  match ctx.keyring with
  | none => [.unverifiable]
  | some keyring =>
    match keyring.verifyRow r.hostName r.keyID r.contentHash r.seq r.signature with
    | none => []
    | some text =>
      if isUnknownKeyErr text then [.unknownKeyID (r.id ++ bytes ": " ++ text)]
      else [.badSignature (r.id ++ bytes ": " ++ text)]

section Walk

variable [RowHash] (ctx : WalkContext)

/-- A row with a content hash, once it is known whether it links. -/
def checkLinked (linked : Bool) (w : HostWalk) (r : AuditRecord) : HostWalk × List Finding :=
  let marked : HostWalk := { w with
    legacy := w.legacy.map fun run => ⟨run.ids, run.broken || !linked, run.resolved⟩
    hashed := true, prev := r.contentHash }
  let numbered := checkSeq r.hostName r.id marked r.seq
  let counted : HostWalk := { numbered.1 with
    unsigned := some (numbered.1.unsigned.getD 0 + if r.signature = [] then 1 else 0)
    lastUnsigned := r.signature = [] }
  if r.signature = [] then
    let last := checkUnsigned (ctx.contracted r.hostName) linked counted r
    (last.1, numbered.2 ++ last.2)
  else (counted, numbered.2 ++ checkSigned ctx r)

def checkRow (w : HostWalk) (r : AuditRecord) : HostWalk × List Finding :=
  if r.hostName = [] then (w, [.unattributed])
  else if r.contentHash = [] then
    if w.hashed || (ctx.contracted r.hostName).isSome then (w, [.laundered r.id])
    else ({ w with prev := [] }, [])
  else
    let rec_ := { r with prevHash := w.prev }
    let linked := equalFold (hashAuditRow rec_) r.contentHash
    let checked := checkLinked ctx linked w r
    (checked.1,
      (if linked then [] else [.broken r.id]) ++
      (match auditRecordNULField rec_ with
        | some field => [.ambiguous (r.id ++ bytes ": " ++ r.hostName ++ bytes ": field " ++
            field ++ bytes (" contains a NUL byte, so its hash and signature do not determine " ++
              "its content — a different row would verify the same"))]
        | none => []) ++ checked.2)

/-- `ORDER BY host_name, seq, timestamp, id`. -/
def sortKey (r : AuditRecord) : List ℕ ×ₗ ℤ ×ₗ List ℕ ×ₗ List ℕ :=
  toLex (byteValues r.hostName, toLex (r.seq, toLex (byteValues r.timestamp, byteValues r.id)))

def NotAfter (a b : AuditRecord) : Prop := sortKey a ≤ sortKey b

instance : DecidableRel NotAfter := fun a b => inferInstanceAs (Decidable (sortKey a ≤ sortKey b))

def walkOrder (log : List AuditRecord) : List AuditRecord := log.insertionSort NotAfter

/-- The loop of `VerifyAuditChain`. -/
def walk (log : List AuditRecord) : (Bytes → HostWalk) × List Finding :=
  runKeyed (·.hostName) (checkRow ctx) (fun _ => .start) (walkOrder log)

def hostOrder (log : List AuditRecord) : List Bytes := ((walkOrder log).map (·.hostName)).eraseDups

/-- Regions that no numbered row closed. -/
def openRegions (states : Bytes → HostWalk) (hosts : List Bytes) : List Finding :=
  hosts.flatMap fun host =>
    match (states host).legacy with
    | some run => if !run.resolved && run.broken then flagLegacy host run else []
    | none => []

def notSigning (contracted : Bytes → Option Int) (unadopted : List SigningKey)
    (states : Bytes → HostWalk) (hosts : List Bytes) : List Finding :=
  hosts.flatMap fun host =>
    match (states host).unsigned with
    | some count =>
      if (contracted host).isSome || unadopted.any (·.host = host) ||
          !(states host).lastUnsigned then []
      else [.notSigning (host ++ bytes ": " ++ decimal count ++ bytes " unsigned rows")]
    | none => []

end Walk

/-- `headSettleWindow`, in nanoseconds. -/
def headSettleWindow : Int := 600000000000

def headHasSettled [GoLayout] (now : Int) (h : AuditChainHead) (haveKeyring : Bool) : Bool :=
  haveKeyring &&
    match timeParse h.createdAt with
    | some created => headSettleWindow ≤ now - created
    | none => true

def sortTexts (texts : List Bytes) : List Bytes :=
  texts.dedup.insertionSort fun a b => byteValues a ≤ byteValues b

/-- The head of a key at its highest sequence; the highest epoch decides a tie. -/
def latestHead (heads : List AuditChainHead) (host keyID : Bytes) : Option AuditChainHead :=
  let own := heads.filter fun h => h.hostName = host ∧ h.keyID = keyID
  match (own.map (·.seq)).max? with
  | none => none
  | some top => ((own.filter (·.seq = top)).insertionSort fun a b => a.epoch ≤ b.epoch).getLast?

def latestAuditHeadsByKey (heads : List AuditChainHead) (host : Bytes) : List AuditChainHead :=
  (sortTexts ((heads.filter (·.hostName = host)).map (·.keyID))).filterMap (latestHead heads host)

/-- `chainHashAt`, empty when there is no row. -/
def chainHashAt (log : List AuditRecord) (host : Bytes) (seq : Int) : Bytes :=
  ((log.find? fun r => r.hostName = host ∧ r.seq = seq).map (·.contentHash)).getD []

/-- One head: the sequence it attests, if it is given credit, and what it contradicts. -/
def checkHead [GoLayout] (ctx : WalkContext) (now : Int) (log : List AuditRecord) (observed : Int)
    (h : AuditChainHead) : Option Int × List Finding :=
  match ctx.keyring.bind (·.verifyHead h) with
  | some text =>
    (none, [.badSignature (bytes "chain head " ++ h.hostName ++ bytes "/" ++ decimal h.epoch ++
      bytes "/" ++ decimal h.seq ++ bytes ": " ++ text)])
  | none =>
    let credited : Option Int × List Finding :=
      (if headHasSettled now h ctx.keyring.isSome then some h.seq else none,
        let actual := chainHashAt log h.hostName h.seq
        if 0 < h.seq ∧ h.headHash ≠ [] ∧ h.seq ≤ observed ∧ actual ≠ [] ∧
            equalFold actual h.headHash = false then
          [.headMismatch (h.hostName ++ bytes ": signed head says the chain hashed to " ++
            h.headHash ++ bytes " at seq " ++ decimal h.seq ++ bytes ", but it hashes to " ++
            actual ++ bytes " — a row at or before that point was rewritten")]
        else [])
    match ctx.retired ⟨h.hostName, h.keyID⟩ with
    | some boundary =>
      if boundary < h.seq then
        (none, [.retiredKeyUse (h.hostName ++ bytes ": chain head at seq " ++ decimal h.seq ++
          bytes " is signed by key " ++ h.keyID ++ bytes ", which was retired at seq " ++
          decimal boundary ++
          bytes " — a rotated-out key cannot attest to the chain past its boundary")])
      else credited
    | none => credited

/-- The heads of a host, and the shortfall behind the highest sequence they attest. -/
def checkHeads [GoLayout] (ctx : WalkContext) (now : Int) (tables : AuditTables)
    (states : Bytes → HostWalk) (host : Bytes) : List Finding :=
  let observed := (states host).seq.getD 0
  let checked := (latestAuditHeadsByKey tables.heads host).map
    (checkHead ctx now tables.log observed)
  let attested := checked.foldl (fun top c => max top (c.1.getD 0)) 0
  checked.flatMap (·.2) ++
    if observed < attested then
      [.truncatedHost (host ++ bytes ": signed head attests seq " ++ decimal attested ++
        bytes " but the log ends at " ++ decimal observed ++ bytes " (" ++
        decimal (attested - observed) ++ bytes " rows missing)")]
    else []

/-- An anchor over rows without a number that none of them matches. -/
def missingAnchor [GoLayout] (ctx : WalkContext) (now : Int) (log : List AuditRecord)
    (h : AuditChainHead) : Bool :=
  (match ctx.keyring with
    | some keyring => (keyring.verifyHead h).isNone
    | none => false) &&
  (match ctx.retired ⟨h.hostName, h.keyID⟩ with
    | some boundary => h.seq ≤ boundary
    | none => true) &&
  headHasSettled now h true &&
  !log.any fun r =>
    r.hostName = h.hostName ∧ r.seq = 0 ∧ r.contentHash.map lowerByte = h.headHash.map lowerByte

/-- `verifyLegacyAnchors`: one finding for a host. -/
def verifyLegacyAnchors [GoLayout] (ctx : WalkContext) (now : Int) (tables : AuditTables) :
    List Finding :=
  let anchors := tables.heads.filter fun h => h.seq = 0 ∧ h.headHash ≠ []
  (sortTexts (anchors.map (·.hostName))).flatMap fun host =>
    let own := (anchors.filter (·.hostName = host)).insertionSort fun a b =>
      toLex (byteValues a.keyID, a.epoch) ≤ toLex (byteValues b.keyID, b.epoch)
    match own.find? (missingAnchor ctx now tables.log) with
    | some h => [.truncatedHost (host ++
        bytes ": signed anchor says its pre-sequence (seq 0) history reached a row hashing to " ++
        h.headHash ++ bytes (", but no such row exists — rows of that history were removed, or " ++
          "rewritten and re-hashed"))]
    | none => []

def verifyChainHeads [GoLayout] (ctx : WalkContext) (now : Int) (tables : AuditTables)
    (states : Bytes → HostWalk) : List Finding :=
  (sortTexts (tables.heads.map (·.hostName))).flatMap (checkHeads ctx now tables states) ++
    verifyLegacyAnchors ctx now tables

/-- What the walk consults is read before it. -/
def walkContext [GoLayout] (keyring : Option Keyring) (now : Int) (tables : AuditTables) :
    WalkContext where
  contracted := (signingContracts keyring now tables).1
  retired := retirementsFrom (auditKeyLifecycle keyring tables.lifecycle)
  keyring := keyring

def verifyAuditChain [GoLayout] [RowHash] (keyring : Option Keyring) (now : Int)
    (tables : AuditTables) : AuditVerifyResult :=
  let ctx := walkContext keyring now tables
  let unadopted := (signingContracts keyring now tables).2
  let walked := walk ctx tables.log
  let hosts := hostOrder tables.log
  { rowsChecked := tables.log.length
    findings :=
      (unadopted.map fun key => .neverAdopted (key.host ++
        bytes ": published signing certificate " ++ key.keyID ++ bytes " at " ++ key.createdAt ++
        bytes (" but never recorded an adoption — the host declares its rows are signed and " ++
          "cannot sign, so nothing it writes is tamper-evident (a key that cannot be read " ++
          "cannot sign the adoption either)"))) ++
      walked.2 ++ openRegions walked.1 hosts ++
      notSigning ctx.contracted unadopted walked.1 hosts ++
      verifyChainHeads ctx now tables walked.1 }

end Litevirt.Audit

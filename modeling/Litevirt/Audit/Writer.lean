import Litevirt.Audit.Verify

/-!
# The audit writer

`InsertAuditLog` of `internal/corrosion/audit.go`: a row is stamped, chained onto the tail of its
host, guarded against NULs, hashed, signed and inserted unless its id is there.  The random id,
the clock, the outcome of signing and of the statement, and whether the host's rows are held, are
inputs of the call.
-/

namespace Litevirt.Audit

open Litevirt.Hlc Litevirt.Lib Litevirt.Sync

/-- `maxClampSkew`, in nanoseconds. -/
def maxClampSkew : Int := 300000000000

def stampAfter [GoLayout] (now : Int) (ceiling : Bytes) : Bytes :=
  if ceiling = [] then formatTS now
  else
    match timeParse ceiling with
    | none => formatTS now
    | some prev =>
      if now + maxClampSkew < prev then formatTS now
      else if prev < now then formatTS now
      else formatTS (prev + 1)

def raisesStampCeiling [GoLayout] (stamp ceiling : Bytes) : Bool :=
  if ceiling = [] then true
  else
    match timeParse stamp, timeParse ceiling with
    | some new, some old => old < new
    | _, _ => byteValues ceiling < byteValues stamp

structure ChainTail where
  hash : Bytes
  seq : Int
  ts : Bytes
  known : Bool
  deriving DecidableEq, Repr

def ChainTail.zero : ChainTail := ⟨[], 0, [], false⟩

def hostRows (log : List AuditRecord) (host : Bytes) : List AuditRecord :=
  (log.filter (·.hostName = host)).insertionSort NotAfter

/-- `loadHostTail`: hash and stamp of the last row, and the highest sequence. -/
def loadHostTail (log : List AuditRecord) (host : Bytes) (tail : ChainTail) : ChainTail :=
  let found : ChainTail :=
    match (hostRows log host).getLast? with
    | some r => { tail with hash := r.contentHash, ts := r.timestamp }
    | none => tail
  { found with seq := ((log.filter (·.hostName = host)).map (·.seq)).max?.getD 0 }

structure AuditClient where
  log : List AuditRecord
  tails : Bytes → ChainTail

def AuditClient.start (log : List AuditRecord) : AuditClient := ⟨log, fun _ => .zero⟩

def AuditClient.setTail (c : AuditClient) (host : Bytes) (tail : ChainTail) : AuditClient :=
  { c with tails := Function.update c.tails host tail }

/-- The outcome of `SignRow`: no key, an error, or a signature with the id of the key. -/
inductive Signing where
  | none
  | fails (text : Bytes)
  | signs (signature keyID : Bytes)

/-- What `holdAuditLocked` did: nothing, reopen the chain after reading its tail again, or hold
the row. -/
inductive Hold where
  | inactive
  | reopened
  | held
  deriving DecidableEq

structure InsertCall where
  record : AuditRecord
  randomID : Bytes
  now : Int
  hold : Hold
  signing : Signing
  executes : Bool

inductive InsertError where
  | nul (id field : Bytes)
  | sign (id text : Bytes)
  | execute
  deriving DecidableEq

section Insert

variable [GoLayout] [RowHash]

/-- The row that is hashed and signed: stamped and linked to the tail. -/
def chainedRow (tail : ChainTail) (r : AuditRecord) (stampAt : Option Int) : AuditRecord :=
  { r with
    timestamp := match stampAt with
      | some now => stampAfter now tail.ts
      | none => r.timestamp
    prevHash := tail.hash
    seq := tail.seq + 1 }

def advanceTail (tail : ChainTail) (r : AuditRecord) (generated : Bool) : ChainTail :=
  ⟨r.contentHash, r.seq,
    if generated && raisesStampCeiling r.timestamp tail.ts then r.timestamp else tail.ts, true⟩

/-- `insertAuditLocked`; `stampAt` is the moment of a generated stamp. -/
def insertAuditLocked (c : AuditClient) (r : AuditRecord) (stampAt : Option Int)
    (signing : Signing) (executes : Bool) : AuditClient × Except InsertError Unit :=
  let host := r.hostName
  let tail :=
    if (c.tails host).known then c.tails host
    else { loadHostTail c.log host (c.tails host) with known := true }
  let c := c.setTail host tail
  match guardAuditNUL (chainedRow tail r stampAt) with
  | .error field => (c, .error (.nul r.id field))
  | .ok guarded =>
    let hashed := { guarded with contentHash := hashAuditRow guarded }
    match signing with
    | .fails text => (c, .error (.sign r.id text))
    | .none => insert c tail { hashed with signature := [], keyID := [] }
    | .signs signature keyID =>
      insert c tail { hashed with
        signature := signature, keyID := if signature = [] then [] else keyID }
where
  /-- `INSERT OR IGNORE`: the tail moves only when the row is new. -/
  insert (c : AuditClient) (tail : ChainTail) (row : AuditRecord) :
      AuditClient × Except InsertError Unit :=
    if executes = false then (c, .error .execute)
    else if c.log.any (·.id = row.id) then (c, .ok ())
    else
      ({ c with log := c.log ++ [row] }.setTail row.hostName (advanceTail tail row stampAt.isSome),
        .ok ())

/-- `openAuditChainLocked` once it opens: hash and sequence are read again, the stamp is raised. -/
def reopenTail (log : List AuditRecord) (host : Bytes) (tail : ChainTail) : ChainTail :=
  let fresh := loadHostTail log host .zero
  ⟨fresh.hash, fresh.seq, if raisesStampCeiling fresh.ts tail.ts then fresh.ts else tail.ts, true⟩

def insertAuditLog (c : AuditClient) (call : InsertCall) : AuditClient × Except InsertError Unit :=
  let r := if call.record.id = [] then { call.record with id := call.randomID } else call.record
  let stampAt := if r.timestamp = [] then some call.now else none
  match call.hold with
  | .held => (c, .ok ())
  | .inactive => insertAuditLocked c r stampAt call.signing call.executes
  | .reopened =>
    insertAuditLocked (c.setTail r.hostName (reopenTail c.log r.hostName (c.tails r.hostName))) r
      stampAt call.signing call.executes

end Insert

/-- What happens to a client: an insert, a restart, or a read that fills in the tail of a host. -/
inductive AuditEvent where
  | insert (call : InsertCall)
  | restart
  | loadTail (host : Bytes)

def auditStep [GoLayout] [RowHash] (c : AuditClient) : AuditEvent → AuditClient
  | .insert call => (insertAuditLog c call).1
  | .restart => .start c.log
  | .loadTail host =>
    if (c.tails host).known then c
    else c.setTail host { loadHostTail c.log host (c.tails host) with known := true }

def auditRun [GoLayout] [RowHash] (events : List AuditEvent) : AuditClient :=
  events.foldl auditStep (.start [])

end Litevirt.Audit

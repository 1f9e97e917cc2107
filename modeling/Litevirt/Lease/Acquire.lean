import Litevirt.Lib.Transition

/-!
# Acquiring a lease with a term

`AcquireLeaseWithTerm` of `internal/corrosion/leader_lease_hold.go`, for one lease key, one
holder and one client.  Any number of calls run at once; each reading of the clock, the lease
row, the term ledger or the in-memory record is a step, and so is each transaction.  Instants are
nanoseconds; the stored expiry is a second, as RFC 3339 writes it.
-/

namespace Litevirt.Lease

open Litevirt.Lib

/-- The second of an instant, as `Format(time.RFC3339)` writes it. -/
def second (instant : Int) : Int := instant / 1000000000

/-- A value of the lease row, with the instant it was written at. -/
structure LeaseRow where
  holder : String
  expires : Int
  written : Int
  deriving DecidableEq, Repr

structure TermRow where
  term : Nat
  holder : String
  live : Bool
  deriving DecidableEq, Repr

/-- The lease row as a call read it, with its place among the values the row has had. -/
structure Seen where
  index : Nat
  holder : String
  expires : Int
  deriving DecidableEq, Repr

/-- Where a call of `AcquireLeaseWithTerm` is, with the values it has read.  `cur` is the
instant that the attempt sampled. -/
inductive Point where
  | begin
  | sampled (cur : Int)
  | leaseRead (cur : Int) (row : Option Seen)
  /-- The gate was closed: `holdLeaseWithoutTerm`. -/
  | upserting (cur : Int)
  | upserted (wrote : Option Nat)
  | confirmed (wrote : Option Nat)
  | gateOpen (cur : Int) (row : Option Seen)
  | newestRead (cur : Int) (row : Option Seen) (term : Nat) (holder : String)
  | contestRead (cur : Int) (row : Option Seen) (term : Nat) (holder : String)
      (effective : String) (contested : Bool)
  | classified (cur : Int) (row : Seen) (term : Nat)
  | renewing (cur : Int) (row : Seen) (term : Nat)
  | renewed (term wrote : Nat)
  /-- To be acquired: `takeLeaseAndMintTerm`. -/
  | acquisition (cur : Int) (term : Nat) (holder : String)
  | allocating (cur : Int) (supersede : Nat)
  | clearing (cur : Int) (supersede next : Nat)
  | acquiring (cur : Int) (supersede next : Nat)
  | declined
  | minted (term wrote : Nat)
  /-- The call returned; `wrote` is the place of its lease write. -/
  | done (held : Bool) (term : Nat) (wrote : Option Nat)
  deriving DecidableEq, Repr

/-- A call: its `ttl`, how far the instant it was given is from the clock, and the
attempts it has begun before this one. -/
structure Call where
  ttl : Int
  offset : Int
  attempt : Nat
  point : Point
  deriving DecidableEq, Repr

/-- The client, the rows of the key, and the calls.  `log` lists the values that the lease
row has had; the last one is stored. -/
structure System where
  now : Int
  log : List LeaseRow
  ledger : List TermRow
  /-- `termlessIncarnations`. -/
  termless : Bool
  mintedHere : Option Nat
  mayMint : Bool
  /-- The first of the claimants of a contested term. -/
  claimant : Nat → Option String
  calls : List Call

def System.lease (s : System) : Option LeaseRow := s.log.getLast?

def System.readLease (s : System) : Option Seen :=
  s.lease.map fun row => ⟨s.log.length - 1, row.holder, row.expires⟩

/-- `COALESCE(MAX(term), 0)` of some rows. -/
def maxTerm (rows : List TermRow) : Nat := (rows.map TermRow.term).foldr max 0

def liveRows (ledger : List TermRow) : List TermRow := ledger.filter TermRow.live

/-- `newestLeaseTerm`: the newest live term and its holder. -/
def newestLeaseTerm (ledger : List TermRow) : Nat × String :=
  let term := maxTerm (liveRows ledger)
  (term, (((liveRows ledger).find? fun row => row.term = term).map TermRow.holder).getD "")

def nextLeaseTerm (ledger : List TermRow) : Nat := maxTerm ledger + 1

/-- `effectiveLeaseHolder`: the holder of a term and whether it is contested. -/
def System.effectiveLeaseHolder (s : System) (term : Nat) (holder : String) : String × Bool :=
  if term = 0 then (holder, false)
  else
    match s.claimant term with
    | some first => (first, true)
    | none => (holder, false)

def deferTakeover (curHolder : String) (curExpires : Int) (effective holder : String)
    (now ttl : Int) : Bool :=
  if curHolder = "" ∨ effective = "" ∨ effective = curHolder ∨ effective = holder then false
  else !decide (curExpires * 1000000000 + ttl < now)

def System.termBelongsToEarlierTenure (s : System) (newest : Nat) : Bool :=
  s.termless && decide (s.mintedHere ≠ some newest)

def System.noteHandedTerm (s : System) (term : Nat) : System :=
  { s with termless := decide (term = 0), mintedHere := if term = 0 then none else s.mintedHere }

def System.noteMintedTerm (s : System) (term : Nat) : System := { s with mintedHere := some term }

def System.write (s : System) (holder : String) (expires : Int) : System :=
  { s with log := s.log ++ [⟨holder, expires, s.now⟩] }

/-- The condition of `leaseUpsertSQL`. -/
def System.upsertApplies (s : System) (holder : String) (cur : Int) : Bool :=
  s.lease.all fun row => decide (row.expires < second cur ∨ row.holder = holder)

def System.leaseRenewableTx (s : System) (holder : String) (cur : Int) (expectTerm : Nat) : Bool :=
  (s.lease.any fun row => decide (row.holder = holder ∧ second cur ≤ row.expires)) &&
    decide (maxTerm (liveRows s.ledger) = expectTerm)

def System.leaseAcquirableTx (s : System) (holder : String) (cur : Int) (term supersede : Nat) :
    Bool :=
  (s.lease.all fun row =>
    if row.expires < second cur then true
    else if row.holder ≠ holder then false
    else if (liveRows s.ledger).isEmpty then true
    else decide (0 < supersede ∧ newestLeaseTerm s.ledger = (supersede, holder))) &&
    decide (maxTerm s.ledger < term)

def maxLeaseAttempts : Nat := 3

def notHeld : Point := .done false 0 none

/-- The next attempt, or `not held` after the last one. -/
def Call.retry (call : Call) : Call :=
  if call.attempt + 1 < maxLeaseAttempts then
    { call with attempt := call.attempt + 1, point := .begin }
  else { call with point := notHeld }

def peerLive (holder : String) (cur : Int) (row : Option Seen) : Bool :=
  row.any fun seen => decide (seen.holder ≠ "" ∧ seen.holder ≠ holder ∧ second cur ≤ seen.expires)

/-- The classification, once the lease, the newest term and its contest are read.  It reads
the record of termless tenures. -/
def classify (s : System) (holder : String) (call : Call) (cur : Int) (row : Option Seen)
    (term : Nat) (termHolder effective : String) (contested : Bool) : Point :=
  match row.filter fun seen => decide (seen.holder = holder ∧ second cur ≤ seen.expires) with
  | some seen =>
    if 0 < term ∧ termHolder = holder then
      if contested then
        if effective ≠ holder then notHeld else .allocating cur term
      else if s.termBelongsToEarlierTenure term then .acquisition cur term termHolder
      else .classified cur seen term
    else if 0 < term then notHeld
    else .acquisition cur term termHolder
  | none =>
    if peerLive holder cur row then notHeld
    else if row.any fun seen => decide (seen.expires < second cur ∧ 0 < term) &&
        deferTakeover seen.holder seen.expires effective holder cur call.ttl then notHeld
    else .allocating cur 0

/-- One step of a call.  `cleared` is the answer of the mint's clearance. -/
def advance (s : System) (holder : String) (call : Call) (cleared : Bool) : System × Call :=
  let clock := s.now + call.offset
  let goto := fun (point : Point) => (s, { call with point := point })
  match call.point with
  | .begin => goto (.sampled clock)
  | .sampled cur => goto (.leaseRead cur s.readLease)
  | .leaseRead cur row =>
    if s.mayMint then goto (.gateOpen cur row)
    else if peerLive holder cur row then goto notHeld
    else goto (.upserting cur)
  | .upserting cur =>
    if s.upsertApplies holder cur then
      (s.write holder (second (cur + call.ttl)),
        { call with point := .upserted (some s.log.length) })
    else goto (.upserted none)
  | .upserted wrote =>
    if s.lease.any fun row => decide (row.holder = holder) then goto (.confirmed wrote)
    else goto notHeld
  | .confirmed wrote => (s.noteHandedTerm 0, { call with point := .done true 0 wrote })
  | .gateOpen cur row =>
    goto (.newestRead cur row (newestLeaseTerm s.ledger).1 (newestLeaseTerm s.ledger).2)
  | .newestRead cur row term termHolder =>
    goto (.contestRead cur row term termHolder (s.effectiveLeaseHolder term termHolder).1
      (s.effectiveLeaseHolder term termHolder).2)
  | .contestRead cur row term termHolder effective contested =>
    goto (classify s holder call cur row term termHolder effective contested)
  | .classified cur row term =>
    if row.expires < second clock then (s, call.retry) else goto (.renewing cur row term)
  | .renewing cur _ term =>
    if s.leaseRenewableTx holder cur term then
      (s.write holder (second (cur + call.ttl)), { call with point := .renewed term s.log.length })
    else (s, call.retry)
  | .renewed term wrote =>
    (s.noteHandedTerm term, { call with point := .done true term (some wrote) })
  | .acquisition cur term termHolder =>
    goto (.allocating cur
      (if 0 < term ∧ termHolder = holder ∧ s.termBelongsToEarlierTenure term then term else 0))
  | .allocating cur supersede => goto (.clearing cur supersede (nextLeaseTerm s.ledger))
  | .clearing cur supersede next =>
    if cleared then goto (.acquiring cur supersede next) else goto notHeld
  | .acquiring cur supersede next =>
    if s.leaseAcquirableTx holder cur next supersede then
      ({ (s.noteMintedTerm next).write holder (second (cur + call.ttl)) with
          ledger := s.ledger ++ [⟨next, holder, true⟩] },
        { call with point := .minted next s.log.length })
    else goto .declined
  | .declined =>
    if s.lease.any fun row => decide (row.holder ≠ "" ∧ row.holder ≠ holder) then goto notHeld
    else (s, call.retry)
  | .minted term wrote =>
    (s.noteHandedTerm term, { call with point := .done true term (some wrote) })
  | .done .. => (s, call)

inductive Event where
  | tick (nanos : Nat)
  | gate (mayMint : Bool)
  /-- The claimants of a term become known. -/
  | contest (term : Nat) (first : Option String)
  | call (ttl offset : Int)
  | advance (id : Nat) (cleared : Bool)
  deriving DecidableEq, Repr

def System.step (holder : String) (s : System) : Event → Option System
  | .tick nanos => some { s with now := s.now + nanos }
  | .gate mayMint => some { s with mayMint := mayMint }
  | .contest term first =>
    some { s with claimant := fun other => if other = term then first else s.claimant other }
  | .call ttl offset => some { s with calls := s.calls ++ [⟨ttl, offset, 0, .begin⟩] }
  | .advance id cleared =>
    (s.calls[id]?).map fun call =>
      let (after, next) := advance s holder call cleared
      { after with calls := s.calls.set id next }

/-- The lease written at the place names the holder and was not expired when the next
value was written. -/
def unexpired (holder : String) (log : List LeaseRow) (index : Nat) : Bool :=
  match log[index]?, log[index + 1]? with
  | some row, some next => decide (row.holder = holder ∧ second next.written ≤ row.expires)
  | _, _ => false

/-- At every instant between the two writes the stored lease named the holder and had not
expired. -/
def Covered (holder : String) (log : List LeaseRow) (first last : Nat) : Prop :=
  ∀ index, index < last → first ≤ index → unexpired holder log index = true

instance (holder : String) (log : List LeaseRow) (first last : Nat) :
    Decidable (Covered holder log first last) :=
  inferInstanceAs (Decidable (∀ index, index < last → first ≤ index → _))

/-- Calls that returned the same positive term wrote the lease within one tenure. -/
def TermWithinTenure (holder : String) (s : System) : Prop :=
  ∀ first ∈ s.calls, ∀ second ∈ s.calls, ∀ term place place', 0 < term →
    first.point = .done true term (some place) → second.point = .done true term (some place') →
    place ≤ place' → Covered holder s.log place place'

end Litevirt.Lease

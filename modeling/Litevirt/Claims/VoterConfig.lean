import Litevirt.Claims.Certificate

/-!
# Voter configurations

One row per generation: its members, the change it makes, and the certificate
that decided it (`internal/corrosion/voter_config.go`).  An absent generation is
`none`, as a nil pointer is in the source.
-/

namespace Litevirt.Claims

/-- A `voter_configs` row; the certificate column is decoded. -/
structure VoterConfig extends VoterConfigValue where
  membersHash : String
  certificate : Option ClaimCertificate
  deriving DecidableEq, Repr

namespace VoterConfig

def membersOf : Option VoterConfig → List VoterMember
  | none => []
  | some v => v.members

/-- `VoterConfig.Explicit`: the generation has members. -/
def explicit (v : Option VoterConfig) : Bool := !(membersOf v).isEmpty

/-- `VoterConfig.Member`: the first entry of a name. -/
def member (v : VoterConfig) (name : String) : Option VoterMember :=
  v.members.find? (·.name = name)

def names (v : VoterConfig) : List String := (v.members.map (·.name)).insertionSort (· ≤ ·)

def generationOf : Option VoterConfig → Int
  | none => 0
  | some v => v.generation

/-- `memberAs`: a member under its name with this incarnation. -/
def memberAs (v : VoterConfig) (name incarnation : String) : Bool :=
  match v.member name with
  | some m => m.incarnation = incarnation
  | none => false

/-- `scanVoterConfig`: a row is read with its members in order. -/
def scanVoterConfig (row : VoterConfig) : VoterConfig :=
  { row with members := sortMembers row.members }

end VoterConfig

open VoterConfig

def isForcedChange : VoterChange → Bool
  | .force _ => true
  | _ => false

/-- The loop of `ValidateVoterChange` over the member entries. -/
def invalidEntry : List String → List VoterMember → Option String
  | _, [] => none
  | seen, m :: rest =>
    if m.name = "" ∨ m.incarnation = "" then
      some ("member entry \x7bName:" ++ m.name ++ " Incarnation:" ++ m.incarnation ++
        "\x7d lacks a name or an incarnation")
    else if m.name ∈ seen then some ("member " ++ m.name ++ " listed twice")
    else invalidEntry (m.name :: seen) rest

/-- The first member whose incarnation differs from the one it had. -/
def changedIncarnation (old next : List VoterMember) : Option VoterMember :=
  next.find? fun m =>
    match electorateEntry old m.name with
    | some inc => inc ≠ m.incarnation
    | none => false

def addedNames (old next : List VoterMember) : List String :=
  (next.filter fun m => (electorateEntry old m.name).isNone).map (·.name)

def removedNames (old next : List VoterMember) : List String :=
  ((old.map (·.name)).dedup).filter fun name => name ∉ next.map (·.name)

def goList (names : List String) : String := "[" ++ " ".intercalate names ++ "]"

/-- `ValidateVoterChange`; `none` when `next` may follow `prev`. -/
def validateVoterChange (prev : Option VoterConfig) (next : VoterConfigValue) : Option String :=
  let prevGen := generationOf prev
  if next.generation ≠ prevGen + 1 then
    some s!"generation {next.generation} does not follow {prevGen}"
  else
    match invalidEntry [] next.members with
    | some problem => some problem
    | none =>
      let old := membersOf prev
      if !explicit prev then
        if next.change ≠ .genesis ∨ next.members = [] then
          some ("after an empty generation only a genesis with members may follow, got \"" ++
            next.change.text ++ "\"")
        else none
      else if next.change = .reset then
        if next.members ≠ [] then some "a reset has no members" else none
      else
        match changedIncarnation old next.members with
        | some m =>
          some ("member " ++ m.name ++ "'s incarnation changed; that is a remove then an " ++
            "add, two generations")
        | none =>
          match addedNames old next.members, removedNames old next.members with
          | [host], [] =>
            if next.change ≠ .add host then
              some ("change \"" ++ next.change.text ++ "\" does not describe adding " ++ host)
            else none
          | [], [host] =>
            if next.members = [] then
              some "removing the last voter empties the set; use a reset"
            else if next.change ≠ .rm host then
              some ("change \"" ++ next.change.text ++ "\" does not describe removing " ++
                host)
            else none
          | added, removed =>
            some ("a generation changes exactly one member (added " ++ goList added ++
              ", removed " ++ goList removed ++ ")")

def expectedVoterConfigCertificate [Sha256] (prev : Option VoterConfig) (next : VoterConfigValue) :
    Except String CertExpectation :=
  let prevGen := generationOf prev
  if next.generation ≠ prevGen + 1 then
    .error s!"generation {next.generation} does not follow {prevGen}"
  else do
    let digest ← (ClaimValue.ofConfig next).digest
    if explicit prev then
      .ok ⟨.voterConfig prevGen, digest, prevGen, membersOf prev,
        majorityOf (membersOf prev).length⟩
    else if next.members = [] then .error "an empty generation cannot follow an empty one"
    else .ok ⟨.voterConfig prevGen, digest, prevGen, next.members, next.members.length⟩

/-- `verifyVoterConfigRow`; `none` when the row may be adopted after `prev`. -/
def verifyVoterConfigRow [Sha256] (authentic : ClaimAccept → Bool) (prev : Option VoterConfig)
    (row : VoterConfig) : Option String :=
  match validateVoterChange prev row.toVoterConfigValue with
  | some problem => some problem
  | none =>
    if row.membersHash ≠ membersHash row.members then
      some "members_hash does not match members_json"
    else
      match expectedVoterConfigCertificate prev row.toVoterConfigValue with
      | .error problem => some problem
      | .ok want =>
        match row.certificate with
        | none => some "no certificate"
        | some cert => verify authentic cert want

end Litevirt.Claims

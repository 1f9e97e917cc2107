import Litevirt.Claims.Types

/-!
# Claim values and their digests

A claim decides either the proof of a workload recovery or a voter
configuration.  Voters compare values by digest only, so the digest's preimage is
written out byte by byte; the hash itself is a parameter.
-/

namespace Litevirt.Claims

/-- `hex.EncodeToString` of a SHA-256 sum. -/
class Sha256 where
  hexSum : List UInt8 → String

/-- A stand-in hash for running the model: the hashed bytes as characters. -/
abbrev Sha256.verbatim : Sha256 :=
  ⟨fun bytes => String.ofList (bytes.map fun b => Char.ofNat b.toNat)⟩

/-- A stand-in hash with short sums. -/
abbrev Sha256.checksum : Sha256 :=
  ⟨fun bytes => String.ofList (Nat.toDigits 16
    (bytes.foldl (fun sum b => (sum * 257 + b.toNat) % 4294967291) 7))⟩

/-- The fields of `ActionProof` that a claim digests.  The lease holder, the
quorum counts and the certificate are no part of the decision. -/
structure ActionProof where
  id : String
  action : String
  targetKind : TargetKind
  targetName : String
  destHost : String
  coordinator : String
  relocationToken : String
  fenceEpoch : String
  ownerEpoch : String
  leaseTerm : Int
  leaseKey : String
  deriving DecidableEq, Repr

structure VoterMember where
  name : String
  incarnation : String
  deriving DecidableEq, Repr

/-- The change a generation makes to the one before it. -/
inductive VoterChange where
  | genesis
  | reset
  | add (host : String)
  | rm (host : String)
  | force (lost : String)
  | other (text : String)
  deriving DecidableEq, Repr

def VoterChange.text : VoterChange → String
  | genesis => "genesis"
  | reset => "reset"
  | add host => "add:" ++ host
  | rm host => "rm:" ++ host
  | force lost => "force:" ++ lost
  | other text => text

structure VoterConfigValue where
  generation : Int
  members : List VoterMember
  change : VoterChange
  createdBy : String
  createdAt : String
  deriving DecidableEq, Repr

/-- `ClaimValue`: a proof with its source host, or a voter configuration. -/
structure ClaimValue where
  proof : Option ActionProof
  sourceHost : String
  config : Option VoterConfigValue
  deriving DecidableEq, Repr

namespace ClaimValue

def ofProof (proof : ActionProof) (sourceHost : String) : ClaimValue :=
  ⟨some proof, sourceHost, none⟩

def ofConfig (config : VoterConfigValue) : ClaimValue := ⟨none, "", some config⟩

end ClaimValue

def utf8 (text : String) : List UInt8 := text.toUTF8.data.toList

/-- `binary.BigEndian.PutUint64`. -/
def bigEndian (n : UInt64) : List UInt8 :=
  [(n >>> 56).toUInt8, (n >>> 48).toUInt8, (n >>> 40).toUInt8, (n >>> 32).toUInt8,
    (n >>> 24).toUInt8, (n >>> 16).toUInt8, (n >>> 8).toUInt8, n.toUInt8]

/-- `claimField`: a length-prefixed field. -/
def claimField (text : String) : List UInt8 :=
  bigEndian (UInt64.ofNat (utf8 text).length) ++ utf8 text

def claimFields (fields : List String) : List UInt8 := fields.flatMap claimField

def i64 (v : Int) : String := toString v

def claimValueDomain : String := "litevirt-recovery-value-v1"

def claimConfigValueDomain : String := "litevirt-voter-config-value-v1"

def voterMembersDomain : String := "litevirt-voter-members-v1"

/-- The fields that `MembersHash` hashes. -/
def memberFields (members : List VoterMember) : List String :=
  voterMembersDomain :: i64 members.length :: members.flatMap fun m => [m.name, m.incarnation]

def membersHash [Sha256] (members : List VoterMember) : String :=
  Sha256.hexSum (claimFields (memberFields members))

def proofFields (p : ActionProof) (sourceHost : String) : List String :=
  [claimValueDomain, p.id, p.action, p.targetKind.text, p.targetName, p.destHost, p.coordinator,
    p.relocationToken, p.fenceEpoch, p.ownerEpoch, i64 p.leaseTerm, p.leaseKey, sourceHost]

def configFields [Sha256] (cfg : VoterConfigValue) : List String :=
  [claimConfigValueDomain, i64 cfg.generation, membersHash cfg.members, cfg.change.text,
    cfg.createdBy, cfg.createdAt]

def ClaimValue.digest [Sha256] (v : ClaimValue) : Except String String :=
  match v.proof, v.config with
  | some p, none => .ok (Sha256.hexSum (claimFields (proofFields p v.sourceHost)))
  | none, some cfg =>
    if v.sourceHost = "" then .ok (Sha256.hexSum (claimFields (configFields cfg)))
    else .error "a claim value carries exactly one of a proof or a voter config"
  | _, _ => .error "a claim value carries exactly one of a proof or a voter config"

def sortMembers (members : List VoterMember) : List VoterMember :=
  members.insertionSort fun a b => a.name ≤ b.name

/-- `sort.Strings` after dropping empty names and repetitions. -/
def dedup (names : List String) : List String :=
  (List.dedup (names.filter (· ≠ ""))).insertionSort (· ≤ ·)

def majorityOf (n : Nat) : Nat := n / 2 + 1

def short (text : String) : String := String.ofList (text.toList.take 12)

end Litevirt.Claims

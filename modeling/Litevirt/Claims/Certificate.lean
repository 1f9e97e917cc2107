import Litevirt.Claims.Value

/-!
# Signed accepts and certificates

A certificate is a quorum of signed accepts for one ballot and one value.  The
signature check (certificate chain, name, revocation, ECDSA) is a parameter: an
accept is authentic or it is not.
-/

namespace Litevirt.Claims

/-- `ClaimAccept` without the key material behind its signature. -/
structure ClaimAccept where
  voter : String
  voterIncarnation : String
  configGeneration : Int
  key : ClaimKey
  ballot : Ballot
  valueDigest : String
  deriving DecidableEq, Repr

structure ClaimCertificate where
  key : ClaimKey
  configGeneration : Int
  ballot : Ballot
  valueDigest : String
  sourceHost : String
  accepts : List ClaimAccept
  deriving DecidableEq, Repr

structure CertExpectation where
  key : ClaimKey
  valueDigest : String
  configGeneration : Int
  electorate : List VoterMember
  quorum : Nat
  deriving DecidableEq, Repr

/-- The incarnation a member list records for a name; the last entry wins. -/
def electorateEntry (electorate : List VoterMember) (name : String) : Option String :=
  (electorate.reverse.find? (·.name = name)).map (·.incarnation)

/-- `verifyAccept`; `none` when the accept counts. -/
def verifyAccept (authentic : ClaimAccept → Bool) (cert : ClaimCertificate) (a : ClaimAccept)
    (electorate : List VoterMember) : Option String :=
  match electorateEntry electorate a.voter with
  | none => some s!"not a member of generation {cert.configGeneration}"
  | some inc =>
      if a.voterIncarnation ≠ inc then
        some ("incarnation " ++ short a.voterIncarnation ++ " does not match its member entry " ++
          short inc)
      else if a.key ≠ cert.key ∨ !a.ballot.equal cert.ballot ∨ a.valueDigest ≠ cert.valueDigest ∨
          a.configGeneration ≠ cert.configGeneration then
        some "accept is for a different key, ballot, value or generation"
      else if !authentic a then some "signature does not verify"
      else none

def countedVoters (authentic : ClaimAccept → Bool) (cert : ClaimCertificate)
    (electorate : List VoterMember) : List String :=
  ((cert.accepts.filter fun a => (verifyAccept authentic cert a electorate).isNone).map
    (·.voter)).dedup

/-- `ClaimVerifier.Verify`; `none` when the certificate verifies. -/
def verify (authentic : ClaimAccept → Bool) (cert : ClaimCertificate) (want : CertExpectation) :
    Option String :=
  let counted := (countedVoters authentic cert want.electorate).length
  let problems := cert.accepts.filterMap fun a =>
    (verifyAccept authentic cert a want.electorate).map fun problem => a.voter ++ ": " ++ problem
  if cert.key ≠ want.key then
    some ("certificate decides " ++ cert.key.string ++ ", not " ++ want.key.string)
  else if cert.valueDigest ≠ want.valueDigest then
    some ("certificate certifies value " ++ short cert.valueDigest ++ ", not " ++
      short want.valueDigest)
  else if cert.configGeneration ≠ want.configGeneration then
    some s!"certificate is at generation {cert.configGeneration}, not {want.configGeneration}"
  else if want.quorum < 1 then some "no quorum to verify against"
  else if counted < want.quorum then
    some (s!"certificate carries {counted} valid accept(s) from distinct members, needs " ++
      s!"{want.quorum} ([" ++ " ".intercalate problems ++ "])")
  else none

theorem verifyAccept_eq_none {authentic : ClaimAccept → Bool} {cert : ClaimCertificate}
    {a : ClaimAccept} {electorate : List VoterMember}
    (counts : verifyAccept authentic cert a electorate = none) :
    electorateEntry electorate a.voter = some a.voterIncarnation ∧ a.key = cert.key ∧
      a.ballot.equal cert.ballot = true ∧ a.valueDigest = cert.valueDigest ∧
      a.configGeneration = cert.configGeneration := by
  unfold verifyAccept at counts
  split at counts
  · cases counts
  rename_i inc entry
  split at counts
  · cases counts
  rename_i sameIncarnation
  split at counts
  · cases counts
  rename_i matching
  simp only [ne_eq, Bool.not_eq_eq_eq_not, Bool.not_true, not_or, Decidable.not_not,
    Bool.not_eq_false] at sameIncarnation matching
  exact ⟨by rw [entry, sameIncarnation], matching⟩

end Litevirt.Claims

import Litevirt.Claims.BallotOrder
import Litevirt.Claims.Electorates
import Litevirt.Claims.Preimage

/-!
# Certificates with their signatures

`ClaimVerifier.Verify` on accepts that carry an X.509 certificate and a signature.  The
packages that parse and check these are parameters; what an accept says besides is checked as
in `verifyAccept`.
-/

namespace Litevirt.Claims

open List

/-- The parts of an X.509 certificate that the verifier reads. -/
structure PeerCertificate where
  commonName : String
  serial : Nat
  ecdsaKey : Option String

structure SignedAccept extends ClaimAccept where
  certPEM : String
  signature : List UInt8

structure SignedCertificate where
  key : ClaimKey
  configGeneration : Int
  ballot : Ballot
  valueDigest : String
  sourceHost : String
  accepts : List SignedAccept

/-- A loaded `ClaimVerifier` with its CA and its revocation list. -/
structure ClaimVerifier where
  parseCertPEM : String → Except String PeerCertificate
  chainProblem : PeerCertificate → Option String
  revoked : Nat → Bool
  verifyASN1 : (key payload : String) → List UInt8 → Bool

def SignedCertificate.plain (cert : SignedCertificate) : ClaimCertificate :=
  ⟨cert.key, cert.configGeneration, cert.ballot, cert.valueDigest, cert.sourceHost,
    cert.accepts.map (·.toClaimAccept)⟩

namespace ClaimVerifier

variable [Sha256]

/-- The checks of `verifyAccept` on the key material; `none` when the accept is signed. -/
def verifySignature (v : ClaimVerifier) (a : SignedAccept) : Option String :=
  match v.parseCertPEM a.certPEM with
  | .error problem => some problem
  | .ok c =>
    match v.chainProblem c with
    | some problem => some ("certificate does not chain to the cluster CA: " ++ problem)
    | none =>
      if c.commonName ≠ a.voter then some ("signed with \"" ++ c.commonName ++ "\"'s certificate")
      else if v.revoked c.serial then
        some ("certificate " ++ String.ofList (Nat.toDigits 16 c.serial) ++ " is revoked")
      else
        match c.ecdsaKey with
        | none => some "certificate key is not ECDSA"
        | some pub =>
          if v.verifyASN1 pub (acceptPayload a.toClaimAccept) a.signature then none
          else some "signature does not verify"

/-- `verifyAccept`: what the accept says is checked first. -/
def verifyAccept (v : ClaimVerifier) (cert : SignedCertificate) (a : SignedAccept)
    (electorate : List VoterMember) : Option String :=
  (Claims.verifyAccept (fun _ => true) cert.plain a.toClaimAccept electorate).or
    (v.verifySignature a)

def counted (v : ClaimVerifier) (cert : SignedCertificate) (electorate : List VoterMember) :
    List String :=
  ((cert.accepts.filter fun a => (v.verifyAccept cert a electorate).isNone).map
    (·.voter)).dedup

/-- `Verify`; `none` when the certificate verifies. -/
def verify (verifier : Option ClaimVerifier) (cert : SignedCertificate) (want : CertExpectation) :
    Option String :=
  match verifier with
  | none => some "no claim verifier loaded"
  | some v =>
    if cert.key ≠ want.key then
      some ("certificate decides " ++ cert.key.string ++ ", not " ++ want.key.string)
    else if cert.valueDigest ≠ want.valueDigest then
      some ("certificate certifies value " ++ short cert.valueDigest ++ ", not " ++
        short want.valueDigest)
    else if cert.configGeneration ≠ want.configGeneration then
      some s!"certificate is at generation {cert.configGeneration}, not {want.configGeneration}"
    else if want.quorum < 1 then some "no quorum to verify against"
    else
      let valid := (v.counted cert want.electorate).length
      let problems := cert.accepts.filterMap fun a =>
        (v.verifyAccept cert a want.electorate).map fun problem => a.voter ++ ": " ++ problem
      if valid < want.quorum then
        some (s!"certificate carries {valid} valid accept(s) from distinct members, needs " ++
          s!"{want.quorum} ([" ++ " ".intercalate problems ++ "])")
      else none

/-- Under a key that the CA certified, exactly the signatures verify that the holder of this key
made.  A host has a new key after each rotation, and each of its keys signs for itself. -/
def Unforgeable (v : ClaimVerifier) (signs : (key payload : String) → List UInt8 → Prop) : Prop :=
  ∀ c pub payload signature, v.chainProblem c = none → c.ecdsaKey = some pub →
    (v.verifyASN1 pub payload signature = true ↔ signs pub payload signature)

/-- A valid, unrevoked signature of a member, under its incarnation, over the expected key,
generation and digest and the given ballot. -/
structure SignedBy (v : ClaimVerifier) (signs : (key payload : String) → List UInt8 → Prop)
    (want : CertExpectation) (ballot : Ballot) (m : VoterMember) (a : SignedAccept) : Prop where
  states : a.toClaimAccept = ⟨m.name, m.incarnation, want.configGeneration, want.key, ballot,
    want.valueDigest⟩
  signed : ∃ c pub, v.parseCertPEM a.certPEM = .ok c ∧ v.chainProblem c = none ∧
    c.commonName = m.name ∧ v.revoked c.serial = false ∧ c.ecdsaKey = some pub ∧
    signs pub (acceptPayload a.toClaimAccept) a.signature

variable {v : ClaimVerifier} {signs : (key payload : String) → List UInt8 → Prop}
  {cert : SignedCertificate} {want : CertExpectation}

theorem verifySignature_eq_none (unforgeable : v.Unforgeable signs) {a : SignedAccept} :
    v.verifySignature a = none ↔
      ∃ c pub, v.parseCertPEM a.certPEM = .ok c ∧ v.chainProblem c = none ∧
        c.commonName = a.voter ∧ v.revoked c.serial = false ∧ c.ecdsaKey = some pub ∧
        signs pub (acceptPayload a.toClaimAccept) a.signature := by
  unfold verifySignature
  cases parsed : v.parseCertPEM a.certPEM with
  | error problem => simp
  | ok c =>
    cases chains : v.chainProblem c with
    | some problem => simp [chains]
    | none =>
      by_cases named : c.commonName = a.voter
      · cases revoked : v.revoked c.serial <;> cases isKey : c.ecdsaKey with
        | none => simp [chains, named, revoked, isKey]
        | some pub =>
          have checked := unforgeable c pub (acceptPayload a.toClaimAccept) a.signature chains isKey
          simp [chains, named, revoked, isKey, checked]
      · simp [chains, named]

/-- An accept counts exactly when it is a valid signature of a member of the electorate. -/
theorem verifyAccept_iff_signedBy (unforgeable : v.Unforgeable signs)
    (distinct : (want.electorate.map (·.name)).Nodup) (key : cert.key = want.key)
    (digest : cert.valueDigest = want.valueDigest)
    (generation : cert.configGeneration = want.configGeneration) (a : SignedAccept) :
    v.verifyAccept cert a want.electorate = none ↔
      ∃ m ∈ want.electorate, v.SignedBy signs want cert.ballot m a := by
  unfold verifyAccept
  rw [Option.or_eq_none_iff, verifySignature_eq_none unforgeable]
  constructor
  · rintro ⟨plain, signed⟩
    obtain ⟨entry, sameKey, sameBallot, sameDigest, sameGeneration⟩ :=
      verifyAccept_eq_none plain
    refine ⟨_, (electorateEntry_iff distinct).mp entry, ?_, signed⟩
    rw [← key, ← digest, ← generation]
    rw [Ballot.equal_iff] at sameBallot
    exact congr (congr (congr (congrArg (ClaimAccept.mk _ _) sameGeneration) sameKey) sameBallot)
      sameDigest
  · rintro ⟨m, member, states, signed⟩
    have entry := (electorateEntry_iff distinct).mpr member
    have voter : a.voter = m.name := congrArg ClaimAccept.voter states
    rw [voter]
    refine ⟨?_, signed⟩
    rw [states]
    simp [Claims.verifyAccept, entry, SignedCertificate.plain, key, digest, generation]

theorem mem_counted (unforgeable : v.Unforgeable signs)
    (distinct : (want.electorate.map (·.name)).Nodup) (key : cert.key = want.key)
    (digest : cert.valueDigest = want.valueDigest)
    (generation : cert.configGeneration = want.configGeneration) (name : String) :
    name ∈ v.counted cert want.electorate ↔ ∃ m ∈ want.electorate, m.name = name ∧
      ∃ a ∈ cert.accepts, v.SignedBy signs want cert.ballot m a := by
  simp only [counted, mem_dedup, mem_map, mem_filter, Option.isNone_iff_eq_none,
    verifyAccept_iff_signedBy unforgeable distinct key digest generation]
  constructor
  · rintro ⟨a, ⟨present, m, member, signed⟩, rfl⟩
    exact ⟨m, member, (congrArg ClaimAccept.voter signed.states).symm, a, present, signed⟩
  · rintro ⟨m, member, rfl, a, present, signed⟩
    exact ⟨a, ⟨present, m, member, signed⟩, congrArg ClaimAccept.voter signed.states⟩

/-- A certificate verifies exactly when it has the expected key, digest and generation and a
quorum of the electorate signed them at the certificate's ballot.  Other entries do not matter. -/
theorem verify_iff_quorum_signed (v : ClaimVerifier)
    (signs : (key payload : String) → List UInt8 → Prop) (unforgeable : v.Unforgeable signs)
    (cert : SignedCertificate) (want : CertExpectation)
    (distinct : (want.electorate.map (·.name)).Nodup) (quorum : 1 ≤ want.quorum) :
    (verify (some v) cert want = none ↔
      cert.key = want.key ∧ cert.valueDigest = want.valueDigest ∧
        cert.configGeneration = want.configGeneration ∧
        ∃ members, List.Sublist members want.electorate ∧ want.quorum ≤ members.length ∧
          ∀ m ∈ members, ∃ a ∈ cert.accepts, v.SignedBy signs want cert.ballot m a) ∧
    ∀ accepts, (∀ m ∈ want.electorate, (∃ a ∈ accepts, v.SignedBy signs want cert.ballot m a) ↔
        ∃ a ∈ cert.accepts, v.SignedBy signs want cert.ballot m a) →
      (verify (some v) { cert with accepts } want = none ↔ verify (some v) cert want = none) := by
  have exact : ∀ {cert : SignedCertificate}, verify (some v) cert want = none ↔
      cert.key = want.key ∧ cert.valueDigest = want.valueDigest ∧
        cert.configGeneration = want.configGeneration ∧
        ∃ members, List.Sublist members want.electorate ∧ want.quorum ≤ members.length ∧
          ∀ m ∈ members, ∃ a ∈ cert.accepts, v.SignedBy signs want cert.ballot m a := by
    intro cert
    unfold verify
    by_cases key : cert.key = want.key
    swap
    · simp [key]
    by_cases digest : cert.valueDigest = want.valueDigest
    swap
    · simp [key, digest]
    by_cases generation : cert.configGeneration = want.configGeneration
    swap
    · simp [key, digest, generation]
    simp only [key, digest, generation, ne_eq, not_true_eq_false, if_false, true_and,
      Nat.not_lt.mpr quorum]
    have voters := mem_counted unforgeable distinct key digest generation
    have once : (v.counted cert want.electorate).Nodup := nodup_dedup _
    rw [ite_eq_right_iff, imp_iff_not (by simp), not_lt]
    constructor
    · intro enough
      refine ⟨want.electorate.filter fun m => m.name ∈ v.counted cert want.electorate,
        filter_sublist, enough.trans ?_, fun m member => ?_⟩
      · have covered : v.counted cert want.electorate ⊆ (want.electorate.filter fun m =>
            m.name ∈ v.counted cert want.electorate).map (·.name) := by
          intro name isCounted
          obtain ⟨m, member, rfl, -⟩ := (voters name).mp isCounted
          exact mem_map_of_mem (mem_filter.mpr ⟨member, by simpa using isCounted⟩)
        simpa using (once.subperm covered).length_le
      · obtain ⟨inElectorate, isCounted⟩ := mem_filter.mp member
        obtain ⟨m', member', sameName, signed⟩ := (voters m.name).mp (by simpa using isCounted)
        rwa [inj_on_of_nodup_map distinct member' inElectorate sameName] at signed
    · rintro ⟨members, sublist, enough, signed⟩
      have covered : members.map (·.name) ⊆ v.counted cert want.electorate := by
        intro name isMember
        obtain ⟨m, member, rfl⟩ := mem_map.mp isMember
        exact (voters m.name).mpr ⟨m, sublist.subset member, rfl, signed m member⟩
      have fewer := ((distinct.sublist (sublist.map _)).subperm covered).length_le
      rw [length_map] at fewer
      exact enough.trans fewer
  refine ⟨exact, fun accepts same => ?_⟩
  rw [exact, exact]
  refine and_congr_right fun _ => and_congr_right fun _ => and_congr_right fun _ =>
    exists_congr fun members => and_congr_right fun sublist => and_congr_right fun _ =>
    forall₂_congr fun m member => same m (sublist.subset member)

end ClaimVerifier

/-- The signature that the holder of `key` makes. -/
def signWith (key payload : String) : List UInt8 := (key ++ payload).toUTF8.toList

/-- Hosts `a`, `b` and `c` with their certificates; the first key of `a` was rotated away and its
certificate revoked. -/
def rotatedVerifier : ClaimVerifier where
  parseCertPEM
    | "a1" => .ok ⟨"a", 1, some "first key of a"⟩
    | "a2" => .ok ⟨"a", 2, some "second key of a"⟩
    | "b" => .ok ⟨"b", 3, some "key of b"⟩
    | "c" => .ok ⟨"c", 4, some "key of c"⟩
    | _ => .error "no PEM block"
  chainProblem _ := none
  revoked serial := serial == 1
  verifyASN1 key payload signature := signature == signWith key payload

theorem rotatedVerifier_unforgeable :
    rotatedVerifier.Unforgeable fun key payload signature => signature = signWith key payload :=
  fun _ _ _ _ _ _ => beq_iff_eq

section Rotated

variable [Sha256]

def acceptBy (voter : String) (ballot : Ballot) : ClaimAccept :=
  ⟨voter, voter ++ "-1", 4, ⟨.vm, "web", 0, 0, ""⟩, ballot, "d"⟩

/-- The accept of `voter`, signed with `key`, under the certificate `certPEM`. -/
def signedAccept (voter certPEM key : String) (ballot : Ballot) : SignedAccept :=
  ⟨acceptBy voter ballot, certPEM, signWith key (acceptPayload (acceptBy voter ballot))⟩

/-- Accepts of `a` and `b` at `accepted`, among a repeated one, one of an outsider, one of `c`
with the key of `b` and one under the revoked certificate of `a`. -/
def acceptsOfThree (ballot accepted : Ballot) : SignedCertificate :=
  ⟨⟨.vm, "web", 0, 0, ""⟩, 4, ballot, "d", "h",
    [signedAccept "a" "a1" "first key of a" accepted, signedAccept "z" "c" "key of c" accepted,
      signedAccept "a" "a2" "second key of a" accepted, signedAccept "c" "c" "key of b" accepted,
      signedAccept "a" "a2" "second key of a" accepted, signedAccept "b" "b" "key of b" accepted]⟩

def twoOfThree : CertExpectation :=
  ⟨⟨.vm, "web", 0, 0, ""⟩, "d", 4, [⟨"a", "a-1"⟩, ⟨"b", "b-1"⟩, ⟨"c", "c-1"⟩], 2⟩

/-- A quorum of the three members signed at the ballot of the accepts. -/
theorem web_signedBy (ballot accepted : Ballot) :
    ∀ m ∈ twoOfThree.electorate.take 2, ∃ a ∈ (acceptsOfThree ballot accepted).accepts,
      rotatedVerifier.SignedBy (fun key payload signature => signature = signWith key payload)
        twoOfThree accepted m a := by
  have signed_a : rotatedVerifier.SignedBy
      (fun key payload signature => signature = signWith key payload) twoOfThree accepted
      ⟨"a", "a-1"⟩ (signedAccept "a" "a2" "second key of a" accepted) :=
    ⟨rfl, _, _, rfl, rfl, rfl, rfl, rfl, rfl⟩
  have signed_b : rotatedVerifier.SignedBy
      (fun key payload signature => signature = signWith key payload) twoOfThree accepted
      ⟨"b", "b-1"⟩ (signedAccept "b" "b" "key of b" accepted) :=
    ⟨rfl, _, _, rfl, rfl, rfl, rfl, rfl, rfl⟩
  intro m member
  simp only [twoOfThree, take_succ_cons, take_zero, mem_cons, not_mem_nil, or_false] at member
  rcases member with rfl | rfl
  · exact ⟨_, by simp [acceptsOfThree], signed_a⟩
  · exact ⟨_, by simp [acceptsOfThree], signed_b⟩

end Rotated

/-- At the certificate's ballot the accepts of `a`, under its new key, and of `b` are a quorum. -/
theorem verify_iff_quorum_signed_rotated :
    @ClaimVerifier.verify .checksum (some rotatedVerifier)
      (@acceptsOfThree .checksum ⟨1, "a", []⟩ ⟨1, "a", []⟩) twoOfThree = none :=
  (@ClaimVerifier.verify_iff_quorum_signed .checksum rotatedVerifier _
    rotatedVerifier_unforgeable _ twoOfThree (by decide) (by decide)).1.mpr
    ⟨rfl, rfl, rfl, twoOfThree.electorate.take 2, take_sublist _ _, by decide,
      @web_signedBy .checksum _ _⟩

/-- Valid signatures of a quorum, for the expected key, generation and digest, do not count when
the certificate carries another ballot than the signed one. -/
theorem other_ballot_does_not_count :
    (@ClaimVerifier.verify .checksum (some rotatedVerifier)
      (@acceptsOfThree .checksum ⟨2, "a", []⟩ ⟨1, "a", []⟩) twoOfThree).isSome = true ∧
    ∀ m ∈ twoOfThree.electorate.take twoOfThree.quorum,
      ∃ a ∈ (@acceptsOfThree .checksum ⟨2, "a", []⟩ ⟨1, "a", []⟩).accepts,
        @ClaimVerifier.SignedBy .checksum rotatedVerifier
          (fun key payload signature => signature = signWith key payload) twoOfThree
          ⟨1, "a", []⟩ m a :=
  ⟨by decide +kernel, @web_signedBy .checksum _ _⟩

end Litevirt.Claims

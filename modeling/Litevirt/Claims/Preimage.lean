import Litevirt.Claims.Certificate
import Litevirt.Lib.PrefixCode

/-!
# Signed preimages

What a digest and a signature cover.  The bytes that are hashed are fields, each
after its length, so they can be read back in one way only: the number of fields
and every field are determined by the bytes.  The first field is a domain, and
no two uses of the hash share one.
-/

namespace Litevirt.Claims

open Litevirt.Lib List ClaimValue

/-- `claimField` on the bytes of a string. -/
def frame (bytes : List UInt8) : List UInt8 := bigEndian (UInt64.ofNat bytes.length) ++ bytes

theorem claimFields_eq (fields : List String) :
    claimFields fields = (fields.map utf8).flatMap frame := by
  rw [flatMap_map]
  rfl

theorem utf8_injective : Function.Injective utf8 := by
  intro text other same
  apply String.toByteArray_inj.mp
  exact ByteArray.ext (Array.ext' same)

theorem toNat_bigEndian (n : UInt64) :
    (bigEndian n).foldl (fun value byte => value * 256 + byte.toNat) 0 = n.toNat := by
  have small := n.toNat_lt
  simp only [bigEndian, foldl_cons, foldl_nil, UInt64.toNat_toUInt8,
    UInt64.toNat_shiftRight, UInt64.reduceToNat, Nat.reduceMod, Nat.shiftRight_eq_div_pow]
  omega

theorem bigEndian_injective : Function.Injective bigEndian := by
  intro m n same
  apply UInt64.toNat_inj.mp
  rw [← toNat_bigEndian m, ← toNat_bigEndian n, same]

/-- The length of a Go string, or of a byte slice, is a non-negative `int`. -/
def GoSized (bytes : List UInt8) : Prop := bytes.length < 2 ^ 63

instance (bytes : List UInt8) : Decidable (GoSized bytes) := inferInstanceAs (Decidable (_ < _))

theorem frame_prefixCode : PrefixCode frame GoSized := by
  refine PrefixCode.lengthPrefixed (fun n => bigEndian (UInt64.ofNat n)) 8 (2 ^ 63) (by decide)
    (fun _ => rfl) ?_
  intro m n mSmall nSmall same
  have equal := congrArg UInt64.toNat (bigEndian_injective same)
  rw [UInt64.toNat_ofNat', UInt64.toNat_ofNat'] at equal
  rwa [Nat.mod_eq_of_lt (by omega), Nat.mod_eq_of_lt (by omega)] at equal

theorem claimFields_inj {fields others : List String} (sized : ∀ f ∈ fields, GoSized (utf8 f))
    (othersSized : ∀ f ∈ others, GoSized (utf8 f))
    (same : claimFields fields = claimFields others) : fields = others := by
  rw [claimFields_eq, claimFields_eq] at same
  refine (map_injective_iff.mpr utf8_injective) (frame_prefixCode.flatMap ?_ ?_ same)
  · simpa using sized
  · simpa using othersSized

theorem i64_injective : Function.Injective i64 := fun _ _ same => Int.repr_injective same

/-- The fields a proof's digest covers; a target kind is its text. -/
def ActionProof.decided (p : ActionProof) : ActionProof :=
  { p with targetKind := .other p.targetKind.text }

/-- The fields a configuration's digest covers; a change is its text. -/
def VoterConfigValue.decided (cfg : VoterConfigValue) : VoterConfigValue :=
  { cfg with change := .other cfg.change.text }

def ClaimValue.decided (v : ClaimValue) : ClaimValue :=
  ⟨v.proof.map (·.decided), v.sourceHost, v.config.map (·.decided)⟩

def ClaimValue.hashedFields [Sha256] (v : ClaimValue) : List String :=
  (match v.proof with
    | some p => proofFields p v.sourceHost
    | none => []) ++
  match v.config with
    | some cfg => configFields cfg ++ memberFields cfg.members
    | none => []

def ClaimValue.Sized [Sha256] (v : ClaimValue) : Prop := ∀ f ∈ v.hashedFields, GoSized (utf8 f)

instance [Sha256] (v : ClaimValue) : Decidable v.Sized := inferInstanceAs (Decidable (∀ f ∈ _, _))

theorem memberFields_inj {members others : List VoterMember}
    (same : memberFields members = memberFields others) : members = others := by
  simp only [memberFields, List.cons.injEq] at same
  obtain ⟨-, -, pairs⟩ := same
  induction members generalizing others with
  | nil =>
    cases others with
    | nil => rfl
    | cons other rest => cases pairs
  | cons m rest ih =>
    cases others with
    | nil => cases pairs
    | cons other others =>
      simp only [flatMap_cons, cons_append, nil_append, List.cons.injEq] at pairs
      obtain ⟨name, incarnation, tails⟩ := pairs
      rw [ih tails]
      congr 1
      exact congrArg₂ VoterMember.mk name incarnation

theorem proofFields_inj {p q : ActionProof} {host other : String}
    (same : proofFields p host = proofFields q other) : p.decided = q.decided ∧ host = other := by
  simp only [proofFields, List.cons.injEq, and_true] at same
  obtain ⟨-, id, action, kind, name, dest, coordinator, token, fence, owner, term, lease, host⟩ :=
    same
  refine ⟨?_, host⟩
  simp only [ActionProof.decided, ActionProof.mk.injEq, TargetKind.other.injEq]
  exact ⟨id, action, kind, name, dest, coordinator, token, fence, owner, i64_injective term, lease⟩

section Digest

variable [Sha256]

@[simp] theorem ClaimValue.hashedFields_ofProof (p : ActionProof) (host : String) :
    (ofProof p host).hashedFields = proofFields p host := append_nil _

@[simp] theorem ClaimValue.hashedFields_ofConfig (cfg : VoterConfigValue) :
    (ofConfig cfg).hashedFields = configFields cfg ++ memberFields cfg.members := rfl

/-- A value with a digest is a proof with its source host or a configuration. -/
theorem ClaimValue.digest_ok {v : ClaimValue} {d : String} (digested : v.digest = .ok d) :
    (∃ p host, v = .ofProof p host ∧ d = Sha256.hexSum (claimFields (proofFields p host))) ∨
      ∃ cfg, v = .ofConfig cfg ∧ d = Sha256.hexSum (claimFields (configFields cfg)) := by
  obtain ⟨proof, sourceHost, config⟩ := v
  unfold digest at digested
  split at digested
  · rename_i p isProof noConfig
    cases digested
    subst isProof noConfig
    exact .inl ⟨p, sourceHost, rfl, rfl⟩
  · rename_i cfg noProof isConfig
    split at digested
    · rename_i unsourced
      cases digested
      subst noProof isConfig unsourced
      exact .inr ⟨cfg, rfl, rfl⟩
    · cases digested
  · cases digested

variable (injective : Function.Injective Sha256.hexSum)

include injective

theorem decided_of_digest {v w : ClaimValue} {d : String} (sized : v.Sized) (otherSized : w.Sized)
    (digested : v.digest = .ok d) (otherDigested : w.digest = .ok d) : v.decided = w.decided := by
  simp only [ClaimValue.Sized] at sized otherSized
  rcases digest_ok digested with ⟨p, host, rfl, sum⟩ | ⟨cfg, rfl, sum⟩ <;>
    rcases digest_ok otherDigested with ⟨q, other, rfl, sum'⟩ | ⟨cfg', rfl, sum'⟩ <;>
    simp only [hashedFields_ofProof, hashedFields_ofConfig,
      forall_mem_append] at sized otherSized
  · obtain ⟨bindings, hosts⟩ :=
      proofFields_inj (claimFields_inj sized otherSized (injective (sum.symm.trans sum')))
    simp only [ClaimValue.ofProof, ClaimValue.decided, Option.map_some, bindings, hosts]
  · have fields := claimFields_inj sized otherSized.1 (injective (sum.symm.trans sum'))
    exact absurd (List.cons.inj fields).1 (by decide)
  · have fields := claimFields_inj sized.1 otherSized (injective (sum.symm.trans sum'))
    exact absurd (List.cons.inj fields).1 (by decide)
  · have fields := claimFields_inj sized.1 otherSized.1 (injective (sum.symm.trans sum'))
    simp only [configFields, List.cons.injEq, and_true] at fields
    obtain ⟨-, generation, members, change, createdBy, createdAt⟩ := fields
    have listed := memberFields_inj (claimFields_inj sized.2 otherSized.2 (injective members))
    simp only [ClaimValue.ofConfig, ClaimValue.decided, Option.map_some, VoterConfigValue.decided,
      i64_injective generation, listed, change, createdBy, createdAt]

end Digest

def claimAcceptDomain : String := "litevirt-recovery-accept-v1"

def claimAcceptDomainV2 : String := "litevirt-recovery-accept-v2"

def claimAbandonDomain : String := "litevirt-recovery-abandon-v1"

def claimAbandonDomainV2 : String := "litevirt-recovery-abandon-v2"

/-- The fields that `acceptPayload` hashes; the nonce is bytes. -/
def acceptFields (a : ClaimAccept) : List (List UInt8) :=
  (if a.key.incarnation = "" then
    [utf8 claimAcceptDomain, utf8 a.key.targetKind.text, utf8 a.key.targetName]
  else
    [utf8 claimAcceptDomainV2, utf8 a.key.targetKind.text, utf8 a.key.targetName,
      utf8 a.key.incarnation]) ++
  [utf8 (i64 a.key.ownerEpoch), utf8 (i64 a.key.attempt), utf8 (i64 a.configGeneration),
    utf8 (toString a.ballot.round.toNat), utf8 a.ballot.coordinator, a.ballot.nonce,
    utf8 a.valueDigest, utf8 a.voter, utf8 a.voterIncarnation]

/-- `acceptPayload`: the sum a voter signs, in hex. -/
def acceptPayload [Sha256] (a : ClaimAccept) : String :=
  Sha256.hexSum ((acceptFields a).flatMap frame)

/-- The fields that `abandonPayload` hashes. -/
def abandonFields (host proofID : String) (key : ClaimKey) : List (List UInt8) :=
  (if key.incarnation = "" then utf8 claimAbandonDomain else utf8 claimAbandonDomainV2) ::
    [utf8 host, utf8 proofID, utf8 key.targetKind.text, utf8 key.targetName] ++
    (if key.incarnation = "" then [] else [utf8 key.incarnation]) ++
    [utf8 (i64 key.ownerEpoch), utf8 (i64 key.attempt)]

def abandonPayload [Sha256] (host proofID : String) (key : ClaimKey) : String :=
  Sha256.hexSum ((abandonFields host proofID key).flatMap frame)

def ClaimAccept.Sized (a : ClaimAccept) : Prop := ∀ f ∈ acceptFields a, GoSized f

instance (a : ClaimAccept) : Decidable a.Sized := inferInstanceAs (Decidable (∀ f ∈ _, _))

/-- The tuple an accept signs; a target kind is its text. -/
def ClaimAccept.tuple (a : ClaimAccept) : ClaimAccept :=
  { a with key := { a.key with targetKind := .other a.key.targetKind.text } }

theorem acceptFields_key {a b : ClaimAccept} (same : acceptFields a = acceptFields b) :
    a.key.targetKind.text = b.key.targetKind.text ∧ a.key.targetName = b.key.targetName ∧
      a.key.incarnation = b.key.incarnation ∧
      (acceptFields a).reverse.take 9 = (acceptFields b).reverse.take 9 := by
  have tails := congrArg (fun fields => fields.reverse.take 9) same
  unfold acceptFields at same
  by_cases legacy : a.key.incarnation = "" <;> by_cases otherLegacy : b.key.incarnation = "" <;>
    simp only [legacy, otherLegacy, if_true, if_false, cons_append, nil_append,
      List.cons.injEq, utf8_injective.eq_iff] at same
  · exact ⟨same.2.1, same.2.2.1, legacy.trans otherLegacy.symm, tails⟩
  · exact absurd same.1 (by decide)
  · exact absurd same.1 (by decide)
  · exact ⟨same.2.1, same.2.2.1, same.2.2.2.1, tails⟩

theorem acceptFields_reverse_take (a : ClaimAccept) :
    (acceptFields a).reverse.take 9 =
      [utf8 a.voterIncarnation, utf8 a.voter, utf8 a.valueDigest, a.ballot.nonce,
        utf8 a.ballot.coordinator, utf8 (toString a.ballot.round.toNat),
        utf8 (i64 a.configGeneration), utf8 (i64 a.key.attempt), utf8 (i64 a.key.ownerEpoch)] := by
  rw [acceptFields, reverse_append]
  rfl

theorem acceptFields_inj {a b : ClaimAccept} (same : acceptFields a = acceptFields b) :
    a.tuple = b.tuple := by
  obtain ⟨kind, name, incarnation, tails⟩ := acceptFields_key same
  rw [acceptFields_reverse_take, acceptFields_reverse_take] at tails
  simp only [List.cons.injEq, utf8_injective.eq_iff, i64_injective.eq_iff, and_true] at tails
  obtain ⟨voterIncarnation, voter, digest, nonce, coordinator, round, generation, attempt, epoch⟩ :=
    tails
  have rounds : a.ballot.round = b.ballot.round := UInt64.toNat_inj.mp (Nat.repr_injective round)
  have ballots : a.ballot = b.ballot := Ballot.mk.injEq .. ▸ ⟨rounds, coordinator, nonce⟩
  simp only [ClaimAccept.tuple, ClaimAccept.mk.injEq, ClaimKey.mk.injEq, TargetKind.other.injEq]
  exact ⟨voter, voterIncarnation, generation, ⟨kind, name, epoch, attempt, incarnation⟩, ballots,
    digest⟩

theorem acceptFields_ne_abandonFields (a : ClaimAccept) (host proofID : String) (key : ClaimKey) :
    (acceptFields a).flatMap frame ≠ (abandonFields host proofID key).flatMap frame := by
  intro same
  obtain ⟨accept, rest, accepted, accepts⟩ : ∃ domain rest,
      acceptFields a = utf8 domain :: rest ∧
        (domain = claimAcceptDomain ∨ domain = claimAcceptDomainV2) := by
    unfold acceptFields
    split
    · exact ⟨_, _, rfl, .inl rfl⟩
    · exact ⟨_, _, rfl, .inr rfl⟩
  obtain ⟨abandon, others, abandoned, abandons⟩ : ∃ domain rest,
      abandonFields host proofID key = utf8 domain :: rest ∧
        (domain = claimAbandonDomain ∨ domain = claimAbandonDomainV2) := by
    unfold abandonFields
    split
    · exact ⟨_, _, rfl, .inl rfl⟩
    · exact ⟨_, _, rfl, .inr rfl⟩
  rw [accepted, abandoned] at same
  have acceptSized : GoSized (utf8 accept) := by rcases accepts with rfl | rfl <;> decide
  have abandonSized : GoSized (utf8 abandon) := by rcases abandons with rfl | rfl <;> decide
  have domains := utf8_injective (frame_prefixCode.unique acceptSized abandonSized same)
  rcases accepts with rfl | rfl <;> rcases abandons with rfl | rfl <;>
    exact absurd domains (by decide)

/-- Signed preimages are injective: equal digests decide the same, equal accept payloads are of
one tuple, and no accept payload is an abandonment's. -/
theorem preimages_injective [Sha256] (injective : Function.Injective Sha256.hexSum) :
    (∀ (v w : ClaimValue) (d : String), v.Sized → w.Sized → v.digest = .ok d → w.digest = .ok d →
      v.decided = w.decided) ∧
    (∀ a b : ClaimAccept, a.Sized → b.Sized → acceptPayload a = acceptPayload b →
      a.tuple = b.tuple) ∧
    ∀ (a : ClaimAccept) (host proofID : String) (key : ClaimKey),
      acceptPayload a ≠ abandonPayload host proofID key := by
  refine ⟨fun v w d => decided_of_digest injective, ?_, ?_⟩
  · intro a b sized otherSized same
    exact acceptFields_inj (frame_prefixCode.flatMap sized otherSized (injective same))
  · intro a host proofID key same
    exact acceptFields_ne_abandonFields a host proofID key (injective same)

theorem verbatim_injective : Function.Injective (@Sha256.hexSum Sha256.verbatim) := by
  intro bytes others same
  have chars := String.ofList_injective same
  refine map_injective_iff.mpr (fun byte other equal => ?_) chars
  have small : byte.toNat.isValidChar := .inl (byte.toNat_lt.trans (by decide))
  have otherSmall : other.toNat.isValidChar := .inl (other.toNat_lt.trans (by decide))
  have values := congrArg Char.toNat equal
  rw [Char.toNat_ofNat, Char.toNat_ofNat, if_pos small, if_pos otherSmall] at values
  exact UInt8.toNat_inj.mp values

def webRecovery (destHost : String) : ClaimValue :=
  .ofProof ⟨"p1", "recover", .vm, "web", destHost, "a", "t1", "3", "7", 2, "vm/web"⟩ "lost"

def webAccept (incarnation : String) : ClaimAccept :=
  ⟨"b", "i1", 1, ⟨.vm, "web", 7, 0, incarnation⟩, ⟨4, "a", [1, 2]⟩, "d"⟩

/-- With a hash that keeps every byte: two destinations, and a legacy and a scoped key. -/
theorem web_preimages_injective :
    let _ := Sha256.verbatim
    (∀ d, (webRecovery "b").digest = .ok d → (webRecovery "c").digest ≠ .ok d) ∧
      acceptPayload (webAccept "") ≠ acceptPayload (webAccept "2026-01-01T00:00:00Z") ∧
      acceptPayload (webAccept "") ≠ abandonPayload "b" "p1" (webAccept "").key := by
  obtain ⟨values, accepts, abandonments⟩ := @preimages_injective Sha256.verbatim verbatim_injective
  refine ⟨fun d first second => ?_, fun same => ?_, abandonments _ _ _ _⟩
  · exact absurd (values _ _ d (by decide +kernel) (by decide +kernel) first second) (by decide)
  · exact absurd (accepts _ _ (by decide +kernel) (by decide +kernel) same) (by decide)

end Litevirt.Claims

import Mathlib

/-!
# Keys, ballots and values of a recovery claim

The data of `internal/corrosion/recovery_claims.go`: what one claim decides, the
ballots that order its proposals, and the values with the digest that names
them.  SHA-256 is a parameter; only the bytes that are hashed are modelled.
-/

namespace Litevirt.Claims

/-- The target kinds a claim knows; any other text is refused by `ClaimKey.validate`. -/
inductive TargetKind where
  | vm
  | container
  | voterConfig
  | other (text : String)
  deriving DecidableEq, Repr

def TargetKind.text : TargetKind → String
  | vm => "vm"
  | container => "container"
  | voterConfig => "voter_config"
  | other text => text

/-- `ClaimKey`; an empty incarnation makes it a legacy key. -/
structure ClaimKey where
  targetKind : TargetKind
  targetName : String
  ownerEpoch : Int
  attempt : Int
  incarnation : String
  deriving DecidableEq, Repr

namespace ClaimKey

def legacy (k : ClaimKey) : ClaimKey := { k with incarnation := "" }

def sameDecision (k o : ClaimKey) : Bool := k.legacy = o.legacy

def isVoterConfig (k : ClaimKey) : Bool := k.targetKind = .voterConfig

def isWorkload (k : ClaimKey) : Bool := k.targetKind = .vm || k.targetKind = .container

/-- The `%+v` form of a key. -/
def goFields (k : ClaimKey) : String :=
  "\x7bTargetKind:" ++ k.targetKind.text ++ " TargetName:" ++ k.targetName ++
    s!" OwnerEpoch:{k.ownerEpoch} Attempt:{k.attempt} Incarnation:{k.incarnation}\x7d"

def string (k : ClaimKey) : String :=
  let name :=
    if k.incarnation ≠ "" then k.targetName ++ "(" ++ k.incarnation ++ ")" else k.targetName
  k.targetKind.text ++ "/" ++ name ++ s!"@{k.ownerEpoch}#{k.attempt}"

/-- `ClaimKey.Validate`; `none` when the key is one a voter may record. -/
def validate (k : ClaimKey) : Option String :=
  if k.isVoterConfig then
    if k.targetName ≠ "" ∨ k.attempt ≠ 0 ∨ k.ownerEpoch < 0 ∨ k.incarnation ≠ "" then
      some ("a voter_config key is (voter_config, \"\", generation, 0), got " ++ k.goFields)
    else none
  else if k.isWorkload then
    if k.targetName = "" ∨ k.ownerEpoch < 0 ∨ k.attempt < 0 then
      some ("a workload key needs a target name and non-negative epoch and attempt, got " ++
        k.goFields)
    else none
  else some ("unknown claim target kind \"" ++ k.targetKind.text ++ "\"")

def voterConfig (g : Int) : ClaimKey := ⟨.voterConfig, "", g, 0, ""⟩

theorem not_isVoterConfig_of_isWorkload {k : ClaimKey} (workload : k.isWorkload = true) :
    k.isVoterConfig = false := by
  unfold isWorkload at workload
  unfold isVoterConfig
  cases kind : k.targetKind <;> simp_all

end ClaimKey

structure Ballot where
  round : UInt64
  coordinator : String
  nonce : List UInt8
  deriving DecidableEq, Repr

namespace Ballot

/-- The ballot of "nothing promised, nothing accepted". -/
def zero : Ballot := ⟨0, "", []⟩

def isZero (b : Ballot) : Bool := b.round = 0 && b.coordinator = "" && b.nonce = []

def compareBytes : List UInt8 → List UInt8 → Ordering
  | [], [] => .eq
  | [], _ :: _ => .lt
  | _ :: _, [] => .gt
  | x :: xs, y :: ys => if x < y then .lt else if y < x then .gt else compareBytes xs ys

/-- `CompareBallots`: the higher round, then the lower coordinator, then the
higher nonce ranks above. -/
def compareBallots (a b : Ballot) : Ordering :=
  if b.round < a.round then .gt
  else if a.round < b.round then .lt
  else if a.coordinator < b.coordinator then .gt
  else if b.coordinator < a.coordinator then .lt
  else compareBytes a.nonce b.nonce

def equal (b o : Ballot) : Bool := compareBallots b o == .eq

def hexDigits (byte : UInt8) : List Char :=
  [Nat.digitChar (byte.toNat / 16), Nat.digitChar (byte.toNat % 16)]

def string (b : Ballot) : String :=
  if b.isZero then "(none)"
  else s!"({b.round.toNat}, {b.coordinator}, " ++ String.ofList (b.nonce.flatMap hexDigits) ++ ")"

end Ballot

end Litevirt.Claims

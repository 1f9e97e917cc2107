import Litevirt.Claims.Electorates
import Litevirt.Claims.ImportSpec
import Litevirt.Claims.Visibility

/-!
# Claim values in transit

A value is copied into messages, stored as JSON and fetched by importers.  Only the members of a
configuration are touched on the way: reading a message sorts them.  `sort.Slice` fixes the order
of distinct names only, and a voter accepts no other names.  The texts of JSON and protobuf are
left to their libraries.
-/

namespace Litevirt.Claims

open Litevirt.Lib VoterConfig List Option VoterStanding

/-- `pb.RecoveryClaimValue`: the fields of a proof beside those of a configuration. -/
structure RecoveryClaimValue where
  fields : ActionProof
  sourceHost : String
  voterConfig : Option VoterConfigValue

/-- The fields of a message without a proof. -/
def noProof : ActionProof := ⟨"", "", .other "", "", "", "", "", "", "", 0, ""⟩

/-- `SortMembers` for some implementation of `sort.Slice`. -/
structure SortsByName (sort : List VoterMember → List VoterMember) : Prop where
  perm : ∀ members, (sort members).Perm members
  sorted : ∀ members, (sort members).Pairwise fun a b => a.name ≤ b.name

def valueFromPB (sort : List VoterMember → List VoterMember) (message : RecoveryClaimValue) :
    ClaimValue :=
  match message.voterConfig with
  | some cfg => .ofConfig { cfg with members := sort cfg.members }
  | none => .ofProof message.fields message.sourceHost

def valueToPB (v : ClaimValue) : RecoveryClaimValue :=
  match v.config with
  | some cfg => ⟨noProof, "", some cfg⟩
  | none => ⟨v.proof.getD noProof, v.sourceHost, none⟩

/-- The JSON object of a configuration; a nil list of members is `null`. -/
structure ConfigDocument where
  generation : Int
  members : Option (List VoterMember)
  change : VoterChange
  createdBy : String
  createdAt : String

/-- The JSON object of a value, without what `omitempty` leaves out. -/
structure ValueDocument where
  proof : Option ActionProof
  sourceHost : Option String
  config : Option ConfigDocument

/-- The column `value_json` as `saveClaimRowTx` writes it. -/
def marshalValue (v : ClaimValue) : ValueDocument where
  proof := v.proof
  sourceHost := if v.sourceHost = "" then none else some v.sourceHost
  config := v.config.map fun cfg =>
    ⟨cfg.generation, if cfg.members = [] then none else some cfg.members, cfg.change,
      cfg.createdBy, cfg.createdAt⟩

/-- The column as `scanClaimRow` reads it: what is missing is empty. -/
def unmarshalValue (document : ValueDocument) : ClaimValue where
  proof := document.proof
  sourceHost := document.sourceHost.getD ""
  config := document.config.map fun cfg =>
    ⟨cfg.generation, cfg.members.getD [], cfg.change, cfg.createdBy, cfg.createdAt⟩

/-- A state as `ListRecoveryClaims` sends it and `fetchImportSource` reads it. -/
def fetchedState (sort : List VoterMember → List VoterMember) (st : ClaimVoterState) :
    ClaimVoterState :=
  { st with value := st.value.map fun v => valueFromPB sort (valueToPB v)
            accept := none, configGeneration := 0 }

def proofBindingEqual (a b : ActionProof) : Bool :=
  a.action = b.action && a.targetKind = b.targetKind && a.targetName = b.targetName &&
    a.destHost = b.destHost && a.coordinator = b.coordinator &&
    a.relocationToken = b.relocationToken && a.fenceEpoch = b.fenceEpoch &&
    a.ownerEpoch = b.ownerEpoch && a.leaseTerm = b.leaseTerm && a.leaseKey = b.leaseKey

/-- Both values bind the same proof, or neither has one. -/
def SameBinding (v w : ClaimValue) : Prop :=
  Option.Rel (proofBindingEqual · · = true) v.proof w.proof

/-- A value goes over the wire, into a row and back, or to an importer. -/
inductive Trip (sort : List VoterMember → List VoterMember) : ClaimValue → ClaimValue → Prop
  | wire (v : ClaimValue) : Trip sort v (valueFromPB sort (valueToPB v))
  | stored (v : ClaimValue) : Trip sort v (unmarshalValue (marshalValue v))
  | fetched {st : ClaimVoterState} {v w : ClaimValue} (held : st.value = some v)
      (read : (fetchedState sort st).value = some w) : Trip sort v w

def AcceptedFromWire [Sha256] (sort : List VoterMember → List VoterMember) (v : ClaimValue) :
    Prop :=
  ∃ (message : RecoveryClaimValue) (db db' : VoterDB) (me : String) (key : ClaimKey) (b : Ballot)
    (gen : Int) (ownerChecked : Bool) (result : AcceptResult), v = valueFromPB sort message ∧
    db.claimAccept me key b v gen ownerChecked = .ok (.answer result, db') ∧ result.accepted = true

/-- A value that reading a message gives and reading it again keeps. -/
inductive Settled (sort : List VoterMember → List VoterMember) : ClaimValue → Prop
  | proof (proof : ActionProof) (sourceHost : String) : Settled sort (.ofProof proof sourceHost)
  | config {cfg : VoterConfigValue} (same : sort cfg.members = cfg.members) :
      Settled sort (.ofConfig cfg)

variable {sort : List VoterMember → List VoterMember} {v w : ClaimValue}

theorem SortsByName.idem (sorts : SortsByName sort) {members : List VoterMember}
    (once : ((sort members).map (·.name)).Nodup) : sort (sort members) = sort members := by
  refine List.Perm.eq_of_pairwise (fun a b first second below above => ?_) (sorts.sorted _)
    (sorts.sorted _) (sorts.perm _)
  exact inj_on_of_nodup_map once ((sorts.perm _).subset first) second
    (le_antisymm below above)

theorem validEntries_of_validateVoterChange {prev : Option VoterConfig} {next : VoterConfigValue}
    (valid : validateVoterChange prev next = none) : invalidEntry [] next.members = none := by
  unfold validateVoterChange at valid
  dsimp only at valid
  split at valid
  · cases valid
  split at valid
  · cases valid
  · assumption

theorem Settled.of_accepted [Sha256] (sorts : SortsByName sort)
    (accepted : AcceptedFromWire sort v) : Settled sort v := by
  obtain ⟨message, db, db', me, key, b, gen, ownerChecked, result, rfl, done, yes⟩ := accepted
  rcases VoterDB.claimAccept_ok done with ⟨-, refused⟩ | ⟨digest, -, admits, -⟩
  · rw [(refused result rfl).1] at yes
    cases yes
  unfold valueFromPB at admits ⊢
  split
  · rename_i cfg configured
    rw [configured] at admits
    refine .config (sorts.idem ?_)
    have admitted := admits.admitted
    cases workload : key.isWorkload with
    | true => cases (admit_workload workload admitted).2 _ rfl
    | false =>
      have valid := (admit_valid admitted).1
      have config : key.isVoterConfig = true := by
        by_contra other
        simp [ClaimKey.validate, other, workload] at valid
      have checked := (admit_voterConfig config admitted).2 _ rfl
      simp only [VoterStanding.admitConfigValue, ClaimValue.ofConfig] at checked
      split at checked
      · cases checked
      · exact (names_of_invalidEntry (validEntries_of_validateVoterChange
          (map_eq_none_iff.mp checked))).1
  · exact .proof _ _

theorem unmarshal_marshal (v : ClaimValue) : unmarshalValue (marshalValue v) = v := by
  obtain ⟨proof, source, config⟩ := v
  unfold unmarshalValue marshalValue
  congr
  · by_cases empty : source = "" <;> simp [empty]
  cases config with
  | none => rfl
  | some cfg =>
    obtain ⟨generation, members, change, createdBy, createdAt⟩ := cfg
    by_cases empty : members = [] <;> simp [empty]

theorem Settled.wire (settled : Settled sort v) : valueFromPB sort (valueToPB v) = v := by
  cases settled with
  | proof proof sourceHost => rfl
  | config same =>
    unfold valueFromPB valueToPB ClaimValue.ofConfig
    simp only [same]

theorem Settled.trip (settled : Settled sort v) (trip : Trip sort v w) : w = v := by
  cases trip with
  | wire => exact settled.wire
  | stored => exact unmarshal_marshal v
  | fetched held read =>
    rw [fetchedState, held, map_some, settled.wire] at read
    exact (Option.some.inj read).symm

theorem Settled.trips (settled : Settled sort v) (trips : Relation.ReflTransGen (Trip sort) v w) :
    w = v := by
  induction trips with
  | refl => rfl
  | tail _ trip ih =>
    subst ih
    exact settled.trip trip

theorem SameBinding.refl (v : ClaimValue) : SameBinding v v := by
  unfold SameBinding
  cases v.proof with
  | none => exact .none
  | some proof => exact .some (by simp [proofBindingEqual])

namespace VoterStanding

variable (st : VoterStanding) (key : ClaimKey) (gen : Int) (detail : String)

theorem memberCheck_ne_valueConflict (cfg : VoterConfigValue) :
    st.memberCheck cfg ≠ some (.valueConflict, detail) := by
  unfold memberCheck
  split
  · simp
  · split <;> simp

theorem adoptedCheck_ne_valueConflict : st.adoptedCheck ≠ some (.valueConflict, detail) := by
  unfold adoptedCheck
  split
  · exact st.memberCheck_ne_valueConflict detail _
  · nofun

theorem admitConfigValue_ne_valueConflict (v : ClaimValue) :
    st.admitConfigValue v ≠ some (.valueConflict, detail) := by
  unfold admitConfigValue
  split
  · dsimp only
    split
    · rename_i refusal found
      rw [← found]
      split
      · exact st.memberCheck_ne_valueConflict detail _
      · nofun
    · simp
  · simp

theorem admitWorkloadValue_ne_valueConflict (v : ClaimValue) :
    admitWorkloadValue key v ≠ some (.valueConflict, detail) := by
  unfold admitWorkloadValue
  grind

theorem admitVote_ne_valueConflict (value : Option ClaimValue) :
    st.admitVote key gen value ≠ some (.valueConflict, detail) := by
  have standing := st.adoptedCheck_ne_valueConflict detail
  have config := st.admitConfigValue_ne_valueConflict detail
  have workload := admitWorkloadValue_ne_valueConflict key detail
  unfold admitVote
  grind

end VoterStanding

namespace VoterDB

/-- A voter refuses a value for its digest only when it accepted another one at the ballot. -/
theorem claimAccept_valueConflict [Sha256] {db db' : VoterDB} {me : String} {key : ClaimKey}
    {b : Ballot} {gen : Int} {ownerChecked : Bool} {result : AcceptResult}
    (done : db.claimAccept me key b v gen ownerChecked = .ok (.answer result, db'))
    (refused : result.refusal = some .valueConflict) :
    v.digest ≠ .ok (db.state key).valueDigest := by
  intro same
  unfold claimAccept at done
  rw [same] at done
  dsimp only at done
  split at done
  · cases done
    cases refused
  obtain ⟨st, -, done⟩ := bind_eq_ok done
  split at done
  · rename_i detail admitted
    cases done
    obtain rfl := Option.some.inj refused
    exact st.admitVote_ne_valueConflict _ _ _ _ admitted
  split at done
  · cases done
    cases refused
  split at done
  · cases done
    cases refused
  split at done
  · rename_i conflict
    simp [state] at conflict
  have fresh : ∀ row, acceptNew db st key b v gen (db.state key).valueDigest row ownerChecked =
      (.answer result, db') → False := by
    intro row done
    unfold acceptNew at done
    split at done
    · split at done <;> cases done
    · cases done
      cases refused
  split at done
  · split at done
    · cases done
      cases refused
    · exact fresh _ (Except.ok.inj done)
  · exact fresh _ (Except.ok.inj done)

/-- An import of states whose values have their digests is not refused. -/
theorem bestStates_of_digested [Sha256] {sources : List String} {states : List ClaimVoterState}
    (digested : ∀ st ∈ states, st.Digested) (best : Table ClaimKey ClaimVoterState) :
    ∃ final, bestStates sources states best = .ok final := by
  induction states generalizing best with
  | nil => exact ⟨best, rfl⟩
  | cons st rest ih =>
    obtain ⟨v, held, digest⟩ := digested st mem_cons_self
    have later := ih fun other member => digested other (mem_cons_of_mem _ member)
    unfold bestStates
    rw [held]
    dsimp only
    split
    · exact later best
    rw [if_neg (by simp [digest, Except.toOption])]
    split
    · split
      · exact later _
      · exact later best
    · exact later _

end VoterDB

/-- Every value a voter accepts from the wire keeps its digest and its proof binding over any
number of trips; a voter that accepted it does not refuse it for its digest, and no import
of states with such values is refused. -/
theorem claim_values_survive [Sha256] (sorts : SortsByName sort) :
    (∀ v w, AcceptedFromWire sort v → Relation.ReflTransGen (Trip sort) v w →
      w.digest = v.digest ∧ SameBinding v w ∧
      ∀ (voter voter' : VoterDB) (me : String) (key : ClaimKey) (b : Ballot) (gen : Int)
        (ownerChecked : Bool) (result : AcceptResult),
        v.digest = .ok (voter.state key).valueDigest →
        voter.claimAccept me key b w gen ownerChecked = .ok (.answer result, voter') →
        result.refusal ≠ some .valueConflict) ∧
    ∀ (sources : List String) (states : List ClaimVoterState),
      (∀ st ∈ states, ∃ v w, AcceptedFromWire sort v ∧ Relation.ReflTransGen (Trip sort) v w ∧
        st.value = some w ∧ v.digest = .ok st.valueDigest) →
      ∀ best, ∃ final,
        VoterDB.bestStates sources (states.map (fetchedState sort)) best = .ok final := by
  refine ⟨fun v w accepted trips => ?_, fun sources states held best => ?_⟩
  · obtain rfl := (Settled.of_accepted sorts accepted).trips trips
    refine ⟨rfl, .refl w, fun voter voter' me key b gen ownerChecked result same done refused => ?_⟩
    exact VoterDB.claimAccept_valueConflict done refused same
  refine VoterDB.bestStates_of_digested (fun fetched member => ?_) best
  obtain ⟨st, source, rfl⟩ := mem_map.mp member
  obtain ⟨v, w, accepted, trips, value, digest⟩ := held st source
  have settled := Settled.of_accepted sorts accepted
  obtain rfl := settled.trips trips
  exact ⟨w, by rw [fetchedState, value, map_some, settled.wire], digest⟩

theorem sortsByName_sortMembers : SortsByName sortMembers :=
  ⟨fun _ => perm_insertionSort _ _, fun _ => pairwise_insertionSort _ _⟩

/-- What the sole voter accepts came from the wire. -/
theorem acceptedFromWire_sole {key : ClaimKey} {message : RecoveryClaimValue}
    (yes : (@VoterDB.claimAccept .verbatim soleVoter "a" key ⟨1, "a", [1]⟩
      (valueFromPB sortMembers message) 1 true).toOption.map (·.1.accepted) = some true) :
    @AcceptedFromWire .verbatim sortMembers (valueFromPB sortMembers message) := by
  rcases done : @VoterDB.claimAccept .verbatim soleVoter "a" key _
      (valueFromPB sortMembers message) 1 true with _ | ⟨out, db'⟩ <;> rw [done] at yes
  · cases yes
  cases out with
  | answer result => exact ⟨message, _, db', _, _, _, _, _, result, rfl, done, Option.some.inj yes⟩
  | needsOwnerCheck | needsSourceCheck => cases yes

/-- A message with the change that adds `b`, its members not sorted. -/
def addBMessage : RecoveryClaimValue :=
  ⟨noProof, "", some ⟨2, [⟨"b", "j"⟩, ⟨"a", "i"⟩], .add "b", "a", "t"⟩⟩

/-- A recovery, and a change whose members the sender did not sort, after they were accepted,
stored and sent on. -/
theorem claim_values_survive_web :
    (@AcceptedFromWire .verbatim sortMembers webValue ∧
      @ClaimValue.digest .verbatim (valueFromPB sortMembers (valueToPB
        (unmarshalValue (marshalValue webValue)))) = @ClaimValue.digest .verbatim webValue) ∧
    @AcceptedFromWire .verbatim sortMembers addB ∧
      @ClaimValue.digest .verbatim (valueFromPB sortMembers (valueToPB
        (unmarshalValue (marshalValue addB)))) = @ClaimValue.digest .verbatim addB := by
  have recovery : @AcceptedFromWire .verbatim sortMembers webValue :=
    @acceptedFromWire_sole webKey (valueToPB webValue) (by decide +kernel)
  have sorted : valueFromPB sortMembers addBMessage = addB := by decide +kernel
  have change : @AcceptedFromWire .verbatim sortMembers addB :=
    sorted ▸ @acceptedFromWire_sole (.voterConfig 1) addBMessage (by decide +kernel)
  have survive := (@claim_values_survive _ .verbatim sortsByName_sortMembers).1
  exact ⟨⟨recovery, (survive _ _ recovery (.tail (.single (.stored _)) (.wire _))).1⟩,
    change, (survive _ _ change (.tail (.single (.stored _)) (.wire _))).1⟩

end Litevirt.Claims

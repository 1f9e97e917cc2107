import Litevirt.Claims.Agreement
import Litevirt.Claims.Destinations
import Litevirt.Pause.Resume

/-!
# Resuming after a takeover

A majority of the voters accepted a recovery of the workload before they were asked.  Each of
them objects when it is asked, but the asking host counts itself without a look at its own claim
tables.  The check is safe exactly when the host itself had not accepted, or the others that
accepted are too many to be left out.  The owner check of `ClaimAccept` keeps the host from
accepting a value that is new to it; one that it imported with a voter generation is not checked.
-/

namespace Litevirt.Pause

open Litevirt.Lib Litevirt.Claims List Function

/-! ## The decision -/

namespace AnswerKind

def isClean : AnswerKind → Bool
  | clean => true
  | _ => false

def isObjection : AnswerKind → Bool
  | objects _ => true
  | _ => false

end AnswerKind

variable {rec_ : PauseRecord} {answers : List VoterAnswer}

/-- `DecideResume` confirms on enough clean answers and no objection. -/
theorem loop_ok {needOthers : Nat} {clean : Nat} {errs : List String} :
    (decideResume.loop rec_ needOthers answers clean errs).ok = true ↔
      (∀ a ∈ answers, (readAnswer rec_ a).isObjection = false) ∧
        needOthers ≤ clean + answers.countP fun a => (readAnswer rec_ a).isClean := by
  induction answers generalizing clean errs with
  | nil =>
    unfold decideResume.loop
    split
    · rename_i few
      simpa using few
    · rename_i enough
      simpa using not_lt.mp enough
  | cons a rest ih =>
    unfold decideResume.loop
    rw [forall_mem_cons, countP_cons]
    cases kind : readAnswer rec_ a with
    | objects reason => simp [AnswerKind.isObjection]
    | missing text => simp [ih, AnswerKind.isObjection, AnswerKind.isClean]
    | clean =>
      simp only [ih, AnswerKind.isObjection, AnswerKind.isClean, if_true, true_and]
      rw [Nat.add_assoc, Nat.add_comm 1]

/-! ## The answers -/

def recordRow (replica : Replica) (caller : String) (r : PauseRecord) : RowView :=
  match r.kind with
  | .vm => (replica.vm r.name).elim ⟨false, "", 0, ""⟩ fun (host, row) =>
    ⟨true, host, row.ownerEpoch, incarnationOf row.createdAt⟩
  | .ct => (replica.container caller r.name).elim ⟨false, "", 0, ""⟩ fun row =>
    ⟨true, caller, row.ownerEpoch, incarnationOf row.createdAt⟩

/-- The destination that a voter reports for a record; empty when it accepted none. -/
def reportedDest (db : VoterDB) (r : PauseRecord) : String :=
  if destOf db r.claimKey.legacy ≠ "" then destOf db r.claimKey.legacy else destOf db r.claimKey

def recordView (replica : Replica) (db : VoterDB) (caller : String) (r : PauseRecord) :
    PausedWorkloadView :=
  ⟨claimKindOf r.kind, r.name, recordRow replica caller r, reportedDest db r⟩

theorem mapM_workloadView (replica : Replica) (db : VoterDB) (caller : String)
    (recs : List PauseRecord) :
    (resumeRequest recs).mapM (workloadView replica db caller) =
      .ok (recs.map (recordView replica db caller)) := by
  unfold resumeRequest
  induction recs with
  | nil => rfl
  | cons r rest ih =>
    obtain ⟨kind, name, host, ownerEpoch, incarnation⟩ := r
    rw [map_cons, mapM_cons, ih]
    cases kind <;> rfl

theorem claimKind_text_inj {k other : PauseKind} {name name' : String}
    (same : (claimKindOf k).text ++ "/" ++ name = (claimKindOf other).text ++ "/" ++ name') :
    k = other ∧ name = name' := by
  have chars := congrArg String.toList same
  cases k <;> cases other <;>
    simp [claimKindOf, TargetKind.text, String.toList_append] at chars
  all_goals exact ⟨rfl, String.toList_inj.mp chars⟩

variable {r : PauseRecord} {recs : List PauseRecord}

theorem viewOf_recordView (replica : Replica) (db : VoterDB) (caller : String)
    (distinct : (recs.map PauseRecord.key).Nodup) (member : r ∈ recs) :
    viewOf (recs.map (recordView replica db caller)) r = some (recordView replica db caller r) := by
  unfold viewOf
  cases found : find? _ _ with
  | none =>
    rw [find?_eq_none] at found
    have missed := found (recordView replica db caller r)
      (mem_reverse.mpr (mem_map_of_mem member))
    simp [recordView] at missed
  | some v =>
    have among := mem_of_find?_eq_some found
    have matching := find?_some found
    obtain ⟨other, isRecord, rfl⟩ := mem_map.mp (mem_reverse.mp among)
    obtain ⟨kind, name⟩ : other.kind = r.kind ∧ other.name = r.name :=
      claimKind_text_inj (of_decide_eq_true matching)
    have same : other = r := inj_on_of_nodup_map distinct isRecord member (by
      rw [PauseRecord.key, PauseRecord.key, kind, name])
    rw [same]

/-- With a view for each record, each record gets its row and its destination. -/
theorem noteViews_spec {views : List PausedWorkloadView} {view : PauseRecord → PausedWorkloadView}
    (present : ∀ r ∈ recs, viewOf views r = some (view r)) (a : VoterAnswer) :
    (noteViews views recs a).err = a.err ∧ (noteViews views recs a).hostDown = a.hostDown ∧
      (∀ key, (∀ r ∈ recs, r.key ≠ key) → (noteViews views recs a).rows key = a.rows key ∧
        (noteViews views recs a).accepted key = a.accepted key) ∧
      ((recs.map PauseRecord.key).Nodup → ∀ r ∈ recs,
        (noteViews views recs a).rows r.key = some (view r).row ∧
          (noteViews views recs a).accepted r.key =
            if (view r).acceptedDest ≠ "" then some (view r).acceptedDest
            else a.accepted r.key) := by
  induction recs generalizing a with
  | nil => exact ⟨rfl, rfl, fun _ _ => ⟨rfl, rfl⟩, fun _ _ member => by cases member⟩
  | cons r rest ih =>
    obtain ⟨first, later⟩ := forall_mem_cons.mp present
    unfold noteViews
    simp only [first]
    obtain ⟨err, down, frame, own⟩ := ih later { a with
      rows := Function.update a.rows r.key (some (view r).row)
      accepted := if (view r).acceptedDest ≠ "" then
        Function.update a.accepted r.key (some (view r).acceptedDest) else a.accepted }
    refine ⟨err, down, fun key others => ?_, fun distinct other member => ?_⟩
    · obtain ⟨notFirst, notLater⟩ := forall_mem_cons.mp others
      obtain ⟨rows, accepted⟩ := frame key notLater
      refine ⟨rows.trans (update_of_ne (Ne.symm notFirst) _ _), accepted.trans ?_⟩
      split
      · exact update_of_ne (Ne.symm notFirst) _ _
      · rfl
    rw [map_cons, nodup_cons] at distinct
    rcases mem_cons.mp member with rfl | among
    · obtain ⟨rows, accepted⟩ := frame other.key fun r isLater same =>
        distinct.1 (same ▸ mem_map_of_mem isLater)
      refine ⟨rows.trans (update_self _ _ _), accepted.trans ?_⟩
      split
      · exact update_self _ _ _
      · rfl
    · obtain ⟨rows, accepted⟩ := own distinct.2 other among
      have apart : other.key ≠ r.key := fun same =>
        distinct.1 (same ▸ mem_map_of_mem among)
      refine ⟨rows, accepted.trans ?_⟩
      split
      · rfl
      split
      · exact update_of_ne apart _ _
      · rfl

/-! ## Voters that answer truthfully -/

/-- The calls of a pattern: a voter that is not reached gives an error, any other answers from its
replica and its claim tables. -/
def truthfulCall (unreached : String → Option String) (replicas : String → Replica)
    (dbs : String → VoterDB) (me voter : String) (request : List PausedWorkload) :
    Except String ConfirmResponse :=
  match unreached voter with
  | some text => .error text
  | none => confirmPartitionResume voter (replicas voter) (dbs voter) me request

/-- The voter holds an accepted destination for the record. -/
def Holds (r : PauseRecord) (db : VoterDB) : Prop :=
  destOf db r.claimKey ≠ "" ∨ destOf db r.claimKey.legacy ≠ ""

instance (r : PauseRecord) (db : VoterDB) : Decidable (Holds r db) :=
  inferInstanceAs (Decidable (_ ∨ _))

variable {db : VoterDB}

theorem reportedDest_ne_empty : reportedDest db r ≠ "" ↔ Holds r db := by
  unfold reportedDest Holds
  split
  · rename_i present
    simp [present]
  · rename_i absent
    simp [not_not.mp absent]

section Answers

variable {unreached : String → Option String} {replicas : String → Replica}
  {dbs : String → VoterDB} {me voter : String} {recs : List PauseRecord} {rec_ : PauseRecord}

def answerKind (unreached : String → Option String) (replicas : String → Replica)
    (dbs : String → VoterDB) (me : String) (recs : List PauseRecord) (rec_ : PauseRecord)
    (voter : String) : AnswerKind :=
  readAnswer rec_ (askPartitionResume voter
    (truthfulCall unreached replicas dbs me voter (resumeRequest recs)) recs)

theorem answerKind_unreached {text : String} (silent : unreached voter = some text) :
    answerKind unreached replicas dbs me recs rec_ voter = .missing (voter ++ ": " ++ text) := by
  simp [answerKind, truthfulCall, silent, askPartitionResume, readAnswer]

theorem answer_reached (replicas : String → Replica) (dbs : String → VoterDB) (named : me ≠ "")
    (distinct : (recs.map PauseRecord.key).Nodup) (member : rec_ ∈ recs)
    (reached : unreached voter = none) :
    ∃ a, answerKind unreached replicas dbs me recs rec_ voter = readAnswer rec_ a ∧ a.err = none ∧
      a.hostDown = decide (((replicas voter).hostState me).getD "absent" = "fenced" ∨
        ((replicas voter).hostState me).getD "absent" = "offline" ∨
        ((replicas voter).hostState me).getD "absent" = "absent") ∧
      a.rows rec_.key = some (recordRow (replicas voter) me rec_) ∧
      a.accepted rec_.key =
        if reportedDest (dbs voter) rec_ ≠ "" then some (reportedDest (dbs voter) rec_)
        else none := by
  have answered : truthfulCall unreached replicas dbs me voter (resumeRequest recs) =
      .ok ⟨voter, ((replicas voter).hostState me).getD "absent",
        recs.map (recordView (replicas voter) (dbs voter) me)⟩ := by
    unfold truthfulCall confirmPartitionResume
    rw [reached]
    simp only [if_neg named, mapM_workloadView]
    rfl
  have views := fun r (isRecord : r ∈ recs) =>
    viewOf_recordView (replicas voter) (dbs voter) me distinct isRecord
  obtain ⟨err, down, -, own⟩ := noteViews_spec views
    ⟨voter, none, _, ((replicas voter).hostState me).getD "absent", fun _ => none, fun _ => none⟩
  refine ⟨_, rfl, ?_⟩
  rw [answered]
  exact ⟨err, down, own distinct rec_ member⟩

/-! ## Patterns of answers -/

/-- The voters other than the host that hold no accepted destination. -/
def freeVoters (voters : List String) (me : String) (rec_ : PauseRecord) (dbs : String → VoterDB) :
    List String :=
  voters.filter fun voter => voter ≠ me ∧ ¬ Holds rec_ (dbs voter)

variable {voters : List String}

theorem check_ok_iff :
    (checkPartitionResume me (.ok voters) (truthfulCall unreached replicas dbs me) recs rec_).ok =
        true ↔
      (∀ voter ∈ voters, voter ≠ me →
        (answerKind unreached replicas dbs me recs rec_ voter).isObjection = false) ∧
        needOthers voters me ≤ voters.countP fun voter =>
          voter ≠ me && (answerKind unreached replicas dbs me recs rec_ voter).isClean := by
  unfold checkPartitionResume decideResume
  rw [loop_ok, Nat.zero_add, countP_map]
  have perm := perm_insertionSort (· ≤ ·) (voters.filter (· ≠ me))
  rw [perm.countP_eq, countP_filter]
  refine and_congr ⟨fun all voter member other => ?_, fun all a made => ?_⟩ ?_
  · refine all _ (mem_map_of_mem (perm.mem_iff.mpr ?_))
    exact mem_filter.mpr ⟨member, by simpa using other⟩
  · obtain ⟨voter, among, rfl⟩ := mem_map.mp made
    obtain ⟨member, other⟩ := mem_filter.mp (perm.mem_iff.mp among)
    exact all voter member (by simpa using other)
  · refine Eq.to_iff (congrArg _ (countP_congr fun voter _ => ?_))
    simp [answerKind, and_comm]

theorem countP_clean_le (named : me ≠ "") (distinct : (recs.map PauseRecord.key).Nodup)
    (member : rec_ ∈ recs) :
    (voters.countP fun voter =>
        voter ≠ me && (answerKind unreached replicas dbs me recs rec_ voter).isClean) ≤
      (freeVoters voters me rec_ dbs).length := by
  rw [freeVoters, ← countP_eq_length_filter]
  refine countP_mono_left fun voter _ clean => ?_
  simp only [Bool.and_eq_true, decide_eq_true_eq] at clean
  refine decide_eq_true ⟨clean.1, fun holds => ?_⟩
  cases silent : unreached voter with
  | some text =>
    rw [answerKind_unreached silent] at clean
    cases clean.2
  | none =>
    -- a voter that is reached objects to what it accepted
    obtain ⟨a, read, err, -, -, accepted⟩ := answer_reached replicas dbs named distinct member
      silent
    rw [if_pos (reportedDest_ne_empty.mpr holds)] at accepted
    rw [read, readAnswer, err] at clean
    simp only [accepted] at clean
    split at clean <;> cases clean.2

/-- Some pattern of truthful answers confirms the record exactly when the voters without a
destination are enough. -/
theorem confirms_iff (own : rec_.host = me) (named : me ≠ "") (stamped : rec_.incarnation ≠ "")
    (distinct : (recs.map PauseRecord.key).Nodup) (member : rec_ ∈ recs) :
    (∃ unreached replicas, (checkPartitionResume me (.ok voters)
        (truthfulCall unreached replicas dbs me) recs rec_).ok = true) ↔
      needOthers voters me ≤ (freeVoters voters me rec_ dbs).length := by
  constructor
  · rintro ⟨unreached, replicas, confirmed⟩
    exact (check_ok_iff.mp confirmed).2.trans (countP_clean_le named distinct member)
  intro enough
  -- those that hold a destination stay silent, and the others have the host up with its row
  let silent : String → Option String := fun voter =>
    if Holds rec_ (dbs voter) then some "unreachable" else none
  let replica : Replica := ⟨fun _ => some "online",
    fun _ => some (rec_.host, ⟨rec_.ownerEpoch, rec_.incarnation⟩),
    fun _ _ => some ⟨rec_.ownerEpoch, rec_.incarnation⟩⟩
  have row : recordRow replica me rec_ =
      ⟨true, rec_.host, rec_.ownerEpoch, rec_.incarnation⟩ := by
    unfold recordRow
    cases rec_.kind <;> simp [replica, incarnationOf, stamped, own]
  have free : ∀ voter, ¬ Holds rec_ (dbs voter) →
      answerKind silent (fun _ => replica) dbs me recs rec_ voter = .clean := by
    intro voter lacks
    have reached : silent voter = none := if_neg lacks
    obtain ⟨a, read, err, down, rows, accepted⟩ := answer_reached (fun _ => replica) dbs named
      distinct member reached
    rw [if_neg (reportedDest_ne_empty.not.mpr lacks)] at accepted
    have isUp : a.hostDown = false := by simp [down, replica]
    rw [read, readAnswer, err]
    simp only [isUp, accepted, rows, row]
    simp
  refine ⟨silent, fun _ => replica, check_ok_iff.mpr ⟨fun voter _ _ => ?_, enough.trans ?_⟩⟩
  · by_cases holds : Holds rec_ (dbs voter)
    · rw [answerKind_unreached (if_pos holds)]
      rfl
    · rw [free voter holds]
      rfl
  · rw [freeVoters, ← countP_eq_length_filter]
    refine countP_mono_left fun voter _ lacks => ?_
    simp only [decide_eq_true_eq] at lacks
    simp [lacks.1, free voter lacks.2, AnswerKind.isClean]

end Answers

/-! ## Counting -/

/-- The voters without a destination are too few, unless the host is one of those that accepted
and the others that accepted are just the rest of a majority. -/
theorem freeVoters_few_iff {voters holders : List String} {me : String} {dbs : String → VoterDB}
    (nodup : voters.Nodup) (majority : Majority voters holders)
    (held : ∀ voter ∈ voters, voter ∈ holders ↔ Holds rec_ (dbs voter)) :
    (freeVoters voters me rec_ dbs).length < needOthers voters me ↔
      me ∉ holders ∨ voters.length < holders.length + voters.length / 2 := by
  have many := majority.many
  have apart : (freeVoters voters me rec_ dbs ++ holders).Nodup := by
    refine nodup_append.mpr ⟨nodup.filter _, majority.nodup, ?_⟩
    rintro voter among _ isHolder rfl
    obtain ⟨isVoter, free⟩ := mem_filter.mp among
    exact (of_decide_eq_true free).2 ((held voter isVoter).mp isHolder)
  have within : freeVoters voters me rec_ dbs ++ holders ⊆ voters :=
    append_subset.mpr ⟨filter_sublist.subset, majority.subset⟩
  by_cases accepted : me ∈ holders
  · have isVoter := majority.subset accepted
    have all : voters ⊆ freeVoters voters me rec_ dbs ++ holders := by
      intro voter member
      by_cases isHolder : voter ∈ holders
      · exact mem_append_right _ isHolder
      refine mem_append_left _ (mem_filter.mpr ⟨member, decide_eq_true ⟨?_, ?_⟩⟩)
      · rintro rfl
        exact isHolder accepted
      · exact (held voter member).not.mp isHolder
    have exact_ := ((perm_ext_iff_of_nodup apart nodup).mpr
      fun voter => ⟨fun among => within among, fun among => all among⟩).length_eq
    rw [length_append] at exact_
    simp only [needOthers, isVoter, accepted, if_true, not_true, false_or]
    omega
  · have bound := (subperm_of_subset apart within).length_le
    rw [length_append] at bound
    simp only [accepted, not_false_iff, true_or, iff_true]
    unfold needOthers
    simp only
    split
    · rename_i isVoter
      have meFree : me ∉ freeVoters voters me rec_ dbs := fun among => by
        simpa using (mem_filter.mp among).2
      have withMe : (me :: (freeVoters voters me rec_ dbs ++ holders)).Nodup :=
        nodup_cons.mpr ⟨fun among => (mem_append.mp among).elim meFree accepted, apart⟩
      have bound := (subperm_of_subset withMe (cons_subset.mpr ⟨isVoter, within⟩)).length_le
      rw [length_cons, length_append] at bound
      omega
    · omega

/-! ## Histories -/

/-- `checkClaimOwner`, in front of the accept of a value that is new to the voter: `settled` is the
owner its row is settled on, `probe` whether the probe of the source reaches it. -/
def checkClaimOwner (me : String) (key : ClaimKey) (v : ClaimValue)
    (settled : Except String (Option String)) (probe : Option (Option String))
    (probeSource : Bool) : Option String :=
  if v.sourceHost = me then some (me ++ " is the owner")
  else
    match settled with
    | .error problem =>
      some (me ++ " cannot read its own row for " ++ key.string ++ ": " ++ problem)
    | .ok owner =>
      if owner.any (· ≠ v.sourceHost) then
        some (me ++ "'s settled row for " ++ key.targetKind.text ++ "/" ++ key.targetName ++
          s!" at epoch {key.ownerEpoch} names " ++ owner.getD "" ++ ", not " ++ v.sourceHost)
      else if !probeSource then none
      else
        match probe with
        | none => some (me ++ " has no owner probe wired")
        | some (some detail) =>
          some (me ++ " still reaches " ++ v.sourceHost ++ " (" ++ detail ++ ")")
        | some none => none

/-- An accept that the owner check precedes passed it, whatever the row and the probe were. -/
def OwnerKept (s : Cluster) : Action → Prop
  | .node (.accept i voter true) => ∀ req ∈ s.accepts[i]?, ∃ settled probe probeSource,
      checkClaimOwner voter req.key req.value settled probe probeSource = none
  | _ => True

theorem passes_iff {me : String} {key : ClaimKey} {v : ClaimValue} :
    (∃ settled probe probeSource, checkClaimOwner me key v settled probe probeSource = none) ↔
      v.sourceHost ≠ me := by
  constructor
  · rintro ⟨settled, probe, probeSource, passes⟩ own
    simp [checkClaimOwner, own] at passes
  · intro other
    exact ⟨.ok none, some none, true, by simp [checkClaimOwner, other]⟩

instance (s : Cluster) : ∀ action, Decidable (OwnerKept s action)
  | .node (.accept i voter true) =>
    decidable_of_iff (∀ req ∈ s.accepts[i]?, req.value.sourceHost ≠ voter)
      (forall₂_congr fun _ _ => passes_iff.symm)
  | .node (.accept _ _ false) | .node (.prepare _ _) | .node (.learn _ _)
  | .node (.listClaims _ _) | .node (.adopt _ _) | .node (.reimage _ _) | .proposer _ =>
    .isTrue trivial

theorem claimKey_isWorkload (r : PauseRecord) :
    r.claimKey.isWorkload = true ∧ r.claimKey.legacy.isWorkload = true := by
  unfold PauseRecord.claimKey ClaimKey.legacy ClaimKey.isWorkload
  cases r.kind <;> exact ⟨rfl, rfl⟩

theorem destOf_ne_empty {key : ClaimKey} {v : ClaimValue} (value : (db.state key).value = some v)
    (names : v.NamesDest) : destOf db key ≠ "" := by
  obtain ⟨p, isProof, named⟩ := names
  have loaded : (db.loadClaimRowTx key).1.value = some v := value
  simpa only [destOf, loaded, isProof] using named

/-- In a run from voters that had not voted, the voter accepted a value for the record, and it kept
its state until it answered from `db`. -/
structure AcceptedEarlier [Sha256] (r : PauseRecord) (voter : String) (db : VoterDB) : Prop where
  intro ::
  history : ∃ nodes before after last key i checked, (∀ n k, (nodes n).state k = .empty k) ∧
    (key = r.claimKey ∨ key = r.claimKey.legacy) ∧
    Run Cluster.step OwnerKept (.start nodes) before ∧
    OwnerKept before (.node (.accept i voter checked)) ∧
    ((before.accepts[i]?).map (·.key) = some key ∧ before.answersAccept i voter checked = true ∧
      before.accept i voter checked = some after) ∧
    Run Cluster.step (fun s action => OwnerKept s action ∧
      ∀ incarnation, action ≠ .node (.reimage voter incarnation)) after last ∧
    last.nodes voter = db

theorem AcceptedEarlier.holds [Sha256] {voter : String} (earlier : AcceptedEarlier r voter db) :
    Holds r db := by
  obtain ⟨nodes, before, after, last, key, i, checked, unvoted, isKey, first, -, accept, later,
    rfl⟩ := earlier.history
  have accepts : before.Accepts voter key after := ⟨i, checked, accept⟩
  have workload : key.isWorkload = true := by
    rcases isKey with rfl | rfl
    · exact (claimKey_isWorkload r).1
    · exact (claimKey_isWorkload r).2
  have naming : before.Naming := first.invariant Cluster.Naming (Cluster.naming_start unvoted)
    fun _ _ _ _ done naming => Cluster.naming_step done naming
  obtain ⟨lastNaming, held⟩ := later.invariant
    (fun s => s.Naming ∧ ((s.nodes voter).state key).value.isSome = true)
    ⟨accepts.naming naming, accepts.value_isSome workload naming⟩
    fun _ _ _ keeps done ⟨naming, held⟩ =>
      ⟨Cluster.naming_step done naming, Cluster.value_isSome_step done keeps.2 workload held⟩
  obtain ⟨v, value⟩ := Option.isSome_iff_exists.mp held
  have reported := destOf_ne_empty value ((lastNaming.nodes voter key workload).dest v value)
  rcases isKey with rfl | rfl
  · exact .inl reported
  · exact .inr reported

attribute [local instance] Sha256.checksum

def webPaused (host : String) : PauseRecord := ⟨.vm, "web", host, 0, "t"⟩

/-- The recovery of `web` from `a` to `c`. -/
def webFromA : ClaimValue :=
  .ofProof ⟨"p", "reschedule", .vm, "web", "c", "b", "", "", "0", 1, ""⟩ "a"

/-- A decision of `b`, up to the accepts. -/
def decides (nonce : List UInt8) (call : Nat) (startRound : UInt64) (voters : List String)
    (replies : List Nat) : List Action :=
  [.proposer (.boot "b" nonce),
    .proposer (.decideRecovery nonce webKey webFromA startRound fun _ => true),
    .proposer (.beginRound call)] ++ voters.map (fun voter => .node (.prepare call voter)) ++
  [.proposer (.countPromises call replies)]

/-- The actions from a cluster; `none` when one is refused or breaks the owner check. -/
def perform (actions : List Action) (s : Cluster) : Option Cluster :=
  execWhile Cluster.step (fun s action => decide (OwnerKept s action)) actions s

/-- The voter accepts the request for `web`, in line with the owner check. -/
def accepting (i : Nat) (voter : String) (checked : Bool) (s : Cluster) : Option Cluster :=
  if OwnerKept s (.node (.accept i voter checked)) ∧
      (s.accepts[i]?).map (·.key) = some webKey ∧ s.answersAccept i voter checked = true then
    s.accept i voter checked
  else none

/-- Two voters accept one after the other at the end of a history. -/
theorem accepted_both {node : VoterDB} (unvoted : ∀ k, node.state k = .empty k)
    {before : Option Cluster} (run : ∀ s, before = some s →
      Run Cluster.step OwnerKept (.start fun _ => node) s)
    {x y : String} {i : Nat} {checked : Bool} (goal : Cluster → Prop) [DecidablePred goal]
    (reached : ((before.bind (accepting i x checked)).bind (accepting i y checked)).any
      (fun last => decide (goal last)) = true) :
    ∃ last, (∀ voter ∈ [x, y], AcceptedEarlier (webPaused "a") voter (last.nodes voter)) ∧
      goal last := by
  cases ends : (before.bind (accepting i x checked)).bind (accepting i y checked) with
  | none => simp [ends] at reached
  | some last =>
  obtain ⟨between, done, second⟩ := Option.bind_eq_some_iff.mp ends
  obtain ⟨before, performed, first⟩ := Option.bind_eq_some_iff.mp done
  obtain ⟨⟨keptX, keyX, acceptsX⟩, doneX⟩ := Option.ite_none_right_eq_some.mp first
  obtain ⟨⟨keptY, keyY, acceptsY⟩, doneY⟩ := Option.ite_none_right_eq_some.mp second
  have stepX : Cluster.step before (.node (.accept i x checked)) = some between := doneX
  have stepY : Cluster.step between (.node (.accept i y checked)) = some last := doneY
  refine ⟨last, fun voter member => ?_, by simpa [ends] using reached⟩
  rcases mem_pair.mp member with rfl | rfl
  · exact ⟨_, before, between, last, webKey, i, checked, fun _ => unvoted, .inr rfl,
      run before performed, keptX, ⟨keyX, acceptsX, doneX⟩,
      .tail (.refl _) ⟨keptY, by nofun⟩ stepY, rfl⟩
  · exact ⟨_, between, last, last, webKey, i, checked, fun _ => unvoted, .inr rfl,
      .tail (run before performed) keptX stepX, keptY, ⟨keyY, acceptsY, doneY⟩, .refl _, rfl⟩

theorem run_of_perform {node : VoterDB} {actions : List Action} {s last : Cluster}
    (run : Run Cluster.step OwnerKept (.start fun _ => node) s)
    (performed : perform actions s = some last) :
    Run Cluster.step OwnerKept (.start fun _ => node) last :=
  .of_execWhile (fun _ _ => of_decide_eq_true) run performed

/-- The replica of a voter that has not heard of the recovery. -/
def staleReplica : Replica where
  hostState _ := some "online"
  vm _ := some ("a", ⟨0, "t"⟩)
  container _ _ := none

def pairNode : VoterDB :=
  { soleVoter with
    voterConfigs := [⟨⟨1, [⟨"b", "i"⟩, ⟨"c", "i"⟩], .genesis, "b", "t"⟩, "", none⟩] }

/-- `b`, which does not reach `a`, accepts the recovery; then `a` is back, and `b` and `c` add it
to the voters. -/
def joining : List Action :=
  decides [1] 0 1 ["b", "c"] [0, 1] ++ [.node (.accept 0 "b" true),
    .proposer (.decideVoterChange [1] ⟨.add, "a", [], "b", 1⟩ "t"), .proposer (.beginRound 1),
    .node (.prepare 1 "b"), .node (.prepare 1 "c"), .proposer (.countPromises 1 [2, 3]),
    .node (.accept 1 "b" false), .node (.accept 1 "c" false)]

/-- The row of the generation that was decided, with the accepts as its certificate. -/
def joinedRow (s : Cluster) : Option VoterConfig := do
  let req ← s.accepts[1]?
  let config ← req.value.config
  let digest ← req.value.digest.toOption
  some ⟨config, membersHash config.members, some ⟨req.key, req.generation, req.ballot, digest,
    req.value.sourceHost, s.signed.filter (·.key = req.key)⟩⟩

/-- `a` and `b` adopt the generation, `a` with what `b` had accepted, and `b` proposes again. -/
def rejoining (row : VoterConfig) : List Action :=
  [.node (.listClaims "b" 1), .node (.listClaims "c" 1), .node (.learn "a" row),
    .node (.learn "b" row), .node (.adopt "a" [0, 1]), .node (.adopt "b" [0, 1])] ++
  decides [2] 2 2 ["a", "b"] [4, 5]

def rejoined : Option Cluster :=
  (perform joining (.start fun _ => pairNode)).bind fun s =>
    (joinedRow s).bind fun row => perform (rejoining row) s

end Litevirt.Pause

import Litevirt.Hlc.Timestamp

/-!
# Audit key lifecycle

The signed adoptions and retirements of audit keys, as `internal/corrosion/audit_rotate.go` reads
them.  `verifiedLifecycleRows` keeps the records that check out and adds the generations of the
two certificates; `reduceLifecycle` folds those whose signers had standing into one sequence for
each event.  A Go map is a function to `Option`, and a Go string is its bytes.
-/

namespace Litevirt.Audit

open Litevirt.Hlc List Function Option

/-! ## Records -/

inductive LifecycleEvent where
  | adopted
  | retired
  | other (text : Bytes)
  deriving DecidableEq, Repr

/-- The `by_key_id` of a record that is signed with the cluster CA key. -/
def auditCASigner : Bytes := bytes "cluster-ca"

/-- `lifecycleKey`: one host's claim on one signing key. -/
structure LifecycleKey where
  host : Bytes
  keyID : Bytes
  deriving DecidableEq, Repr

/-- `lifecycleRow`: a record that passed the signature and ownership checks. -/
structure LifecycleRow where
  host : Bytes
  keyID : Bytes
  event : LifecycleEvent
  byKeyID : Bytes
  seq : Int
  subjectGeneration : Int
  signerGeneration : Int
  deriving DecidableEq, Repr

namespace LifecycleRow

def key (r : LifecycleRow) : LifecycleKey := ⟨r.host, r.keyID⟩

def signer (r : LifecycleRow) : LifecycleKey := ⟨r.host, r.byKeyID⟩

def selfAdopts (key : LifecycleKey) (r : LifecycleRow) : Bool :=
  r.key = key ∧ r.event = .adopted ∧ r.byKeyID = r.keyID

end LifecycleRow

/-! ## Standing -/

/-- The strictest value wins: the latest adoption and the earliest retirement. -/
def stricter (event : LifecycleEvent) (prev : Option Int) (seq : Int) : Option Int :=
  match prev with
  | none => some seq
  | some prev =>
    if (event = .adopted ∧ prev < seq) ∨ (event = .retired ∧ seq < prev) then some seq
    else some prev

def earlier (prev : Option Int) (seq : Int) : Option Int :=
  match prev with
  | none => some seq
  | some cur => if seq < cur then some seq else some cur

def noteAdoption (adopted : LifecycleKey → Option Int) (r : LifecycleRow) :
    LifecycleKey → Option Int :=
  if r.event ≠ .adopted ∨ r.byKeyID ≠ r.keyID then adopted
  else Function.update adopted r.key (earlier (adopted r.key) r.seq)

/-- The first pass: the earliest adoption each key signed itself. -/
def firstAdopted (rows : List LifecycleRow) : LifecycleKey → Option Int :=
  rows.foldl noteAdoption fun _ => none

/-- Whether the signer of a record may speak for the key it names: the key itself, the cluster
CA, or a key adopted later (of a later generation, when the key it names never adopted), and
then only to retire it. -/
def hasStanding (adopted : LifecycleKey → Option Int) (r : LifecycleRow) : Bool :=
  if r.byKeyID ≠ r.keyID ∧ r.byKeyID ≠ auditCASigner then
    match adopted r.signer with
    | none => false
    | some signerAdopted =>
      match adopted r.key with
      | some subjectAdopted => r.event = .retired ∧ subjectAdopted < signerAdopted
      | none => r.event = .retired ∧ r.subjectGeneration < r.signerGeneration
  else true

variable {r : LifecycleRow}

theorem hasStanding_iff {adopted : LifecycleKey → Option Int} :
    hasStanding adopted r = true ↔
      (r.byKeyID = r.keyID ∨ r.byKeyID = auditCASigner) ∨
        r.event = .retired ∧ ∃ signerAdopted, adopted r.signer = some signerAdopted ∧
          ((∃ subjectAdopted, adopted r.key = some subjectAdopted ∧
              subjectAdopted < signerAdopted) ∨
            adopted r.key = none ∧ r.subjectGeneration < r.signerGeneration) := by
  unfold hasStanding
  by_cases own : r.byKeyID = r.keyID
  · simp [own]
  by_cases byCA : r.byKeyID = auditCASigner
  · simp [byCA]
  cases adopted r.signer with
  | none => simp [own, byCA]
  | some signerAdopted => cases adopted r.key <;> simp [own, byCA]

/-! ## Reduction -/

def noteStanding (adopted : LifecycleKey → Option Int)
    (out : LifecycleKey → LifecycleEvent → Option Int) (r : LifecycleRow) :
    LifecycleKey → LifecycleEvent → Option Int :=
  if hasStanding adopted r then
    Function.update out r.key
      (Function.update (out r.key) r.event (stricter r.event (out r.key r.event) r.seq))
  else out

def reduceLifecycle (rows : List LifecycleRow) : LifecycleKey → LifecycleEvent → Option Int :=
  rows.foldl (noteStanding (firstAdopted rows)) fun _ _ => none

def retirementsFrom (lifecycle : LifecycleKey → LifecycleEvent → Option Int) :
    LifecycleKey → Option Int :=
  fun key => lifecycle key .retired

/-! ## What the passes compute -/

theorem min?_concat (values : List Int) (value : Int) :
    (values ++ [value]).min? = earlier values.min? value := by
  cases values with
  | nil => rfl
  | cons first rest =>
    rw [cons_append, min?_cons', min?_cons', foldl_append, foldl_cons,
      foldl_nil, earlier]
    split
    · rw [Int.min_eq_right (by omega)]
    · rw [Int.min_eq_left (by omega)]

variable {key : LifecycleKey}

theorem noteAdoption_selfAdopts
    (own : r.selfAdopts key = true) (adopted : LifecycleKey → Option Int) :
    noteAdoption adopted r key = earlier (adopted key) r.seq := by
  simp only [LifecycleRow.selfAdopts, decide_eq_true_eq] at own
  obtain ⟨rfl, isAdoption, bySelf⟩ := own
  rw [noteAdoption, if_neg (by simp [isAdoption, bySelf]), update_self]

theorem noteAdoption_other
    (other : ¬ r.selfAdopts key = true) (adopted : LifecycleKey → Option Int) :
    noteAdoption adopted r key = adopted key := by
  unfold noteAdoption
  split
  · rfl
  rename_i own
  refine update_of_ne ?_ _ _
  rintro rfl
  exact other (by simpa [LifecycleRow.selfAdopts] using own)

theorem firstAdopted_eq (rows : List LifecycleRow) (key : LifecycleKey) :
    firstAdopted rows key = ((rows.filter (LifecycleRow.selfAdopts key)).map (·.seq)).min? := by
  induction rows using List.reverseRecOn with
  | nil => rfl
  | append_singleton rows r ih =>
    rw [firstAdopted, foldl_append, foldl_cons, foldl_nil, ← firstAdopted,
      filter_append]
    by_cases own : r.selfAdopts key = true
    · rw [noteAdoption_selfAdopts own, ih, filter_cons_of_pos own, filter_nil,
        map_append, map_singleton, min?_concat]
    · rw [noteAdoption_other own, ih, filter_cons_of_neg own, filter_nil,
        append_nil]

def retires (adopted : LifecycleKey → Option Int) (key : LifecycleKey) (r : LifecycleRow) : Bool :=
  hasStanding adopted r ∧ r.key = key ∧ r.event = .retired

theorem noteStanding_other {adopted : LifecycleKey → Option Int}
    (other : ¬ retires adopted key r = true) (out : LifecycleKey → LifecycleEvent → Option Int) :
    noteStanding adopted out r key .retired = out key .retired := by
  unfold noteStanding
  split
  · rename_i standing
    by_cases here : key = r.key
    · subst here
      rw [update_self]
      refine update_of_ne (fun isRetirement => ?_) _ _
      exact other (by simp [retires, standing, ← isRetirement])
    · rw [update_of_ne here]
  · rfl

theorem reduceLifecycle_retired (rows : List LifecycleRow) (key : LifecycleKey) :
    reduceLifecycle rows key .retired =
      ((rows.filter (retires (firstAdopted rows) key)).map (·.seq)).min? := by
  unfold reduceLifecycle
  generalize firstAdopted rows = adopted
  induction rows using List.reverseRecOn with
  | nil => rfl
  | append_singleton rows r ih =>
    rw [foldl_append, foldl_cons, foldl_nil, filter_append]
    by_cases stands : retires adopted key r = true
    · rw [filter_cons_of_pos stands, filter_nil, map_append, map_singleton, min?_concat, ← ih]
      simp only [retires, decide_eq_true_eq] at stands
      obtain ⟨standing, rfl, isRetirement⟩ := stands
      rw [noteStanding, if_pos standing, update_self, isRetirement, update_self]
      cases foldl (noteStanding adopted) _ rows r.key .retired <;> simp [stricter, earlier]
    · rw [noteStanding_other stands, ih, filter_cons_of_neg stands, filter_nil,
        append_nil]

variable {rows : List LifecycleRow} {seq : Int}

theorem leastSeq_eq_some {chosen : LifecycleRow → Bool} :
    ((rows.filter chosen).map (·.seq)).min? = some seq ↔
      (∃ r ∈ rows, chosen r = true ∧ r.seq = seq) ∧ ∀ r ∈ rows, chosen r = true → seq ≤ r.seq := by
  rw [min?_eq_some_iff]
  simp only [List.mem_map, mem_filter, and_assoc, forall_exists_index, and_imp]
  refine and_congr_right fun _ =>
    ⟨fun least r member own => ?_, fun least b r member own same => ?_⟩
  · exact least r.seq r member own rfl
  · exact same ▸ least r member own

theorem firstAdopted_eq_some :
    firstAdopted rows key = some seq ↔
      (∃ r ∈ rows, r.selfAdopts key = true ∧ r.seq = seq) ∧
        ∀ r ∈ rows, r.selfAdopts key = true → seq ≤ r.seq := by
  rw [firstAdopted_eq, leastSeq_eq_some]

theorem firstAdopted_eq_none :
    firstAdopted rows key = none ↔ ∀ r ∈ rows, ¬ r.selfAdopts key = true := by
  rw [firstAdopted_eq]
  simp

theorem retired_eq_some :
    reduceLifecycle rows key .retired = some seq ↔
      (∃ r ∈ rows, retires (firstAdopted rows) key r = true ∧ r.seq = seq) ∧
        ∀ r ∈ rows, retires (firstAdopted rows) key r = true → seq ≤ r.seq := by
  rw [reduceLifecycle_retired, leastSeq_eq_some]

theorem retired_le (member : r ∈ rows) (stands : retires (firstAdopted rows) key r = true) :
    ∃ seq ≤ r.seq, reduceLifecycle rows key .retired = some seq := by
  cases found : reduceLifecycle rows key .retired with
  | none =>
    rw [reduceLifecycle_retired, min?_eq_none_iff, map_eq_nil_iff] at found
    exact absurd stands (filter_eq_nil_iff.mp found r member)
  | some seq => exact ⟨seq, (retired_eq_some.mp found).2 r member stands, rfl⟩

/-! ## Records of a superseded key -/

/-- Records of one host with the generations that the certificates give. -/
structure Verified (generation : Bytes → Int) (host : Bytes) (rows : List LifecycleRow) :
    Prop where
  host : ∀ r ∈ rows, r.host = host
  subject : ∀ r ∈ rows, r.subjectGeneration = generation r.keyID
  signer : ∀ r ∈ rows, r.signerGeneration = generation r.byKeyID

/-- The key `successor` has a standing retirement of the key `old` in the records. -/
structure Supersedes (rows : List LifecycleRow) (host successor old : Bytes) : Prop where
  distinct : successor ≠ old
  successorKey : successor ≠ auditCASigner
  oldKey : old ≠ auditCASigner
  retirement : ∃ r ∈ rows, retires (firstAdopted rows) ⟨host, old⟩ r = true ∧ r.byKeyID = successor

/-- `rows` are the records of `base` and others that `signer` signed. -/
structure Adds (base rows : List LifecycleRow) (signer : Bytes) : Prop where
  kept : ∀ r ∈ base, r ∈ rows
  added : ∀ r ∈ rows, r ∈ base ∨ r.byKeyID = signer

/-- The retirements `base` makes of a superseded key and of its successor still hold: the one is
retired no later, the other only if it was. -/
def RetirementsHold (base rows : List LifecycleRow) (host successor old : Bytes) : Prop :=
  (∀ seq, reduceLifecycle base ⟨host, old⟩ .retired = some seq →
      ∃ after ≤ seq, reduceLifecycle rows ⟨host, old⟩ .retired = some after) ∧
    ((reduceLifecycle rows ⟨host, successor⟩ .retired).isSome →
      (reduceLifecycle base ⟨host, successor⟩ .retired).isSome)

namespace Adds

variable {base rows : List LifecycleRow} {host old : Bytes} {keyID : Bytes}

theorem firstAdopted_other (adds : Adds base rows old) (other : keyID ≠ old) :
    firstAdopted rows ⟨host, keyID⟩ = firstAdopted base ⟨host, keyID⟩ := by
  have same : ∀ r, r.selfAdopts ⟨host, keyID⟩ = true → (r ∈ rows ↔ r ∈ base) := by
    intro r own
    simp only [LifecycleRow.selfAdopts, LifecycleRow.key, LifecycleKey.mk.injEq,
      decide_eq_true_eq] at own
    refine ⟨fun member => (adds.added r member).resolve_right ?_, adds.kept r⟩
    rw [own.2.2, own.1.2]
    exact other
  ext seq
  rw [firstAdopted_eq_some, firstAdopted_eq_some]
  constructor
  · rintro ⟨⟨r, member, own, rfl⟩, least⟩
    exact ⟨⟨r, (same r own).mp member, own, rfl⟩,
      fun other inBase adopts => least other (adds.kept other inBase) adopts⟩
  · rintro ⟨⟨r, member, own, rfl⟩, least⟩
    exact ⟨⟨r, adds.kept r member, own, rfl⟩,
      fun other member adopts => least other ((same other adopts).mp member) adopts⟩

theorem firstAdopted_old (adds : Adds base rows old) {seq : Int}
    (adopted : firstAdopted base ⟨host, old⟩ = some seq) :
    ∃ after ≤ seq, firstAdopted rows ⟨host, old⟩ = some after := by
  obtain ⟨⟨r, member, own, rfl⟩, -⟩ := firstAdopted_eq_some.mp adopted
  cases found : firstAdopted rows ⟨host, old⟩ with
  | none => exact absurd own (firstAdopted_eq_none.mp found r (adds.kept r member))
  | some after => exact ⟨after, (firstAdopted_eq_some.mp found).2 r (adds.kept r member) own, rfl⟩

variable {r : LifecycleRow}

theorem retires_kept (adds : Adds base rows old) {adoptedAt : Int}
    (adopted : firstAdopted base ⟨host, old⟩ = some adoptedAt)
    (stands : retires (firstAdopted base) ⟨host, old⟩ r = true) :
    retires (firstAdopted rows) ⟨host, old⟩ r = true := by
  simp only [retires, decide_eq_true_eq] at stands ⊢
  obtain ⟨standing, subject, isRetirement⟩ := stands
  refine ⟨?_, subject, isRetirement⟩
  obtain ⟨hostEq, keyEq⟩ := LifecycleKey.mk.inj subject
  rcases hasStanding_iff.mp standing with direct | ⟨-, signerAdopted, signed, later⟩
  · exact hasStanding_iff.mpr (.inl direct)
  by_cases own : r.byKeyID = old
  · exact hasStanding_iff.mpr (.inl (.inl (own.trans keyEq.symm)))
  obtain ⟨after, before, now⟩ := adds.firstAdopted_old adopted
  refine hasStanding_iff.mpr (.inr ⟨isRetirement, signerAdopted, ?_, .inl ⟨after, ?_, ?_⟩⟩)
  · rw [LifecycleRow.signer, adds.firstAdopted_other own]
    exact signed
  · rw [subject, now]
  · rw [subject, adopted] at later
    rcases later with ⟨_, ⟨⟩, less⟩ | ⟨⟨⟩, -⟩
    omega

/-- A retirement of another key that stands after the additions stood before them, unless the
old key signed it. -/
theorem retires_base (adds : Adds base rows old) (other : keyID ≠ old) (member : r ∈ rows)
    (stands : retires (firstAdopted rows) ⟨host, keyID⟩ r = true) (signer : r.byKeyID ≠ old) :
    r ∈ base ∧ retires (firstAdopted base) ⟨host, keyID⟩ r = true := by
  refine ⟨(adds.added r member).resolve_right signer, ?_⟩
  simp only [retires, decide_eq_true_eq] at stands ⊢
  obtain ⟨standing, subject, isRetirement⟩ := stands
  refine ⟨?_, subject, isRetirement⟩
  rw [hasStanding_iff, subject] at standing ⊢
  rwa [LifecycleRow.signer, adds.firstAdopted_other signer, adds.firstAdopted_other other]
    at standing

end Adds

theorem Supersedes.adopted {host successor old : Bytes}
    (supersedes : Supersedes rows host successor old) :
    ∃ seq, firstAdopted rows ⟨host, successor⟩ = some seq ∧
      ∀ before, firstAdopted rows ⟨host, old⟩ = some before → before < seq := by
  obtain ⟨r, -, stands, signer⟩ := supersedes.retirement
  simp only [retires, decide_eq_true_eq] at stands
  obtain ⟨standing, subject, -⟩ := stands
  obtain ⟨hostEq, keyEq⟩ := LifecycleKey.mk.inj subject
  rcases hasStanding_iff.mp standing with direct | ⟨-, signerAdopted, signed, later⟩
  · rw [signer, keyEq] at direct
    exact absurd direct (not_or.mpr ⟨supersedes.distinct, supersedes.successorKey⟩)
  rw [LifecycleRow.signer, signer, hostEq] at signed
  rw [subject] at later
  refine ⟨signerAdopted, signed, fun before adopted => ?_⟩
  rw [adopted] at later
  rcases later with ⟨_, ⟨⟩, less⟩ | ⟨⟨⟩, -⟩
  exact less

/-- When the old key adopted before its successor retired it, its records change neither
retirement. -/
theorem retirementsHold_of_adopted {base : List LifecycleRow} {host successor old : Bytes}
    (supersedes : Supersedes base host successor old) (adds : Adds base rows old)
    (adopted : (firstAdopted base ⟨host, old⟩).isSome) :
    RetirementsHold base rows host successor old := by
  obtain ⟨adoptedAt, adopted⟩ := isSome_iff_exists.mp adopted
  refine ⟨fun seq retired => ?_, fun retired => ?_⟩
  · obtain ⟨⟨r, member, stands, rfl⟩, -⟩ := retired_eq_some.mp retired
    exact retired_le (adds.kept r member) (adds.retires_kept adopted stands)
  obtain ⟨seq, retired⟩ := isSome_iff_exists.mp retired
  obtain ⟨⟨r, member, stands, rfl⟩, -⟩ := retired_eq_some.mp retired
  have notOld : r.byKeyID ≠ old := by
    intro byOld
    obtain ⟨successorAt, successorAdopted, earlier⟩ := supersedes.adopted
    obtain ⟨after, before, now⟩ := adds.firstAdopted_old adopted
    have less := earlier adoptedAt adopted
    simp only [retires, decide_eq_true_eq] at stands
    obtain ⟨standing, subject, -⟩ := stands
    obtain ⟨hostEq, keyEq⟩ := LifecycleKey.mk.inj subject
    rw [hasStanding_iff, subject, LifecycleRow.signer, byOld, keyEq, hostEq, now,
      adds.firstAdopted_other supersedes.distinct, successorAdopted] at standing
    rcases standing with (same | byCA) | ⟨-, _, ⟨⟩, ⟨_, ⟨⟩, more⟩ | ⟨⟨⟩, -⟩⟩
    · exact supersedes.distinct same.symm
    · exact supersedes.oldKey byCA
    · omega
  obtain ⟨inBase, stood⟩ := adds.retires_base supersedes.distinct member stands notOld
  obtain ⟨seq, -, before⟩ := retired_le inBase stood
  rw [before]
  rfl

/-- A retirement of the key that needs no adoption to stand: its own, or the cluster CA's. -/
def Independent (key : LifecycleKey) (r : LifecycleRow) : Prop :=
  r.key = key ∧ r.event = .retired ∧ (r.byKeyID = r.keyID ∨ r.byKeyID = auditCASigner)

theorem Independent.retires (own : Independent key r)
    (adopted : LifecycleKey → Option Int) : retires adopted key r = true := by
  obtain ⟨subject, isRetirement, signer⟩ := own
  simp only [Audit.retires, decide_eq_true_eq]
  exact ⟨hasStanding_iff.mpr (.inl signer), subject, isRetirement⟩

/-- What the records must hold when the old key never adopted: the successor is retired already,
and no retirement of the old key comes before one that the key itself or the cluster CA made. -/
structure Settled (rows : List LifecycleRow) (host successor old : Bytes) : Prop where
  successorRetired : ∃ r ∈ rows, retires (firstAdopted rows) ⟨host, successor⟩ r = true
  oldRetired : ∃ r ∈ rows, Independent ⟨host, old⟩ r ∧
    ∀ other ∈ rows, retires (firstAdopted rows) ⟨host, old⟩ other = true → r.seq ≤ other.seq

/-! ## What a key that never adopted can do -/

/-- The old key adopts itself at `seq` and retires its successor. -/
def turnOn (generation : Bytes → Int) (host successor old : Bytes) (seq : Int) :
    List LifecycleRow :=
  [⟨host, old, .adopted, old, seq, generation old, generation old⟩,
    ⟨host, successor, .retired, old, 0, generation successor, generation old⟩]

section Attack

variable {base : List LifecycleRow} {generation : Bytes → Int} {host successor old : Bytes}
  {seq : Int}

theorem adds_turnOn :
    Adds base (base ++ turnOn generation host successor old seq) old where
  kept _ member := mem_append_left _ member
  added r member := (mem_append.mp member).imp_right fun new => by
    simp only [turnOn, mem_cons, not_mem_nil, or_false] at new
    rcases new with rfl | rfl <;> rfl

theorem verified_turnOn (verified : Verified generation host base) :
    Verified generation host (base ++ turnOn generation host successor old seq) where
  host := forall_mem_append.mpr ⟨verified.host, by simp [turnOn]⟩
  subject := forall_mem_append.mpr ⟨verified.subject, by simp [turnOn]⟩
  signer := forall_mem_append.mpr ⟨verified.signer, by simp [turnOn]⟩

theorem firstAdopted_turnOn (never : firstAdopted base ⟨host, old⟩ = none) :
    firstAdopted (base ++ turnOn generation host successor old seq) ⟨host, old⟩ = some seq := by
  refine firstAdopted_eq_some.mpr ⟨⟨_, mem_append_right _ mem_cons_self,
    by simp [LifecycleRow.selfAdopts, LifecycleRow.key], rfl⟩, fun r member own => ?_⟩
  rcases mem_append.mp member with inBase | new
  · exact absurd own (firstAdopted_eq_none.mp never r inBase)
  simp only [turnOn, mem_cons, not_mem_nil, or_false] at new
  rcases new with rfl | rfl
  · exact Int.le_refl _
  · simp [LifecycleRow.selfAdopts] at own

theorem successor_retired (supersedes : Supersedes base host successor old)
    (never : firstAdopted base ⟨host, old⟩ = none) (bounded : ∀ r ∈ base, r.seq < seq) :
    (reduceLifecycle (base ++ turnOn generation host successor old seq)
      ⟨host, successor⟩ .retired).isSome := by
  obtain ⟨successorAt, adopted, -⟩ := supersedes.adopted
  obtain ⟨⟨first, firstMember, -, rfl⟩, -⟩ := firstAdopted_eq_some.mp adopted
  have adds : Adds base (base ++ turnOn generation host successor old seq) old := adds_turnOn
  rw [← adds.firstAdopted_other supersedes.distinct] at adopted
  have stands : retires (firstAdopted (base ++ turnOn generation host successor old seq))
      ⟨host, successor⟩
      ⟨host, successor, .retired, old, 0, generation successor, generation old⟩ = true := by
    simp only [retires, decide_eq_true_eq]
    refine ⟨hasStanding_iff.mpr (.inr ⟨rfl, seq, firstAdopted_turnOn never,
      .inl ⟨first.seq, adopted, bounded first firstMember⟩⟩), rfl, trivial⟩
  obtain ⟨after, -, retired⟩ := retired_le (by simp [turnOn]) stands
  rw [retired]
  rfl

/-- After an adoption later than all others only the key itself and the cluster CA stand over
the old key. -/
theorem independent_of_retires (supersedes : Supersedes base host successor old)
    (never : firstAdopted base ⟨host, old⟩ = none) (bounded : ∀ r ∈ base, r.seq < seq)
    {r : LifecycleRow} (member : r ∈ base ++ turnOn generation host successor old seq)
    (stands : retires (firstAdopted (base ++ turnOn generation host successor old seq))
      ⟨host, old⟩ r = true) : r ∈ base ∧ Independent ⟨host, old⟩ r := by
  simp only [retires, decide_eq_true_eq] at stands
  obtain ⟨standing, subject, isRetirement⟩ := stands
  obtain ⟨hostEq, keyEq⟩ := LifecycleKey.mk.inj subject
  have inBase : r ∈ base := by
    rcases mem_append.mp member with inBase | new
    · exact inBase
    simp only [turnOn, mem_cons, not_mem_nil, or_false] at new
    rcases new with rfl | rfl
    · cases isRetirement
    · exact absurd keyEq supersedes.distinct
  refine ⟨inBase, subject, isRetirement, ?_⟩
  by_contra indirect
  have other : r.byKeyID ≠ old := fun own => indirect (.inl (own.trans keyEq.symm))
  rw [hasStanding_iff, subject, LifecycleRow.signer, firstAdopted_turnOn never,
    adds_turnOn.firstAdopted_other other] at standing
  rcases standing with direct | ⟨-, signerAdopted, signed, ⟨_, ⟨⟩, more⟩ | ⟨⟨⟩, -⟩⟩
  · exact indirect direct
  · obtain ⟨⟨first, firstMember, -, rfl⟩, -⟩ := firstAdopted_eq_some.mp signed
    have less := bounded first firstMember
    omega

theorem settled_of_retirementsHold (verified : Verified generation host base)
    (supersedes : Supersedes base host successor old)
    (never : firstAdopted base ⟨host, old⟩ = none)
    (hold : ∀ rows, Verified generation host rows → Adds base rows old →
      RetirementsHold base rows host successor old) : Settled base host successor old := by
  obtain ⟨bound, bounded⟩ := (base.map (·.seq)).toFinset.exists_le
  have below : ∀ r ∈ base, r.seq < bound + 1 := fun r member =>
    Int.lt_add_one_of_le (bounded _ (mem_toFinset.mpr (mem_map_of_mem member)))
  obtain ⟨oldKept, successorKept⟩ := hold (base ++ turnOn generation host successor old (bound + 1))
    (verified_turnOn verified) adds_turnOn
  refine ⟨?_, ?_⟩
  · obtain ⟨seq, retired⟩ :=
      isSome_iff_exists.mp (successorKept (successor_retired supersedes never below))
    obtain ⟨⟨r, member, stands, -⟩, -⟩ := retired_eq_some.mp retired
    exact ⟨r, member, stands⟩
  · obtain ⟨r, member, stands, -⟩ := supersedes.retirement
    obtain ⟨seq, -, retired⟩ := retired_le member stands
    obtain ⟨after, before, now⟩ := oldKept seq retired
    obtain ⟨⟨other, otherMember, otherStands, rfl⟩, -⟩ := retired_eq_some.mp now
    obtain ⟨inBase, own⟩ := independent_of_retires supersedes never below otherMember otherStands
    exact ⟨other, inBase, own, fun third thirdMember thirdStands =>
      Int.le_trans before ((retired_eq_some.mp retired).2 third thirdMember thirdStands)⟩

end Attack

/-- A superseded key changes neither its own retirement nor its successor's with records it
signs, exactly when it had adopted, or the successor is retired already and a retirement by the
key itself or by the cluster CA comes first. -/
theorem retirementsHold_iff {base : List LifecycleRow} {generation : Bytes → Int}
    {host successor old : Bytes} (verified : Verified generation host base)
    (supersedes : Supersedes base host successor old) :
    (∀ rows, Verified generation host rows → Adds base rows old →
        RetirementsHold base rows host successor old) ↔
      (firstAdopted base ⟨host, old⟩).isSome ∨ Settled base host successor old := by
  constructor
  · intro hold
    cases adopted : firstAdopted base ⟨host, old⟩ with
    | none => exact .inr (settled_of_retirementsHold verified supersedes adopted hold)
    | some seq => exact .inl rfl
  rintro (adopted | settled) rows - adds
  · exact retirementsHold_of_adopted supersedes adds adopted
  refine ⟨fun seq retired => ?_, fun _ => ?_⟩
  · obtain ⟨⟨other, otherMember, stood, rfl⟩, -⟩ := retired_eq_some.mp retired
    obtain ⟨r, member, own, first⟩ := settled.oldRetired
    obtain ⟨after, before, now⟩ := retired_le (adds.kept r member) (own.retires _)
    exact ⟨after, Int.le_trans before (first other otherMember stood), now⟩
  · obtain ⟨r, member, stands⟩ := settled.successorRetired
    obtain ⟨seq, -, retired⟩ := retired_le member stands
    rw [retired]
    rfl

/-- A host with its bootstrap key and the dedicated key that replaced it. -/
def rotatedHost : Bytes := bytes "h"

def oldKey : Bytes := bytes "old"

def newKey : Bytes := bytes "new"

def rotatedGeneration (keyID : Bytes) : Int := if keyID = newKey then 1 else 0

/-- A rotation: the old key adopted at 0, the new one at 10, and it retired the old one there. -/
def rotation : List LifecycleRow :=
  [⟨rotatedHost, oldKey, .adopted, oldKey, 0, 0, 0⟩,
    ⟨rotatedHost, newKey, .adopted, newKey, 10, 1, 1⟩,
    ⟨rotatedHost, oldKey, .retired, newKey, 10, 0, 1⟩]

/-- After a rotation the old key turns on its successor in vain. -/
theorem rotation_retirementsHold :
    RetirementsHold rotation (turnOn rotatedGeneration rotatedHost newKey oldKey 20 ++ rotation)
      rotatedHost newKey oldKey := by
  have adopted : (firstAdopted rotation ⟨rotatedHost, oldKey⟩).isSome := by decide +kernel
  refine (@retirementsHold_iff _ rotatedGeneration _ _ _ ?_ ?_).mpr (.inl adopted) _ ?_ ?_
  all_goals constructor <;> decide +kernel

/-- The same without an adoption of the old key, whose private half the host could not read. -/
def orphanRotation : List LifecycleRow :=
  [⟨rotatedHost, newKey, .adopted, newKey, 10, 1, 1⟩,
    ⟨rotatedHost, oldKey, .retired, newKey, 10, 0, 1⟩]

/-- Whoever holds the orphan adopts it late: it is retired no more, and its successor is. -/
theorem orphan_turns_on_successor :
    Verified rotatedGeneration rotatedHost orphanRotation ∧
      Supersedes orphanRotation rotatedHost newKey oldKey ∧
      reduceLifecycle orphanRotation ⟨rotatedHost, oldKey⟩ .retired = some 10 ∧
      reduceLifecycle orphanRotation ⟨rotatedHost, newKey⟩ .retired = none ∧
      ∃ rows, Verified rotatedGeneration rotatedHost rows ∧ Adds orphanRotation rows oldKey ∧
        reduceLifecycle rows ⟨rotatedHost, oldKey⟩ .retired = none ∧
        reduceLifecycle rows ⟨rotatedHost, newKey⟩ .retired = some 0 := by
  refine ⟨?_, ?_, by decide +kernel, by decide +kernel,
    orphanRotation ++ turnOn rotatedGeneration rotatedHost newKey oldKey 11, ?_, ?_,
    by decide +kernel, by decide +kernel⟩
  all_goals constructor <;> decide +kernel

end Litevirt.Audit

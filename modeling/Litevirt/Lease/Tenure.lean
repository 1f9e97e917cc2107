import Litevirt.Lease.Acquire

/-!
# A term within one tenure

Two calls that return one positive term wrote the lease within one tenure, in every run in which
no renewal commits after a lapse that its call has not read, no call classifies between a
termless retake of a lapsed lease and the record of it, and no call records its term after the
lease was retaken.  Each of the three can fail.
-/

namespace Litevirt.Lease

open Litevirt.Lib Option List Bool

/-! ## Steps in time -/

/-- The place of a termless write whose call has not recorded it yet. -/
def Point.pending : Point → Option Nat
  | .upserted wrote => wrote
  | .confirmed wrote => wrote
  | _ => none

/-- The write at the place followed a lapse. -/
def retakes (holder : String) (log : List LeaseRow) (place : Nat) : Bool :=
  decide (0 < place) && !unexpired holder log (place - 1)

/-- No write since the one at the place found the lease lapsed. -/
def System.Unbroken (s : System) (holder : String) (place : Nat) : Prop :=
  Covered holder s.log place (s.log.length - 1)

instance (s : System) (holder : String) (place : Nat) : Decidable (s.Unbroken holder place) :=
  inferInstanceAs (Decidable (Covered ..))

/-- A call classifies while no termless retake of a lapsed lease is unrecorded. -/
def classifiesInTime (holder : String) (s : System) (call : Call) : Bool :=
  match call.point with
  | .contestRead .. => s.calls.all fun other => !other.point.pending.any (retakes holder s.log)
  | _ => true

/-- A call commits a renewal of a lease that has not lapsed since the call read it. -/
def commitsInTime (holder : String) (s : System) (call : Call) : Bool :=
  match call.point with
  | .renewing cur row term => !s.leaseRenewableTx holder cur term ||
      decide (s.Unbroken holder row.index) &&
        s.lease.all fun stored => decide (second s.now ≤ stored.expires)
  | _ => true

/-- A call records the term it hands out before the lease is retaken after a lapse. -/
def recordsInTime (holder : String) (s : System) (call : Call) : Bool :=
  match call.point with
  | .renewed _ wrote => decide (s.Unbroken holder wrote)
  | .minted _ wrote => decide (s.Unbroken holder wrote)
  | _ => true

def onAdvance (condition : System → Call → Bool) (s : System) : Event → Bool
  | .advance id _ => (s.calls[id]?).all (condition s)
  | _ => true

def inTime (holder : String) : System → Event → Bool :=
  onAdvance fun s call =>
    classifiesInTime holder s call && (commitsInTime holder s call && recordsInTime holder s call)

/-! ## Values of the lease row -/

section Log

variable {holder : String} {log : List LeaseRow} {row last : LeaseRow} {first middle place : Nat}

theorem Covered.self (holder : String) (log : List LeaseRow) (place : Nat) :
    Covered holder log place place := by
  intro index below above
  omega

theorem Covered.trans (left : Covered holder log first middle)
    (right : Covered holder log middle place) : Covered holder log first place := by
  intro index below above
  by_cases early : index < middle
  · exact left index early above
  · exact right index below (by omega)

theorem Covered.narrow {first' place' : Nat} (covered : Covered holder log first place)
    (later : first ≤ first') (earlier : place' ≤ place) : Covered holder log first' place' :=
  fun index below above => covered index (by omega) (by omega)

theorem unexpired_append {index : Nat} (known : index + 1 < log.length) :
    unexpired holder (log ++ [row]) index = unexpired holder log index := by
  unfold unexpired
  rw [getElem?_append_left known, getElem?_append_left (by omega)]

theorem covered_append (known : place < log.length) :
    Covered holder (log ++ [row]) first place ↔ Covered holder log first place := by
  refine forall₃_congr fun index below above => ?_
  rw [unexpired_append (by omega)]

theorem retakes_append (known : place < log.length) :
    retakes holder (log ++ [row]) place = retakes holder log place := by
  unfold retakes
  by_cases positive : 0 < place
  · rw [unexpired_append (by omega)]
  · simp [positive]

theorem unexpired_last (stored : log.getLast? = some last) :
    unexpired holder (log ++ [row]) (log.length - 1) =
      decide (last.holder = holder ∧ second row.written ≤ last.expires) := by
  have positive : 0 < log.length := by
    cases log with
    | nil => cases stored
    | cons => simp
  have isLast : (log ++ [row])[log.length - 1]? = some last := by
    rw [getElem?_append_left (by omega), ← getLast?_eq_getElem?, stored]
  have isNew : (log ++ [row])[log.length - 1 + 1]? = some row := by
    rw [show log.length - 1 + 1 = log.length by omega]
    simp
  simp only [unexpired, isLast, isNew]

theorem Covered.extend (covered : Covered holder log first (log.length - 1))
    (link : unexpired holder (log ++ [row]) (log.length - 1) = true) :
    Covered holder (log ++ [row]) first log.length := by
  intro index below above
  by_cases isLast : index = log.length - 1
  · rw [isLast, link]
  · rw [unexpired_append (by omega)]
    exact covered index (by omega) above

theorem Covered.shorten (known : first < log.length)
    (covered : Covered holder (log ++ [row]) first log.length) :
    Covered holder log first (log.length - 1) ∧
      unexpired holder (log ++ [row]) (log.length - 1) = true := by
  refine ⟨(covered_append (by omega)).mp (covered.narrow (Nat.le_refl _) (by omega)), ?_⟩
  exact covered (log.length - 1) (by omega) (by omega)

end Log

/-! ## The ledger -/

theorem maxTerm_append (rows : List TermRow) (row : TermRow) :
    maxTerm (rows ++ [row]) = max (maxTerm rows) row.term := by
  induction rows with
  | nil => simp [maxTerm]
  | cons head rest ih =>
    simp only [maxTerm, cons_append, map_cons, foldr_cons] at ih ⊢
    rw [ih, Nat.max_assoc]

theorem maxTerm_liveRows_le (ledger : List TermRow) :
    maxTerm (liveRows ledger) ≤ maxTerm ledger := by
  induction ledger with
  | nil => exact Nat.le_refl _
  | cons head rest ih =>
    cases live : head.live <;>
      simp only [liveRows, maxTerm, live, filter_cons, false_eq_true, ↓reduceIte,
        map_cons, foldr_cons] at ih ⊢
    · omega
    · omega

def System.newest (s : System) : Nat := maxTerm (liveRows s.ledger)

/-! ## The invariant -/

/-- The term a call hands out, and the place of its lease write. -/
def Point.hands : Point → Option (Nat × Nat)
  | .renewed term wrote => some (term, wrote)
  | .minted term wrote => some (term, wrote)
  | .done true (term + 1) (some wrote) => some (term + 1, wrote)
  | _ => none

def Point.seen : Point → Option Seen
  | .leaseRead _ row => row
  | .gateOpen _ row => row
  | .newestRead _ row _ _ => row
  | .contestRead _ row _ _ _ _ => row
  | .classified _ row _ => some row
  | .renewing _ row _ => some row
  | _ => none

def Point.termRead : Point → Option Nat
  | .newestRead _ _ term _ => some term
  | .contestRead _ _ term _ _ _ => some term
  | .classified _ _ term => some term
  | .renewing _ _ term => some term
  | _ => none

/-- A call that is about to renew: the place of the lease it read, and the term. -/
def Point.renews : Point → Option (Nat × Nat)
  | .classified _ row term => some (row.index, term)
  | .renewing _ row term => some (row.index, term)
  | _ => none

variable {term : Nat} {point : Point}

theorem renews_read {index : Nat} (renews : point.renews = some (index, term)) :
    (∃ row, point.seen = some row ∧ row.index = index) ∧ point.termRead = some term := by
  cases point <;> cases renews
  all_goals exact ⟨⟨_, rfl, rfl⟩, rfl⟩

/-- Some call hands the term out after the write at the place. -/
def System.Hands (s : System) (term place : Nat) : Prop :=
  ∃ call ∈ s.calls, call.point.hands = some (term, place)

/-- Every write that the term was handed out for lies in the present tenure. -/
def Fresh (holder : String) (s : System) (term : Nat) : Prop :=
  ∀ place, s.Hands term place → s.Unbroken holder place

/-- The newest term belongs to the present tenure, or the record says that it does not, or
a call is about to record that. -/
def Recorded (holder : String) (s : System) : Prop :=
  Fresh holder s s.newest ∨ s.termBelongsToEarlierTenure s.newest = true ∨
    ∃ call ∈ s.calls, call.point.pending.any (retakes holder s.log) = true

structure Sound (holder : String) (s : System) : Prop where
  known : ∀ term place, s.Hands term place → place < s.log.length ∧ term ≤ s.newest
  unbroken : ∀ term place place', s.Hands term place → s.Hands term place' → place ≤ place' →
    Covered holder s.log place place'
  ordered : ∀ old place term place', s.Hands old place → s.Hands term place' → old < term →
    place < place'
  recorded : Recorded holder s
  owned : ∀ call ∈ s.calls, ∀ place, call.point.pending = some place →
    place < s.log.length ∧ s.lease.any (fun row => decide (row.holder = holder)) = true
  reads : ∀ call ∈ s.calls, ∀ term, call.point.termRead = some term → term ≤ s.newest
  seen : ∀ call ∈ s.calls, ∀ row, call.point.seen = some row → row.index < s.log.length
  renews : ∀ call ∈ s.calls, ∀ index term, call.point.renews = some (index, term) →
    term = s.newest → s.Unbroken holder index → Fresh holder s term

/-- What a call that keeps to itself may read and be about to do. -/
structure Settled (holder : String) (s : System) (point : Point) : Prop where
  owned : ∀ place, point.pending = some place →
    place < s.log.length ∧ s.lease.any (fun row => decide (row.holder = holder)) = true
  reads : ∀ term, point.termRead = some term → term ≤ s.newest
  seen : ∀ row, point.seen = some row → row.index < s.log.length
  renews : ∀ index term, point.renews = some (index, term) → term = s.newest →
    s.Unbroken holder index → Fresh holder s term

variable {holder : String} {s after : System} {id : Nat} {call next : Call}

theorem mem_set_of_ne {other : Call} (found : s.calls[id]? = some call) (member : other ∈ s.calls)
    (different : other ≠ call) : other ∈ s.calls.set id next := by
  obtain ⟨index, below, rfl⟩ := getElem_of_mem member
  have apart : id ≠ index := by
    rintro rfl
    rw [getElem?_eq_getElem below] at found
    exact different (Option.some.inj found)
  exact mem_iff_getElem.mpr ⟨index, by simpa using below, getElem_set_ne apart _⟩

theorem mem_set_self (found : s.calls[id]? = some call) : next ∈ s.calls.set id next := by
  obtain ⟨below, -⟩ := List.getElem?_eq_some_iff.mp found
  exact mem_set below next

theorem Sound.settled (sound : Sound holder s) (member : call ∈ s.calls) :
    Settled holder s call.point :=
  ⟨sound.owned call member, sound.reads call member, sound.seen call member,
    sound.renews call member⟩

theorem Sound.move (sound : Sound holder s) (log : after.log = s.log)
    (ledger : after.ledger = s.ledger)
    (members : ∀ other ∈ after.calls, other ∈ s.calls ∨ other = next)
    (hands : next.point.hands = none ∨ ∃ call ∈ s.calls, next.point.hands = call.point.hands)
    (settled : Settled holder s next.point) (recorded : Recorded holder after) :
    Sound holder after := by
  have handed : ∀ term place, after.Hands term place → s.Hands term place := by
    rintro term place ⟨other, member, isHanded⟩
    rcases members other member with earlier | rfl
    · exact ⟨other, earlier, isHanded⟩
    rcases hands with none | ⟨call, isCall, same⟩
    · rw [none] at isHanded
      cases isHanded
    · exact ⟨call, isCall, same.symm.trans isHanded⟩
  obtain ⟨now, log', ledger', termless, mintedHere, mayMint, claimant, calls⟩ := after
  obtain rfl : log' = s.log := log
  obtain rfl : ledger' = s.ledger := ledger
  have each (other : Call) (member : other ∈ calls) :
      Settled holder ⟨now, s.log, s.ledger, termless, mintedHere, mayMint, claimant, calls⟩
        other.point := by
    obtain ⟨owned, reads, seen, renews⟩ : Settled holder s other.point :=
      (members other member).elim sound.settled (· ▸ settled)
    refine ⟨owned, reads, seen, fun index term isRenewal isNewest covered place isHanded => ?_⟩
    exact renews index term isRenewal isNewest covered place (handed _ _ isHanded)
  refine ⟨fun term place isHanded => sound.known term place (handed _ _ isHanded), ?_, ?_, recorded,
    fun other member => (each other member).owned, fun other member => (each other member).reads,
    fun other member => (each other member).seen, fun other member => (each other member).renews⟩
  · intro term place place' isHanded isHanded'
    exact sound.unbroken term place place' (handed _ _ isHanded) (handed _ _ isHanded')
  · intro old place term place' isHanded isHanded'
    exact sound.ordered old place term place' (handed _ _ isHanded) (handed _ _ isHanded')

/-- A call takes a step that hands nothing out, and no pending write is forgotten. -/
theorem Sound.keep {calls : List Call} (sound : Sound holder s)
    (members : ∀ other ∈ calls, other ∈ s.calls ∨ other = next) (hands : next.point.hands = none)
    (settled : Settled holder s next.point)
    (pending : ∀ other ∈ s.calls, other.point.pending.any (retakes holder s.log) = true →
      ∃ call ∈ calls, call.point.pending = other.point.pending) :
    Sound holder { s with calls } := by
  refine sound.move rfl rfl members (.inl hands) settled ?_
  rcases sound.recorded with fresh | earlier | ⟨other, member, retaken⟩
  · refine .inl fun place ⟨other, member, isHanded⟩ => ?_
    rcases members other member with isOld | rfl
    · exact fresh place ⟨other, isOld, isHanded⟩
    · rw [hands] at isHanded
      cases isHanded
  · exact .inr (.inl earlier)
  · obtain ⟨call, isCall, same⟩ := pending other member retaken
    exact .inr (.inr ⟨call, isCall, same ▸ retaken⟩)

theorem Sound.quiet (sound : Sound holder s) (found : s.calls[id]? = some call)
    (hands : next.point.hands = none)
    (pending : call.point.pending = none ∨ next.point.pending = call.point.pending)
    (settled : Settled holder s next.point) :
    Sound holder { s with calls := s.calls.set id next } := by
  refine sound.keep (fun other => mem_or_eq_of_mem_set) hands settled
    fun other member retaken => ?_
  by_cases isCall : other = call
  · subst isCall
    refine ⟨next, mem_set_self found, pending.resolve_left fun none => ?_⟩
    rw [none] at retaken
    cases retaken
  · exact ⟨other, mem_set_of_ne found member isCall, rfl⟩

/-- A point at which nothing that was read matters any more. -/
structure Point.Plain (point : Point) : Prop where
  hands : point.hands = none
  pending : point.pending = none
  termRead : point.termRead = none
  seen : point.seen = none
  renews : point.renews = none

theorem Point.Plain.settled (plain : point.Plain) : Settled holder s point :=
  ⟨by simp [plain.pending], by simp [plain.termRead], by simp [plain.seen], by simp [plain.renews]⟩

theorem Call.plain_retry (call : Call) : call.retry.point.Plain := by
  unfold Call.retry
  split <;> exact ⟨rfl, rfl, rfl, rfl, rfl⟩

section Write

variable {row : LeaseRow} (calls : after.calls = s.calls.set id next)
include calls

theorem hands_write {term place : Nat}
    (hands : ∀ term place, next.point.hands = some (term, place) → place = s.log.length)
    (handed : after.Hands term place) : s.Hands term place ∨
      place = s.log.length ∧ next.point.hands = some (term, place) := by
  obtain ⟨other, member, isHanded⟩ := handed
  rw [calls] at member
  rcases mem_or_eq_of_mem_set member with earlier | rfl
  · exact .inl ⟨other, earlier, isHanded⟩
  · exact .inr ⟨hands _ _ isHanded, isHanded⟩

variable (log : after.log = s.log ++ [row])
include log

omit calls in
theorem unbroken_write {place : Nat} :
    after.Unbroken holder place ↔ Covered holder (s.log ++ [row]) place s.log.length := by
  rw [System.Unbroken, log, length_append, length_singleton, Nat.add_sub_cancel]

/-- A term of the present tenure stays one after a write that finds the lease unexpired. -/
theorem Fresh.write {term : Nat} (fresh : Fresh holder s term)
    (hands : ∀ term place, next.point.hands = some (term, place) → place = s.log.length)
    (link : unexpired holder (s.log ++ [row]) (s.log.length - 1) = true) :
    Fresh holder after term := by
  intro place handed
  rw [unbroken_write log]
  rcases hands_write calls hands handed with earlier | ⟨rfl, -⟩
  · exact (fresh place earlier).extend link
  · exact Covered.self _ _ _

/-- A call that writes the lease.  A term it hands out is new, or is the newest one and
belongs to the tenure that the write goes on with. -/
theorem Sound.write (sound : Sound holder s) (named : row.holder = holder)
    (hands : ∀ term place, next.point.hands = some (term, place) →
      place = s.log.length ∧ term = after.newest ∧ (s.newest < term ∨
        unexpired holder (s.log ++ [row]) (s.log.length - 1) = true ∧ Fresh holder s term))
    (newest : s.newest ≤ after.newest)
    (pending : ∀ place, next.point.pending = some place → place = s.log.length)
    (reads : next.point.termRead = none) (seen : next.point.seen = none)
    (renews : next.point.renews = none) (recorded : Recorded holder after) :
    Sound holder after := by
  have length : after.log.length = s.log.length + 1 := by simp [log]
  have places : ∀ term place, next.point.hands = some (term, place) → place = s.log.length :=
    fun term place isHanded => (hands term place isHanded).1
  have owner : after.lease.any (fun row => decide (row.holder = holder)) = true := by
    simp [System.lease, log, named]
  have each (other : Call) (member : other ∈ after.calls) : Settled holder after other.point := by
    rw [calls] at member
    rcases mem_or_eq_of_mem_set member with earlier | rfl
    · obtain ⟨owned, reads, seen, renews⟩ := sound.settled earlier
      refine ⟨fun place isPending => ⟨by have := (owned place isPending).1; omega, owner⟩,
        fun term isRead => Nat.le_trans (reads term isRead) newest,
        fun read isSeen => by have := seen read isSeen; omega,
        fun index term isRenewal isNewest covered => ?_⟩
      obtain ⟨⟨read, isSeen, rfl⟩, isRead⟩ := renews_read isRenewal
      have atMost := reads term isRead
      obtain ⟨before, link⟩ := ((unbroken_write log).mp covered).shorten (seen read isSeen)
      exact (renews _ term isRenewal (by omega) before).write calls log places link
    · refine ⟨fun place isPending => ⟨by have := pending place isPending; omega, owner⟩, ?_, ?_, ?_⟩
      · simp [reads]
      · simp [seen]
      · simp [renews]
  refine ⟨?_, ?_, ?_, recorded, fun other member => (each other member).owned,
    fun other member => (each other member).reads, fun other member => (each other member).seen,
    fun other member => (each other member).renews⟩
  · intro term place handed
    rcases hands_write calls places handed with earlier | ⟨rfl, isNew⟩
    · obtain ⟨below, atMost⟩ := sound.known term place earlier
      exact ⟨by omega, by omega⟩
    · exact ⟨by omega, Nat.le_of_eq (hands _ _ isNew).2.1⟩
  · intro term place place' handed handed' order
    rw [log]
    rcases hands_write calls places handed with earlier | ⟨isNew, -⟩
    · rcases hands_write calls places handed' with earlier' | ⟨rfl, isNew'⟩
      · exact (covered_append (sound.known term place' earlier').1).mpr
          (sound.unbroken term place place' earlier earlier' order)
      · obtain ⟨-, -, above | ⟨link, fresh⟩⟩ := hands _ _ isNew'
        · have := (sound.known term place earlier).2
          omega
        · exact (fresh place earlier).extend link
    · rcases hands_write calls places handed' with earlier' | ⟨isNew', -⟩
      · have := (sound.known term place' earlier').1
        omega
      · rw [isNew, isNew']
        exact Covered.self _ _ _
  · intro old place term place' handed handed' below
    rcases hands_write calls places handed with earlier | ⟨rfl, isNew⟩
    · rcases hands_write calls places handed' with earlier' | ⟨rfl, -⟩
      · exact sound.ordered old place term place' earlier earlier' below
      · exact (sound.known old place earlier).1
    have isNewest := (hands _ _ isNew).2.1
    rcases hands_write calls places handed' with earlier' | ⟨rfl, isNew'⟩
    · have := (sound.known term place' earlier').2
      omega
    · rw [isNew] at isNew'
      cases isNew'
      omega

/-- The record after a write that mints no term: the tenure goes on, or the write is
pending. -/
theorem Recorded.write (sound : Sound holder s) (found : s.calls[id]? = some call)
    (passed : call.point.pending = none) (ledger : after.ledger = s.ledger)
    (termless : after.termless = s.termless) (mintedHere : after.mintedHere = s.mintedHere)
    (places : ∀ term place, next.point.hands = some (term, place) → place = s.log.length)
    (link : unexpired holder (s.log ++ [row]) (s.log.length - 1) = true ∨
      next.point.pending = some s.log.length) : Recorded holder after := by
  have newest : after.newest = s.newest := by rw [System.newest, ledger, System.newest]
  by_cases goesOn : unexpired holder (s.log ++ [row]) (s.log.length - 1) = true
  · rcases sound.recorded with fresh | earlier | ⟨other, member, retaken⟩
    · exact .inl (newest ▸ fresh.write calls log places goesOn)
    · refine .inr (.inl ?_)
      rw [System.termBelongsToEarlierTenure, termless, mintedHere, newest]
      exact earlier
    have isOther : other ≠ call := by
      rintro rfl
      rw [passed] at retaken
      cases retaken
    refine .inr (.inr ⟨other, calls ▸ mem_set_of_ne found member isOther, ?_⟩)
    cases isPending : other.point.pending with
    | none =>
      rw [isPending] at retaken
      cases retaken
    | some place =>
      rw [isPending] at retaken
      rw [any_some, log, retakes_append (sound.owned other member place isPending).1]
      exact retaken
  · have isPending := link.resolve_left goesOn
    by_cases empty : s.log.length = 0
    · refine .inl fun place handed => ?_
      rcases hands_write calls places handed with earlier | ⟨rfl, -⟩
      · have := (sound.known _ place earlier).1
        omega
      · exact (unbroken_write log).mpr (Covered.self _ _ _)
    · refine .inr (.inr ⟨next, calls ▸ mem_set_self found, ?_⟩)
      rw [isPending, any_some, log, retakes, not_eq_true _ |>.mp goesOn]
      simpa using Nat.pos_of_ne_zero empty

end Write

/-! ## One step -/

theorem Sound.fresh_of_unbroken (sound : Sound holder s) {place : Nat}
    (handed : s.Hands term place) (unbroken : s.Unbroken holder place) :
    Fresh holder s s.newest := by
  intro place' handed'
  have atMost := (sound.known term place handed).2
  by_cases same : term = s.newest
  · subst same
    by_cases order : place' ≤ place
    · exact (sound.unbroken _ place' place handed' handed order).trans unbroken
    · exact unbroken.narrow (by omega) (Nat.le_refl _)
  · have later := sound.ordered term place _ place' handed handed' (by omega)
    exact unbroken.narrow (Nat.le_of_lt later) (Nat.le_refl _)

/-- The classification leads to a renewal only at a term that the record does not put in an
earlier tenure. -/
theorem classify_cases (s : System) (holder : String) (call : Call) (cur : Int)
    (row : Option Seen) (term : Nat) (termHolder effective : String) (contested : Bool) :
    (classify s holder call cur row term termHolder effective contested).Plain ∨
      ∃ seen, row = some seen ∧ s.termBelongsToEarlierTenure term = false ∧
        classify s holder call cur row term termHolder effective contested =
          .classified cur seen term := by
  unfold classify
  split
  · rename_i seen ours
    split_ifs
    any_goals exact .inl ⟨rfl, rfl, rfl, rfl, rfl⟩
    rename_i current
    exact .inr ⟨seen, (filter_eq_some_iff.mp ours).1, by simpa using current, rfl⟩
  · split_ifs <;> exact .inl ⟨rfl, rfl, rfl, rfl, rfl⟩

theorem Sound.note (sound : Sound holder s) (found : s.calls[id]? = some call) {wrote : Nat}
    (hands : call.point.hands = some (term, wrote)) (unbroken : s.Unbroken holder wrote) :
    Sound holder { s.noteHandedTerm term with
      calls := s.calls.set id { call with point := .done true term (some wrote) } } := by
  have isCall : call ∈ s.calls := mem_of_getElem? found
  have handed : s.Hands term wrote := ⟨call, isCall, hands⟩
  have same : Point.hands (.done true term (some wrote)) = none ∨
      Point.hands (.done true term (some wrote)) = call.point.hands := by
    cases term with
    | zero => exact .inl rfl
    | succ term => exact .inr hands.symm
  refine sound.move rfl rfl (fun other => mem_or_eq_of_mem_set)
    (same.imp_right fun same => ⟨call, isCall, same⟩) ⟨nofun, nofun, nofun, nofun⟩ ?_
  by_cases zero : term = 0
  · exact .inr (.inl (by simp [System.noteHandedTerm, System.termBelongsToEarlierTenure, zero]))
  refine .inl fun place ⟨other, member, isHanded⟩ => ?_
  refine sound.fresh_of_unbroken handed unbroken place ?_
  rcases mem_or_eq_of_mem_set member with isOld | rfl
  · exact ⟨other, isOld, isHanded⟩
  · exact ⟨call, isCall, (same.resolve_left (by simp [isHanded])).symm.trans isHanded⟩

theorem readLease_index {row : Seen} (read : s.readLease = some row) :
    row.index < s.log.length := by
  obtain ⟨stored, isStored, rfl⟩ := map_eq_some_iff.mp read
  have nonempty : s.log ≠ [] := by
    rintro empty
    rw [System.lease, empty] at isStored
    cases isStored
  have := length_pos_iff.mpr nonempty
  simp only
  omega

variable {cur : Int}

/-- The guard of a renewal: the lease names the holder, and the term is the newest one. -/
theorem leaseRenewableTx_spec (renewable : s.leaseRenewableTx holder cur term = true) :
    (∃ row, s.lease = some row ∧ row.holder = holder) ∧ term = s.newest := by
  simp only [System.leaseRenewableTx, and_eq_true, decide_eq_true_eq] at renewable
  obtain ⟨row, stored, isOurs⟩ := any_eq_true _ _ |>.mp renewable.1
  exact ⟨⟨row, stored, (of_decide_eq_true isOurs).1⟩, renewable.2.symm⟩

theorem newest_lt_of_acquirable {supersede : Nat}
    (acquirable : s.leaseAcquirableTx holder cur term supersede = true) :
    s.newest < term ∧ maxTerm (liveRows (s.ledger ++ [⟨term, holder, true⟩])) = term := by
  simp only [System.leaseAcquirableTx, and_eq_true, decide_eq_true_eq] at acquirable
  have atMost := maxTerm_liveRows_le s.ledger
  have above : maxTerm (liveRows s.ledger) < term := by omega
  refine ⟨above, ?_⟩
  have grown : liveRows (s.ledger ++ [⟨term, holder, true⟩]) =
      liveRows s.ledger ++ [⟨term, holder, true⟩] := by
    simp [liveRows]
  rw [grown, maxTerm_append]
  simp only
  omega

theorem Sound.advance (sound : Sound holder s) (found : s.calls[id]? = some call)
    (classifies : classifiesInTime holder s call = true)
    (commits : commitsInTime holder s call = true) (records : recordsInTime holder s call = true)
    (cleared : Bool) :
    Sound holder { (advance s holder call cleared).1 with
      calls := s.calls.set id (advance s holder call cleared).2 } := by
  have isCall : call ∈ s.calls := mem_of_getElem? found
  obtain ⟨owned, reads, seen, renews⟩ := sound.settled isCall
  have retry : call.point.pending = none →
      Sound holder { s with calls := s.calls.set id call.retry } := fun passed =>
    sound.quiet found call.plain_retry.hands (.inl passed) call.plain_retry.settled
  have goto : ∀ point : Point, call.point.pending = none → point.Plain →
      Sound holder { s with calls := s.calls.set id { call with point := point } } :=
    fun point passed plain => sound.quiet found plain.hands (.inl passed) plain.settled
  obtain ⟨ttl, offset, attempt, point⟩ := call
  unfold Lease.advance
  cases point with
  | begin => exact goto _ rfl ⟨rfl, rfl, rfl, rfl, rfl⟩
  | sampled cur =>
    refine sound.quiet found rfl (.inl rfl) ⟨nofun, nofun, ?_, nofun⟩
    exact fun row isSeen => readLease_index isSeen
  | leaseRead cur row =>
    dsimp only
    split
    · exact sound.quiet found rfl (.inl rfl) ⟨nofun, nofun, seen, nofun⟩
    · split <;> exact goto _ rfl ⟨rfl, rfl, rfl, rfl, rfl⟩
  | upserting cur =>
    dsimp only
    split
    · refine sound.write rfl rfl rfl nofun (Nat.le_refl _) (fun place isPlace => ?_) rfl rfl rfl ?_
      · exact (Option.some.inj isPlace).symm
      · exact Recorded.write rfl rfl sound found rfl rfl rfl rfl nofun (.inr rfl)
    · exact goto _ rfl ⟨rfl, rfl, rfl, rfl, rfl⟩
  | upserted wrote =>
    dsimp only
    split
    · exact sound.quiet found rfl (.inr rfl) ⟨owned, nofun, nofun, nofun⟩
    rename_i lost
    cases wrote with
    | none => exact goto _ rfl ⟨rfl, rfl, rfl, rfl, rfl⟩
    | some place => exact absurd (owned place rfl).2 lost
  | confirmed wrote =>
    refine sound.move rfl rfl (fun other => mem_or_eq_of_mem_set) (.inl ?_)
      ⟨nofun, nofun, nofun, nofun⟩ (.inr (.inl ?_))
    · cases wrote <;> rfl
    · simp [System.noteHandedTerm, System.termBelongsToEarlierTenure]
  | gateOpen cur row =>
    refine sound.quiet found rfl (.inl rfl) ⟨nofun, fun term isTerm => ?_, seen, nofun⟩
    exact Nat.le_of_eq (Option.some.inj isTerm).symm
  | newestRead cur row term termHolder =>
    exact sound.quiet found rfl (.inl rfl) ⟨nofun, reads, seen, nofun⟩
  | contestRead cur row term termHolder effective contested =>
    rcases classify_cases s holder ⟨ttl, offset, attempt, _⟩ cur row term termHolder effective
      contested with plain | ⟨read, rfl, current, isClassified⟩
    · exact goto _ rfl plain
    dsimp only
    rw [isClassified]
    refine sound.quiet found rfl (.inl rfl) ⟨nofun, reads, seen, fun index term' same => ?_⟩
    cases same
    intro isNewest _
    rcases sound.recorded with fresh | earlier | ⟨other, member, retaken⟩
    · exact isNewest ▸ fresh
    · rw [← isNewest, current] at earlier
      cases earlier
    · have recorded := all_eq_true.mp classifies other member
      rw [retaken] at recorded
      cases recorded
  | classified cur row term =>
    dsimp only
    split
    · exact retry rfl
    · exact sound.quiet found rfl (.inl rfl) ⟨nofun, reads, seen, renews⟩
  | renewing cur row term =>
    dsimp only
    split
    · rename_i renewable
      simp only [commitsInTime, renewable, Bool.not_true, Bool.false_or, Bool.and_eq_true,
        decide_eq_true_eq] at commits
      obtain ⟨unbroken, unexpiredNow⟩ := commits
      obtain ⟨⟨held, stored, named⟩, isNewest⟩ := leaseRenewableTx_spec renewable
      rw [stored, all_some, decide_eq_true_eq] at unexpiredNow
      have link (expires : Int) :
          unexpired holder (s.log ++ [⟨holder, expires, s.now⟩]) (s.log.length - 1) = true := by
        rw [unexpired_last stored]
        exact decide_eq_true ⟨named, unexpiredNow⟩
      have fresh := renews row.index term rfl isNewest unbroken
      refine sound.write rfl rfl rfl (fun term' place same => ?_) (Nat.le_refl _) nofun rfl rfl rfl
        ?_
      · cases same
        exact ⟨rfl, isNewest, .inr ⟨link _, fresh⟩⟩
      · refine Recorded.write rfl rfl sound found rfl rfl rfl rfl (fun term' place same => ?_)
          (.inl (link _))
        cases same
        rfl
    · exact retry rfl
  | renewed term wrote | minted term wrote =>
    exact sound.note found rfl (of_decide_eq_true records)
  | acquisition cur term termHolder | allocating cur supersede =>
    exact goto _ rfl ⟨rfl, rfl, rfl, rfl, rfl⟩
  | clearing cur supersede next =>
    dsimp only
    split <;> exact goto _ rfl ⟨rfl, rfl, rfl, rfl, rfl⟩
  | acquiring cur supersede next =>
    dsimp only
    split
    · rename_i acquirable
      obtain ⟨above, newest⟩ := newest_lt_of_acquirable acquirable
      have places : ∀ term place, Point.hands (.minted next s.log.length) = some (term, place) →
          place = s.log.length := by
        rintro term place same
        cases same
        rfl
      refine sound.write rfl rfl rfl (fun term place same => ?_) ?_ nofun rfl rfl rfl (.inl ?_)
      · cases same
        exact ⟨rfl, newest.symm, .inl above⟩
      · exact Nat.le_of_lt (Nat.lt_of_lt_of_eq above newest.symm)
      intro place handed
      refine (unbroken_write rfl).mpr ?_
      rcases hands_write rfl places handed with earlier | ⟨rfl, -⟩
      · have atMost : next ≤ s.newest := newest ▸ (sound.known _ place earlier).2
        omega
      · exact Covered.self _ _ _
    · exact goto _ rfl ⟨rfl, rfl, rfl, rfl, rfl⟩
  | declined =>
    dsimp only
    split
    · exact goto _ rfl ⟨rfl, rfl, rfl, rfl, rfl⟩
    · exact retry rfl
  | done held term wrote =>
    obtain ⟨below, isDone⟩ := List.getElem?_eq_some_iff.mp found
    dsimp only
    rw [← isDone, set_getElem_self below]
    exact sound

theorem Sound.begin (sound : Sound holder s) (ttl offset : Int) :
    Sound holder { s with calls := s.calls ++ [⟨ttl, offset, 0, .begin⟩] } := by
  have members : ∀ other ∈ s.calls ++ [⟨ttl, offset, 0, .begin⟩],
      other ∈ s.calls ∨ other = ⟨ttl, offset, 0, .begin⟩ :=
    fun other member => (mem_append.mp member).imp_right mem_singleton.mp
  exact sound.keep members rfl ⟨nofun, nofun, nofun, nofun⟩
    fun other member _ => ⟨other, mem_append_left _ member, rfl⟩

theorem Sound.step (sound : Sound holder s) {event : Event} (timely : inTime holder s event = true)
    (stepped : s.step holder event = some after) : Sound holder after := by
  cases event with
  | tick nanos | gate mayMint | contest term first =>
    cases stepped
    exact ⟨sound.known, sound.unbroken, sound.ordered, sound.recorded, sound.owned, sound.reads,
      sound.seen, sound.renews⟩
  | call ttl offset =>
    cases stepped
    exact sound.begin ttl offset
  | advance id cleared =>
    obtain ⟨call, found, rfl⟩ := map_eq_some_iff.mp stepped
    simp only [inTime, onAdvance, found, all_some, and_eq_true] at timely
    exact sound.advance found timely.1 timely.2.1 timely.2.2 cleared

theorem sound_of_no_calls (none : s.calls = []) : Sound holder s := by
  have hands : ∀ term place, ¬ s.Hands term place := by
    rintro term place ⟨call, member, -⟩
    rw [none] at member
    cases member
  have calls : ∀ call ∈ s.calls, False := by
    intro call member
    rw [none] at member
    cases member
  refine ⟨?_, ?_, ?_, .inl ?_, ?_, ?_, ?_, ?_⟩
  · exact fun term place handed => (hands _ _ handed).elim
  · exact fun term place place' handed => (hands _ _ handed).elim
  · exact fun old place term place' handed => (hands _ _ handed).elim
  · exact fun place handed => (hands _ _ handed).elim
  all_goals exact fun call member => (calls call member).elim

/-- In every run whose steps are in time, calls that return the same positive term wrote the
lease within one tenure. -/
theorem term_within_tenure {start last : System} (fresh : start.calls = [])
    (run : Run (System.step holder) (fun s event => inTime holder s event = true) start last) :
    TermWithinTenure holder last := by
  have sound : Sound holder last :=
    run.invariant (Sound holder) (sound_of_no_calls fresh)
      fun _ _ _ timely stepped sound => sound.step timely stepped
  intro first isFirst second isSecond term place place' positive returned returned' order
  obtain ⟨less, rfl⟩ := Nat.exists_eq_succ_of_ne_zero (Nat.ne_of_gt positive)
  refine sound.unbroken (less + 1) place place' ⟨first, isFirst, ?_⟩ ⟨second, isSecond, ?_⟩ order
  · rw [returned]
    rfl
  · rw [returned']
    rfl

/-! ## Runs -/

/-- No lease, no term, an open gate and no calls. -/
def idle : System :=
  { now := 0, log := [], ledger := [], termless := false, mintedHere := none, mayMint := true,
    claimant := fun _ => none, calls := [] }

def seconds (n : Nat) : Nat := n * 1000000000

/-- A call with a `ttl` of ten seconds, as the one with this number, and some of its steps. -/
def begins (id count : Nat) : List Event :=
  .call (seconds 10) 0 :: replicate count (.advance id true)

/-- A call mints a term, nine seconds pass, and another call renews. -/
theorem renewal_within_tenure :
    ∃ last, Run (System.step "a") (fun s event => inTime "a" s event = true) idle last ∧
      last.calls.map Call.point = [.done true 1 (some 0), .done true 1 (some 1)] ∧
        Covered "a" last.log 0 1 := by
  obtain ⟨last, run, points⟩ : ∃ last, Run (System.step "a")
      (fun s event => inTime "a" s event = true) idle last ∧
      last.calls.map Call.point = [.done true 1 (some 0), .done true 1 (some 1)] :=
    Run.reaches (begins 0 10 ++ .tick (seconds 9) :: begins 1 9) (by decide +kernel)
  have isFirst : .done true 1 (some 0) ∈ last.calls.map Call.point := by simp [points]
  have isSecond : .done true 1 (some 1) ∈ last.calls.map Call.point := by simp [points]
  obtain ⟨first, inFirst, firstPoint⟩ := mem_map.mp isFirst
  obtain ⟨second, inSecond, secondPoint⟩ := mem_map.mp isSecond
  exact ⟨last, run, points, term_within_tenure rfl run first inFirst second inSecond 1 0 1
    (by decide) firstPoint secondPoint (by decide)⟩

/-- Two calls returned a term although the lease had lapsed between their writes. -/
def spansLapse (s : System) : Bool :=
  s.calls.any fun first => s.calls.any fun second =>
    match first.point, second.point with
    | .done true (term + 1) (some place), .done true term' (some place') =>
      decide (term' = term + 1 ∧ place ≤ place' ∧ ¬ Covered "a" s.log place place')
    | _, _ => false

theorem not_within_of_spansLapse (spans : spansLapse s = true) : ¬ TermWithinTenure "a" s := by
  intro within
  obtain ⟨first, isFirst, rest⟩ := any_eq_true.mp spans
  obtain ⟨second, isSecond, rest⟩ := any_eq_true.mp rest
  split at rest
  · rename_i term place term' place' returned returned'
    obtain ⟨rfl, order, lapsed⟩ := of_decide_eq_true rest
    exact lapsed (within first isFirst second isSecond _ place place' (Nat.succ_pos _) returned
      returned' order)
  · cases rest

/-- A term can span a lapse when one of the three conditions is not met: a call stalls
between its fresh clock and the commit of its renewal; a call classifies between a termless
retake and its record; a call records the term it minted after a termless retake. -/
theorem term_spans_lapse :
    (∃ last, Run (System.step "a") (fun s event => onAdvance (fun s call =>
        classifiesInTime "a" s call && recordsInTime "a" s call) s event = true) idle last ∧
      ¬ TermWithinTenure "a" last) ∧
    (∃ last, Run (System.step "a") (fun s event => onAdvance (fun s call =>
        commitsInTime "a" s call && recordsInTime "a" s call) s event = true) idle last ∧
      ¬ TermWithinTenure "a" last) ∧
    ∃ last, Run (System.step "a") (fun s event => onAdvance (fun s call =>
        classifiesInTime "a" s call && commitsInTime "a" s call) s event = true) idle last ∧
      ¬ TermWithinTenure "a" last := by
  have spans {ok} (ran : ∃ last, Run (System.step "a") ok idle last ∧ spansLapse last = true) :=
    ran.imp fun _ => And.imp_right not_within_of_spansLapse
  exact ⟨spans (Run.reaches (begins 0 10 ++ .tick (seconds 9) :: (begins 1 7 ++
      [.tick (seconds 11), .advance 1 true, .advance 1 true])) (by decide +kernel)),
    spans (Run.reaches (begins 0 10 ++ [.gate false, .tick (seconds 20)] ++ begins 1 4 ++
      .gate true :: begins 2 9) (by decide +kernel)),
    spans (Run.reaches (begins 0 9 ++ [.gate false, .tick (seconds 20)] ++ begins 1 6 ++
      [.advance 0 true, .gate true] ++ begins 2 9) (by decide +kernel))⟩

end Litevirt.Lease

import Litevirt.Sync.Instant

/-!
# The order of row clocks

`lwwOrder` of `internal/corrosion/sync.go` compares two clock timestamps as texts, two RFC 3339
times as instants, and a mixed pair as instants with the clock timestamp ahead on equality.  On
the keys a node emits these three rules are one linear ranking.
-/

namespace Litevirt.Sync

open Litevirt.Lib Litevirt.Hlc

/-- `strings.Compare`. -/
def compareTexts (a b : Bytes) : Ordering :=
  if byteValues a < byteValues b then .lt else if byteValues b < byteValues a then .gt else .eq

def cmpInstants (a b : Int) : Ordering :=
  if b < a then .gt else if a < b then .lt else .eq

def isHLC (s : Bytes) : Bool := (Hlc.parse s).isSome

/-- `tsInstant`: the instant of a key of either form. -/
def tsInstant [GoLayout] (ts : Bytes) : Option Int :=
  match Hlc.parse ts with
  | some p => some (p.physicalMS.toInt * 1000000)
  | none => timeParse ts

/-- `lwwOrder`: how the local key compares with the incoming one. -/
def lwwOrder [GoLayout] (localTS incomingTS : Bytes) : Ordering :=
  match isHLC localTS, isHLC incomingTS with
  | true, true => compareTexts localTS incomingTS
  | false, false =>
    match timeParse localTS, timeParse incomingTS with
    | some lt, some it => cmpInstants lt it
    | _, _ => compareTexts localTS incomingTS
  | localHLC, _ =>
    match tsInstant localTS, tsInstant incomingTS with
    | some li, some ii =>
      (cmpInstants li ii).then (if localHLC then .gt else .lt)
    | _, _ => compareTexts localTS incomingTS

theorem compareTexts_self (s : Bytes) : compareTexts s s = .eq := by
  simp [compareTexts]

theorem lwwOrder_self [GoLayout] (ts : Bytes) : lwwOrder ts ts = .eq := by
  unfold lwwOrder
  cases isHLC ts with
  | true => exact compareTexts_self ts
  | false =>
    cases timeParse ts with
    | none => exact compareTexts_self ts
    | some t => simp [cmpInstants]

theorem compareTexts_swap (a b : Bytes) : compareTexts b a = (compareTexts a b).swap := by
  unfold compareTexts
  by_cases below : byteValues a < byteValues b
  · rw [if_neg (List.lt_asymm below), if_pos below, if_pos below]
    rfl
  by_cases above : byteValues b < byteValues a
  · rw [if_pos above, if_neg below, if_pos above]
    rfl
  · rw [if_neg above, if_neg below, if_neg below, if_neg above]
    rfl

theorem cmpInstants_swap (a b : Int) : cmpInstants b a = (cmpInstants a b).swap := by
  unfold cmpInstants
  repeat' split
  all_goals first | rfl | omega

theorem lwwOrder_swap [GoLayout] (a b : Bytes) : lwwOrder b a = (lwwOrder a b).swap := by
  unfold lwwOrder
  cases isHLC a <;> cases isHLC b
  case true.true => exact compareTexts_swap a b
  case true.false | false.true =>
    cases tsInstant a with
    | none => cases tsInstant b <;> exact compareTexts_swap a b
    | some t =>
      cases tsInstant b with
      | none => exact compareTexts_swap a b
      | some u =>
        simp only [cmpInstants_swap t u]
        cases cmpInstants t u <;> rfl
  case false.false =>
    cases timeParse a with
    | none => cases timeParse b <;> exact compareTexts_swap a b
    | some t =>
      cases timeParse b with
      | none => exact compareTexts_swap a b
      | some u => exact cmpInstants_swap t u

/-- A row clock a node can emit. -/
inductive Key where
  | hlc (canonical : Canonical)
  | rfc (time : Rfc3339)
  deriving DecidableEq

namespace Key

def text : Key → Bytes
  | .hlc c => string c.timestamp
  | .rfc r => r.text

def instant : Key → Int
  | .hlc c => c.timestamp.physicalMS.toInt * 1000000
  | .rfc r => r.instant

/-- The place of a key: its instant, clock timestamps after times, then their text. -/
def rank : Key → Int ×ₗ Nat ×ₗ List Nat
  | .hlc c =>
    toLex (c.timestamp.physicalMS.toInt * 1000000, toLex (1, byteValues (string c.timestamp)))
  | .rfc r => toLex (r.instant, toLex (0, []))

theorem isHLC_text (k : Key) :
    isHLC k.text = (match k with | .hlc _ => true | .rfc _ => false) := by
  cases k with
  | hlc c => simp [isHLC, text, c.parse_string]
  | rfc r => simp [isHLC, text, r.not_hlc]

theorem tsInstant_text [GoLayout] (k : Key) : tsInstant k.text = some k.instant := by
  cases k with
  | hlc c => simp [tsInstant, text, c.parse_string, instant]
  | rfc r => simp [tsInstant, text, r.not_hlc, r.timeParse_text, instant]

end Key

theorem cmpInstants_eq_cmp {α : Type*} [LinearOrder α] {a b : Int} {c d : α}
    (below : a < b ↔ c < d) (above : b < a ↔ d < c) : cmpInstants a b = cmp c d := by
  simp only [cmpInstants, cmp, cmpUsing, ← below, ← above]
  repeat' split
  all_goals first | rfl | omega

theorem Canonical.compare_string (c d : Canonical) :
    compareTexts (string c.timestamp) (string d.timestamp) =
      cmp (Key.hlc c).rank (Key.hlc d).rank := by
  have split : ∀ e f : Canonical,
      byteValues (string e.timestamp) < byteValues (string f.timestamp) ↔
        (Key.hlc e).rank < (Key.hlc f).rank := by
    intro e f
    have physicalE := e.physical
    have physicalF := f.physical
    have ordered := byteValues_pad_lt
      (show e.timestamp.physicalMS.toInt.toNat < 10 ^ 13 by omega)
      (show f.timestamp.physicalMS.toInt.toNat < 10 ^ 13 by omega)
      (45 :: (pad 4 e.timestamp.logical.toNat ++ 45 :: e.timestamp.nodeID))
      (45 :: (pad 4 f.timestamp.logical.toNat ++ 45 :: f.timestamp.nodeID))
    rw [← wireText, ← wireText, ← e.string_eq, ← f.string_eq] at ordered
    have less : e.timestamp.physicalMS.toInt.toNat < f.timestamp.physicalMS.toInt.toNat ↔
        e.timestamp.physicalMS.toInt * 1000000 < f.timestamp.physicalMS.toInt * 1000000 := by omega
    have same : e.timestamp.physicalMS.toInt.toNat = f.timestamp.physicalMS.toInt.toNat ↔
        e.timestamp.physicalMS.toInt * 1000000 = f.timestamp.physicalMS.toInt * 1000000 := by omega
    simp only [Key.rank, Prod.Lex.toLex_lt_toLex, Nat.lt_irrefl, false_or, true_and, ordered]
    tauto
  simp only [compareTexts, cmp, cmpUsing, split]

theorem lwwOrder_text [GoLayout] (a b : Key) : lwwOrder a.text b.text = cmp a.rank b.rank := by
  have formA := a.isHLC_text
  have formB := b.isHLC_text
  have instantA := a.tsInstant_text
  have instantB := b.tsInstant_text
  -- the three rules of the comparison, one pair of forms each
  cases a with
  | hlc c =>
    cases b with
    | hlc d =>
      simp only [lwwOrder, formA, formB]
      exact c.compare_string d
    | rfc r =>
      simp only [lwwOrder, formA, formB, instantA, instantB, cmpInstants, Key.instant]
      rcases lt_trichotomy (c.timestamp.physicalMS.toInt * 1000000) r.instant with h | h | h
      all_goals simp [cmp, cmpUsing, Key.rank, Prod.Lex.toLex_lt_toLex, h, h.not_gt]
  | rfc r =>
    cases b with
    | hlc d =>
      simp only [lwwOrder, formA, formB, instantA, instantB, cmpInstants, Key.instant]
      rcases lt_trichotomy r.instant (d.timestamp.physicalMS.toInt * 1000000) with h | h | h
      · simp [cmp, cmpUsing, Key.rank, Prod.Lex.toLex_lt_toLex, h, h.not_gt]
      · simp [cmp, cmpUsing, Key.rank, Prod.Lex.toLex_lt_toLex, h]
      · simp [cmp, cmpUsing, Key.rank, Prod.Lex.toLex_lt_toLex, h, h.not_gt, h.ne']
    | rfc q =>
      have timeA : timeParse (Key.rfc r).text = some r.instant := r.timeParse_text
      have timeB : timeParse (Key.rfc q).text = some q.instant := q.timeParse_text
      simp only [lwwOrder, formA, formB, timeA, timeB]
      exact cmpInstants_eq_cmp (by simp [Key.rank, Prod.Lex.toLex_lt_toLex])
        (by simp [Key.rank, Prod.Lex.toLex_lt_toLex])

/-- `lwwOrder` is a total preorder on the keys a node can emit: swapping the keys
swaps the answer, strictly newer is transitive, and ties are transitive and
interchangeable on either side of strictly newer. -/
theorem lwwOrder_totalPreorder [GoLayout] (a b c : Key) :
    lwwOrder b.text a.text = (lwwOrder a.text b.text).swap ∧
      (lwwOrder a.text b.text = .gt → lwwOrder b.text c.text = .gt →
        lwwOrder a.text c.text = .gt) ∧
      (lwwOrder a.text b.text = .eq → lwwOrder b.text c.text = .eq →
        lwwOrder a.text c.text = .eq) ∧
      (lwwOrder a.text b.text = .gt → lwwOrder b.text c.text = .eq →
        lwwOrder a.text c.text = .gt) ∧
      (lwwOrder a.text b.text = .eq → lwwOrder b.text c.text = .gt →
        lwwOrder a.text c.text = .gt) := by
  simp only [lwwOrder_text, cmp_swap, cmp_eq_gt_iff, cmp_eq_eq_iff, true_and]
  refine ⟨fun newer older => older.trans newer, Eq.trans, ?_, ?_⟩
  · intro newer tied
    rwa [← tied]
  · intro tied newer
    rwa [tied]

/-- Only the strict parser reads times. -/
@[reducible] def strictLayout : GoLayout := ⟨fun _ => none⟩

/-- The first millisecond of 2024 as an RFC 3339 time with and without a fraction,
and as a clock timestamp. -/
def newYear : Rfc3339 :=
  ⟨2024, 1, 1, 0, 0, 0, [], by decide, ⟨by decide, by decide⟩, by decide, nofun⟩

def newYearNano : Rfc3339 :=
  ⟨2024, 1, 1, 0, 0, 0, pad 9 0, by decide, ⟨by decide, by decide⟩, by decide,
    fun _ => isDigit_of_mem_pad⟩

def newYearStamp : Canonical :=
  ⟨⟨1704067200000, 0, bytes "a"⟩, by decide, by decide, by decide +kernel⟩

attribute [local instance] strictLayout

theorem lwwOrder_newYear :
    lwwOrder (Key.hlc newYearStamp).text (Key.rfc newYear).text = .gt ∧
      lwwOrder (Key.rfc newYear).text (Key.rfc newYearNano).text = .eq ∧
      lwwOrder (Key.hlc newYearStamp).text (Key.rfc newYearNano).text = .gt := by
  have newer : lwwOrder (Key.hlc newYearStamp).text (Key.rfc newYear).text = .gt := by
    decide +kernel
  have tied : lwwOrder (Key.rfc newYear).text (Key.rfc newYearNano).text = .eq := by
    decide +kernel
  exact ⟨newer, tied, (lwwOrder_totalPreorder (.hlc newYearStamp) (.rfc newYear)
    (.rfc newYearNano)).2.2.2.1 newer tied⟩

end Litevirt.Sync

import Litevirt.Sync.Convergence

/-!
# Cycles of tied rows

Three rows that are tied pairwise can win in a circle only through the numeric ratchets, which
pass when a counter does not read as an integer.  The chains with ratchets have a later rule that
orders rows in any way, so every such disorder of the counters is a cycle of some rows.
-/

namespace Litevirt.Sync

open Litevirt.Lib Litevirt.Hlc List

def counters (rules : List Rule) : List Column :=
  rules.filterMap fun rule =>
    match rule with
    | .numericMax col => some col
    | _ => none

def beforeRatchet (rules : List Rule) : List Rule := rules.takeWhile fun rule => !rule.isNumeric

def afterRatchet (rules : List Rule) : List Rule :=
  (rules.dropWhile fun rule => !rule.isNumeric).dropWhile Rule.isNumeric

theorem ratchets_in_a_row : ∀ entry ∈ capabilityMap,
    entry.2 = beforeRatchet entry.2 ++ (counters entry.2).map Rule.numericMax ++
        afterRatchet entry.2 ∧
      ∀ rule ∈ beforeRatchet entry.2 ++ afterRatchet entry.2, rule.isNumeric = false := by
  decide +kernel

variable {table : String} {rules : List Rule}

theorem mem_capabilityMap (registered : capabilityMap.lookup table = some rules) :
    (table, rules) ∈ capabilityMap := by
  obtain ⟨front, back, split, -⟩ := lookup_eq_some_iff.mp registered
  rw [split]
  simp

theorem user2fa_names : bytes "last_step" ≠ bytes "last_used_at" ∧
    bytes "last_step" ≠ bytes "updated_at" ∧ bytes "updated_at" ≠ bytes "last_used_at" := by
  decide +kernel

variable [GoLayout] [GoValues]

def ratchet (cols : List Column) : Contest Row :=
  chain (cols.map fun col x y => counterVerdict (x col) (y col))

/-- When the ratchets put one row above another, a third row is below the first or
above the second. -/
def CountersOrdered (cols : List Column) (rows : List Row) : Prop :=
  ∀ x ∈ rows, ∀ y ∈ rows, ∀ z ∈ rows,
    ratchet cols x y = .first → ratchet cols x z = .first ∨ ratchet cols z y = .first

variable {cols names : List Column}

theorem chain_numericMax (known : ∀ col ∈ names, col ∈ cols) (x y : Row) :
    chain ((names.map Rule.numericMax).map (Rule.contest cols)) x y = ratchet names x y := by
  induction names with
  | nil => rfl
  | cons name rest ih =>
    have listed := known name mem_cons_self
    have tail := ih fun col member => known col (mem_cons_of_mem _ member)
    simp only [map_cons, chain, tail]
    congr 1
    simp [Rule.contest, Rule.apply, ruleNumericMax_verdict, listed]

theorem chain_ratchet (registered : capabilityMap.lookup table = some rules)
    (known : ∀ col ∈ counters rules, col ∈ cols) (x y : Row) :
    chain (rules.map (Rule.contest cols)) x y =
      chain ((beforeRatchet rules).map (Rule.contest cols) ++
        ratchet (counters rules) :: (afterRatchet rules).map (Rule.contest cols)) x y := by
  have split := (ratchets_in_a_row _ (mem_capabilityMap registered)).1
  simp only at split
  conv_lhs => rw [split]
  rw [map_append, map_append, chain_block, chain_append, chain_append, chain, chain,
    chain_numericMax known]

omit [GoLayout] in
theorem ratchet_fair (names : List Column) (x y : Row) : Fair (ratchet names) x y := by
  refine chain_fair fun contest member => ?_
  obtain ⟨col, -, rfl⟩ := mem_map.mp member
  exact counterVerdict_fair x y col

theorem not_cycle {a b c : Row} (registered : capabilityMap.lookup table = some rules)
    (known : ∀ col ∈ counters rules, col ∈ cols)
    (ordered : CountersOrdered (counters rules) [a, b, c]) :
    ¬ (Beats table cols a b ∧ Beats table cols b c ∧ Beats table cols c a) := by
  rintro ⟨⟨differAB, first⟩, ⟨differBC, second⟩, differCA, third⟩
  have plain := (ratchets_in_a_row _ (mem_capabilityMap registered)).2
  have won : ∀ {x y : Row}, Differ cols x y → (resolve table cols x y).isUnresolved = false ∧
      (resolve table cols x y).keepLocal = true →
      chain ((beforeRatchet rules).map (Rule.contest cols) ++
        ratchet (counters rules) :: (afterRatchet rules).map (Rule.contest cols)) x y = .first := by
    intro x y differ wins
    have verdict := resolve_verdict registered differ
    rw [Resolution.verdict_first.mpr wins, chain_ratchet registered known] at verdict
    generalize chain _ x y = outcome at verdict ⊢
    cases outcome <;> simp_all [Verdict.andThen]
  refine chain_acyclic ?_ ?_ ⟨won differAB first, won differBC second, won differCA third⟩
  all_goals
    intro contest among
    rcases mem_append.mp among with early | late
  · obtain ⟨rule, -, rfl⟩ := mem_map.mp early
    exact ⟨rule.fair differAB, rule.fair differBC, rule.fair differCA⟩
  · rcases mem_cons.mp late with rfl | late
    · exact ⟨ratchet_fair _ a b, ratchet_fair _ b c, ratchet_fair _ c a⟩
    · obtain ⟨rule, -, rfl⟩ := mem_map.mp late
      exact ⟨rule.fair differAB, rule.fair differBC, rule.fair differCA⟩
  · obtain ⟨rule, inChain, rfl⟩ := mem_map.mp early
    have isPlain := plain rule (mem_append_left _ inChain)
    exact ⟨Rule.separates differAB differCA.symm differBC.symm isPlain,
      Rule.separates differBC differAB.symm differCA.symm isPlain,
      Rule.separates differCA differBC.symm differAB.symm isPlain⟩
  · rcases mem_cons.mp late with rfl | late
    · have separate : ∀ x ∈ [a, b, c], ∀ y ∈ [a, b, c], ∀ z ∈ [a, b, c],
          Separates (ratchet (counters rules)) x y z := by
        intro x inX y inY z inZ above
        rcases ordered x inX y inY z inZ above with left | right
        · exact .inl left
        · exact .inr (.inl right)
      exact ⟨separate a (by simp) b (by simp) c (by simp),
        separate b (by simp) c (by simp) a (by simp), separate c (by simp) a (by simp) b (by simp)⟩
    · obtain ⟨rule, inChain, rfl⟩ := mem_map.mp late
      have isPlain := plain rule (mem_append_right _ inChain)
      exact ⟨Rule.separates differAB differCA.symm differBC.symm isPlain,
        Rule.separates differBC differAB.symm differCA.symm isPlain,
        Rule.separates differCA differBC.symm differAB.symm isPlain⟩

/-! ## Rows with given counters in any order -/

/-- A row with a clock and one more column set. -/
def marked (lever : Column) (cell : Cell) (counters : Row) : Row := fun col =>
  if col = lever then cell
  else if col = bytes "updated_at" then .text (bytes "2024-01-01T00:00:00Z")
  else counters col

omit [GoLayout] in
theorem image_marked {lever : Column} {rest : List Column}
    (sorted : (lever :: rest).Pairwise fun a b => ¬ byteValues b < byteValues a) (cell : Cell)
    (counters : Row) :
    image (lever :: rest) (marked lever cell counters) =
      byteValues (encodePair (lever, cell) ++
        (rest.map fun name => (name, marked lever cell counters name)).flatMap encodePair) := by
  have inOrder : ((lever :: rest).map fun name =>
      (name, marked lever cell counters name)).Pairwise NameLE := pairwise_map.mpr sorted
  unfold image
  rw [inOrder.insertionSort_eq]
  simp [marked]

/-- The place that a lever gives a row, as a digit. -/
inductive Place where
  | low
  | middle
  | high

def Place.digit : Place → UInt8
  | .low => 49
  | .middle => 50
  | .high => 51

def Place.second (place : Place) : Bytes := bytes "2024-01-01T00:00:0" ++ [place.digit, 90]

def leverText (lever : Column) : Bytes :=
  padMin 1 lever.length ++ 58 :: (lever ++ bytes "=V20:2024-01-01T00:00:0")

omit [GoLayout] in
theorem encodePair_place (lever : Column) (place : Place) :
    encodePair (lever, .text place.second) = leverText lever ++ [place.digit, 90] := by
  have cell : 61 :: encodeCell (.text place.second) =
      bytes "=V20:2024-01-01T00:00:0" ++ [place.digit, 90] := by
    change 61 :: 86 :: (padMin 1 place.second.length ++ 58 :: place.second) = _
    cases place <;> decide +kernel
  simp only [encodePair, leverText, cell, append_assoc, cons_append]

variable {p q : Place}

omit [GoLayout] in
theorem image_lt {lever : Column} {rest : List Column}
    (sorted : (lever :: rest).Pairwise fun a b => ¬ byteValues b < byteValues a)
    (below : q.digit < p.digit) (x y : Row) :
    image (lever :: rest) (marked lever (.text q.second) y) <
      image (lever :: rest) (marked lever (.text p.second) x) := by
  rw [image_marked sorted, image_marked sorted, encodePair_place, encodePair_place]
  simp only [byteValues, map_append, append_assoc, map_cons, cons_append]
  exact append_left_lt (cons_lt_cons_iff.mpr (.inl below))

def Rule.unlisted (cols : List Column) : Rule → Bool
  | .tombstone => decide (bytes "deleted_at" ∉ cols)
  | .colUnresolved col _ => decide (col ∉ cols)
  | .anyColUnresolved names _ => names.all fun col => decide (col ∉ cols)
  | .numericMax col => decide (col ∉ cols)
  | .timestampMax col => decide (col ∉ cols)
  | .nonNullWins col => decide (col ∉ cols)
  | .lbGeneration col => decide (col ∉ cols)
  | .contentMax => false
  | .unresolved _ => false

theorem Rule.contest_unlisted {rule : Rule} (unlisted : rule.unlisted cols = true) (x y : Row) :
    rule.contest cols x y = .pass := by
  unfold Rule.contest
  cases rule with
  | tombstone => rw [Rule.apply, ruleTombstone_verdict, if_neg (of_decide_eq_true unlisted)]
  | colUnresolved col category =>
    rw [Rule.apply, ruleColUnresolved_verdict, if_neg (of_decide_eq_true unlisted)]
  | anyColUnresolved names category =>
    have none : names.filter (· ∈ cols) = [] := by
      rw [filter_eq_nil_iff]
      intro col member
      simpa using all_eq_true.mp unlisted col member
    rw [Rule.apply, ruleAnyColUnresolved_verdict, none]
    simp [sameKey]
  | numericMax col => rw [Rule.apply, ruleNumericMax_verdict, if_neg (of_decide_eq_true unlisted)]
  | timestampMax col =>
    rw [Rule.apply, ruleTimestampMax_verdict, if_neg (of_decide_eq_true unlisted)]
  | nonNullWins col => rw [Rule.apply, ruleNonNullWins_verdict, if_neg (of_decide_eq_true unlisted)]
  | lbGeneration col =>
    rw [Rule.apply, ruleLBGeneration_verdict, if_neg (of_decide_eq_true unlisted)]
  | contentMax | unresolved category => cases unlisted

theorem chain_unlisted (unlisted : ∀ rule ∈ rules, rule.unlisted cols = true) (x y : Row) :
    chain (rules.map (Rule.contest cols)) x y = .pass := by
  refine chain_pass fun contest member => ?_
  obtain ⟨rule, inRules, rfl⟩ := mem_map.mp member
  exact Rule.contest_unlisted (unlisted rule inRules) x y

def AgreeOn (cols : List Column) (r s : Row) : Prop := ∀ col ∈ cols, r col = s col

/-- A column that orders rows of a table with any counters by the rules after the
ratchets. -/
structure Lever (rules : List Rule) where
  column : Column
  cols : List Column
  known : ∀ col ∈ counters rules, col ∈ cols
  free : ∀ col ∈ counters rules, col ≠ column ∧ col ≠ bytes "updated_at"
  clock : bytes "updated_at" ≠ column
  differ : ∀ {p q : Place}, q.digit < p.digit → ∀ x y,
    Differ cols (marked column (.text p.second) x) (marked column (.text q.second) y)
  before : ∀ rule ∈ beforeRatchet rules, rule.unlisted cols = true
  decides : ∀ {p q : Place}, q.digit < p.digit → ∀ x y,
    chain ((afterRatchet rules).map (Rule.contest cols)) (marked column (.text p.second) x)
      (marked column (.text q.second) y) = .first

def Lever.mark {rules : List Rule} (lever : Lever rules) (place : Place) (row : Row) : Row :=
  marked lever.column (.text place.second) row

theorem Lever.kept (lever : Lever rules) (place : Place) (row : Row) :
    AgreeOn (counters rules) (lever.mark place row) row := by
  intro col member
  obtain ⟨notLever, notClock⟩ := lever.free col member
  simp [Lever.mark, marked, notLever, notClock]

def contentLever (rules : List Rule) (lever : Column) (rest : List Column)
    (sorted : (lever :: rest).Pairwise fun a b => ¬ byteValues b < byteValues a)
    (unique : (lever :: rest).Nodup) (clockFree : bytes "updated_at" ≠ lever)
    (known : ∀ col ∈ counters rules, col ∈ rest ∧ col ≠ bytes "updated_at")
    (before : ∀ rule ∈ beforeRatchet rules, rule.unlisted (lever :: rest) = true)
    (after : afterRatchet rules = (afterRatchet rules).dropLast ++ [.contentMax])
    (free : ∀ rule ∈ (afterRatchet rules).dropLast, rule.unlisted (lever :: rest) = true) :
    Lever rules where
  column := lever
  cols := lever :: rest
  known := fun col member => mem_cons_of_mem _ (known col member).1
  free := by
    intro col member
    refine ⟨?_, (known col member).2⟩
    rintro rfl
    exact (nodup_cons.mp unique).1 (known _ member).1
  clock := clockFree
  differ := fun below x y => (differ_iff _ _ _).mpr fun _ => (image_lt sorted below x y).ne'
  before := before
  decides := by
    intro p q below x y
    have differ := (differ_iff _ _ _).mpr fun _ => (image_lt sorted below x y).ne'
    rw [after, map_append, chain_append, chain_unlisted free, Verdict.pass_andThen]
    simp only [map_cons, map_nil, chain, Verdict.andThen_pass, Rule.contest, Rule.apply,
      ruleContentMax_verdict differ, unique, ↓reduceIte]
    simp [byKey, image_lt sorted below x y]

def vmsLever : Lever vmsChain :=
  contentLever vmsChain (bytes "created_at")
    [bytes "spec_generation", bytes "updated_at", bytes "vm_owner_epoch"]
    (by decide +kernel) (by decide +kernel) (by decide +kernel) (by decide +kernel)
    (by decide +kernel) (by decide +kernel) (by decide +kernel)

def containersLever : Lever containersChain :=
  contentLever containersChain (bytes "created_at")
    [bytes "owner_epoch", bytes "spec_generation", bytes "updated_at"]
    (by decide +kernel) (by decide +kernel) (by decide +kernel) (by decide +kernel)
    (by decide +kernel) (by decide +kernel) (by decide +kernel)

def user2faCols : List Column := [bytes "last_step", bytes "last_used_at", bytes "updated_at"]

def Place.instant : Place → Int
  | .low => 1704067201000000000
  | .middle => 1704067202000000000
  | .high => 1704067203000000000

omit [GoValues] in
theorem instantRank_second (place : Place) : instantRank place.second = (place.instant : Int) := by
  have strict : parseRFC3339 place.second = some place.instant := by
    cases place <;> decide +kernel
  have written : place.second ≠ [] := by simp [Place.second]
  exact instantRank_some (by simp [parseInstant, written, timeParse, strict])

omit [GoLayout] [GoValues] in
theorem Place.instant_lt (below : q.digit < p.digit) : q.instant < p.instant := by
  revert below
  cases p <;> cases q <;> decide

omit [GoLayout] in
theorem image_user2fa (place : Place) (row : Row) :
    image user2faCols (marked (bytes "last_used_at") (.text place.second) row) =
      byteValues (encodePair (bytes "last_step", row (bytes "last_step")) ++
        leverText (bytes "last_used_at") ++ ([place.digit, 90] ++
          encodePair (bytes "updated_at", .text (bytes "2024-01-01T00:00:00Z")))) := by
  have inOrder : (user2faCols.map fun name =>
      (name, marked (bytes "last_used_at") (.text place.second) row name)).Pairwise NameLE := by
    refine pairwise_map.mpr ?_
    change user2faCols.Pairwise fun a b => ¬ byteValues b < byteValues a
    decide +kernel
  obtain ⟨notLever, notClock, clockFree⟩ := user2fa_names
  unfold image
  rw [inOrder.insertionSort_eq]
  simp only [user2faCols, map_cons, map_nil, flatMap_cons, flatMap_nil, marked,
    notLever, notClock, clockFree, ↓reduceIte, encodePair_place, append_nil,
    append_assoc]

def user2faLever : Lever user2faChain where
  column := bytes "last_used_at"
  cols := user2faCols
  known := by decide +kernel
  free := by decide +kernel
  clock := user2fa_names.2.2
  differ := by
    intro p q below x y
    refine (differ_iff _ _ _).mpr fun _ same => ?_
    rw [image_user2fa, image_user2fa] at same
    have suffixes := append_inj_right' (byteValues_injective same) rfl
    have digits : p.digit = q.digit := by simpa using suffixes
    rw [digits] at below
    exact UInt8.lt_irrefl _ below
  before := by decide +kernel
  decides := by
    intro p q below x y
    have after : afterRatchet user2faChain =
        [.timestampMax (bytes "last_used_at"), .unresolved .authFactor] := by decide +kernel
    have listed : bytes "last_used_at" ∈ user2faCols := by decide +kernel
    have text : ∀ (place : Place) (row : Row), field user2faCols (bytes "last_used_at")
        (marked (bytes "last_used_at") (.text place.second) row) = place.second := by
      intro place row
      simp [field, RowView.cellStr_map, listed, marked, coerceString]
    have above : ((q.instant : Int) : WithBot Int) < (p.instant : Int) :=
      WithBot.coe_lt_coe.mpr (Place.instant_lt below)
    rw [after, map_cons, chain]
    simp only [Rule.contest, Rule.apply, ruleTimestampMax_verdict, listed, ↓reduceIte, byKey, text,
      instantRank_second, above]
    rfl

theorem exists_lever (registered : capabilityMap.lookup table = some rules)
    (some : counters rules ≠ []) : Nonempty (Lever rules) := by
  have three : ∀ entry ∈ capabilityMap, counters entry.2 ≠ [] →
      entry.2 = vmsChain ∨ entry.2 = containersChain ∨ entry.2 = user2faChain := by
    decide +kernel
  rcases three _ (mem_capabilityMap registered) some with rfl | rfl | rfl
  · exact ⟨vmsLever⟩
  · exact ⟨containersLever⟩
  · exact ⟨user2faLever⟩

/-! ## Three tied rows -/

def Tied (r s : Row) : Prop :=
  lwwOrder (coerceString (r (bytes "updated_at"))) (coerceString (s (bytes "updated_at"))) = .eq

/-- Any two of the rows converge, and no three of them win in a circle. -/
structure TiesConverge (table : String) (cols : List Column) (rows : List Row) : Prop where
  pairs : ∀ r ∈ rows, ∀ s ∈ rows, ∀ cols', cols.Perm cols' → PairConverges table cols cols' r s
  acyclic : ∀ r ∈ rows, ∀ s ∈ rows, ∀ t ∈ rows, ∀ cols₁ cols₂ cols₃,
    cols.Perm cols₁ → cols.Perm cols₂ → cols.Perm cols₃ →
    ¬ (Beats table cols₁ r s ∧ Beats table cols₂ s t ∧ Beats table cols₃ t r)

omit [GoLayout] in
theorem ratchet_congr {x x' y y' : Row} (agreeX : AgreeOn names x x')
    (agreeY : AgreeOn names y y') : ratchet names x y = ratchet names x' y' := by
  unfold ratchet
  induction names with
  | nil => rfl
  | cons name rest ih =>
    have tail := ih (fun col member => agreeX col (mem_cons_of_mem _ member))
      fun col member => agreeY col (mem_cons_of_mem _ member)
    simp only [map_cons, chain, tail, agreeX name mem_cons_self,
      agreeY name mem_cons_self]

theorem beats_perm {cols' : List Column} (perm : cols.Perm cols') {r s : Row} :
    Beats table cols' r s ↔ Beats table cols r s := by
  unfold Beats
  rw [resolve_perm perm, differ_perm perm]

theorem tiesConverge_of_ordered {rows : List Row}
    (registered : capabilityMap.lookup table = some rules)
    (known : ∀ col ∈ counters rules, col ∈ cols) (ordered : CountersOrdered (counters rules) rows) :
    TiesConverge table cols rows := by
  refine ⟨fun r _ s _ cols' perm => pairConverges registered perm r s, ?_⟩
  intro r inR s inS t inT cols₁ cols₂ cols₃ perm₁ perm₂ perm₃ ⟨first, second, third⟩
  have among : ∀ row ∈ [r, s, t], row ∈ rows := by
    simp [inR, inS, inT]
  have orderedThree : CountersOrdered (counters rules) [r, s, t] :=
    fun x inX y inY z inZ => ordered x (among x inX) y (among y inY) z (among z inZ)
  exact not_cycle registered known orderedThree
    ⟨(beats_perm perm₁).mp first, (beats_perm perm₂).mp second, (beats_perm perm₃).mp third⟩

theorem Lever.beats (lever : Lever rules) (registered : capabilityMap.lookup table = some rules)
    (x y : Row) (differ : Differ lever.cols (lever.mark p x) (lever.mark q y))
    (won : (ratchet (counters rules) x y).andThen
      (chain ((afterRatchet rules).map (Rule.contest lever.cols)) (lever.mark p x)
        (lever.mark q y)) = .first) : Beats table lever.cols (lever.mark p x) (lever.mark q y) := by
  refine ⟨differ, Resolution.verdict_first.mp ?_⟩
  rw [resolve_verdict registered differ, chain_ratchet registered lever.known, chain_append,
    chain_unlisted lever.before, chain,
    ratchet_congr (lever.kept p x) (lever.kept q y), won]
  rfl

omit [GoLayout] in
theorem ratchet_ne_unresolved (names : List Column) (x y : Row) :
    ratchet names x y ≠ .unresolved := by
  unfold ratchet
  induction names with
  | nil => simp [chain]
  | cons name rest ih =>
    simp only [map_cons, chain]
    have head : counterVerdict (x name) (y name) ≠ .unresolved := by
      unfold counterVerdict
      repeat' split
      all_goals simp
    cases verdict : counterVerdict (x name) (y name) <;> simp_all [Verdict.andThen]

theorem exists_cycle (registered : capabilityMap.lookup table = some rules) {x y z : Row}
    (above : ratchet (counters rules) x y = .first)
    (notBelow : ratchet (counters rules) x z ≠ .first)
    (notAbove : ratchet (counters rules) z y ≠ .first) :
    ∃ cols x' y' z', (∀ col ∈ counters rules, col ∈ cols) ∧
      AgreeOn (counters rules) x' x ∧ AgreeOn (counters rules) y' y ∧
      AgreeOn (counters rules) z' z ∧
      (∀ r ∈ [x', y', z'], ∀ s ∈ [x', y', z'], Tied r s) ∧
      Beats table cols x' y' ∧ Beats table cols y' z' ∧ Beats table cols z' x' := by
  have some : counters rules ≠ [] := by
    intro none
    rw [none] at above
    cases above
  obtain ⟨lever⟩ := exists_lever registered some
  -- where the ratchets do not put the first row below, the lever's order wins
  have levered : ∀ {p q : Place} {u v : Row}, q.digit < p.digit →
      ratchet (counters rules) v u ≠ .first →
      Beats table lever.cols (lever.mark p u) (lever.mark q v) := by
    intro p q u v below notAbove
    refine lever.beats registered u v (lever.differ below u v) ?_
    have ordered : chain ((afterRatchet rules).map (Rule.contest lever.cols)) (lever.mark p u)
        (lever.mark q v) = .first := lever.decides below u v
    rw [ratchet_fair _ u v] at notAbove
    have resolved := ratchet_ne_unresolved (counters rules) u v
    generalize ratchet (counters rules) u v = verdict at notAbove resolved
    cases verdict <;> simp_all [Verdict.swap, Verdict.andThen]
  have tied : ∀ (p q : Place) (u v : Row), Tied (lever.mark p u) (lever.mark q v) := by
    intro p q u v
    simp only [Tied, Lever.mark, marked, lever.clock, ↓reduceIte]
    exact lwwOrder_self _
  refine ⟨lever.cols, lever.mark .low x, lever.mark .high y, lever.mark .middle z, lever.known,
    lever.kept _ _, lever.kept _ _, lever.kept _ _, by simp [tied],
    lever.beats registered x y (lever.differ (by decide) y x).symm (by rw [above]; rfl),
    levered (by decide) notAbove, levered (by decide) notBelow⟩

omit [GoLayout] in
theorem CountersOrdered.congr {rows rows' : List Row} (ordered : CountersOrdered names rows)
    (agree : ∀ row' ∈ rows', ∃ row ∈ rows, AgreeOn names row' row) :
    CountersOrdered names rows' := by
  intro x inX y inY z inZ above
  obtain ⟨x₀, inX₀, agreeX⟩ := agree x inX
  obtain ⟨y₀, inY₀, agreeY⟩ := agree y inY
  obtain ⟨z₀, inZ₀, agreeZ⟩ := agree z inZ
  rw [ratchet_congr agreeX agreeY] at above
  rw [ratchet_congr agreeX agreeZ, ratchet_congr agreeZ agreeY]
  exact ordered x₀ inX₀ y₀ inY₀ z₀ inZ₀ above

/-- Tied rows of a table with given counters converge in every case exactly when the
ratchets order the counters. -/
theorem tiesConverge_iff_countersOrdered {table : String} {rules : List Rule}
    (registered : capabilityMap.lookup table = some rules) (a b c : Row) :
    (∀ cols x y z, (∀ col ∈ counters rules, col ∈ cols) →
      AgreeOn (counters rules) x a → AgreeOn (counters rules) y b →
      AgreeOn (counters rules) z c → (∀ r ∈ [x, y, z], ∀ s ∈ [x, y, z], Tied r s) →
      TiesConverge table cols [x, y, z]) ↔
      CountersOrdered (counters rules) [a, b, c] := by
  constructor
  · intro converge x inX y inY z inZ above
    by_contra disorder
    obtain ⟨notBelow, notAbove⟩ := not_or.mp disorder
    obtain ⟨cols, x', y', z', known, agreeX, agreeY, agreeZ, tied, cycle⟩ :=
      exists_cycle registered above notBelow notAbove
    -- the three rows are the given ones in some order
    have xy : x ≠ y := by
      rintro rfl
      have self := ratchet_fair (counters rules) x x
      unfold Fair at self
      rw [above] at self
      cases self
    have xz : x ≠ z := by
      rintro rfl
      exact notAbove above
    have zy : z ≠ y := by
      rintro rfl
      exact notBelow above
    have refuted : ∀ p q r, AgreeOn (counters rules) p a → AgreeOn (counters rules) q b →
        AgreeOn (counters rules) r c → [p, q, r].Perm [x', y', z'] → False := by
      intro p q r agreeP agreeQ agreeR perm
      have converges := converge cols p q r known agreeP agreeQ agreeR fun u inU v inV =>
        tied u (perm.mem_iff.mp inU) v (perm.mem_iff.mp inV)
      exact converges.acyclic x' (perm.mem_iff.mpr (by simp)) y' (perm.mem_iff.mpr (by simp)) z'
        (perm.mem_iff.mpr (by simp)) cols cols cols (.refl _) (.refl _) (.refl _) cycle
    simp only [mem_cons, not_mem_nil, or_false] at inX inY inZ
    rcases inX with rfl | rfl | rfl <;> rcases inY with rfl | rfl | rfl <;>
      rcases inZ with rfl | rfl | rfl
    all_goals first
      | exact absurd rfl xy
      | exact absurd rfl xz
      | exact absurd rfl zy
      | exact refuted x' y' z' agreeX agreeY agreeZ (.refl _)
      | exact refuted x' z' y' agreeX agreeZ agreeY (.cons _ (.swap _ _ _))
      | exact refuted y' x' z' agreeY agreeX agreeZ (.swap _ _ _)
      | exact refuted z' x' y' agreeZ agreeX agreeY
          ((List.Perm.swap _ _ _).trans (.cons _ (.swap _ _ _)))
      | exact refuted y' z' x' agreeY agreeZ agreeX
          ((List.Perm.cons _ (.swap _ _ _)).trans (.swap _ _ _))
      | exact refuted z' y' x' agreeZ agreeY agreeX
          ((List.Perm.swap _ _ _).trans ((List.Perm.cons _ (.swap _ _ _)).trans (.swap _ _ _)))
  · intro ordered cols x y z known agreeA agreeB agreeC _
    exact tiesConverge_of_ordered registered known (ordered.congr (by
      simp only [mem_cons, not_mem_nil, or_false, forall_eq_or_imp, forall_eq,
        exists_eq_or_imp, exists_eq_left]
      exact ⟨.inl agreeA, .inr (.inl agreeB), .inr (.inr agreeC)⟩))

instance (cols : List Column) (r s : Row) : Decidable (Differ cols r s) :=
  inferInstanceAs (Decidable (_ = false))

instance (table : String) (cols : List Column) (r s : Row) : Decidable (Beats table cols r s) :=
  inferInstanceAs (Decidable (_ ∧ _ ∧ _))

instance (cols : List Column) (r s : Row) : Decidable (AgreeOn cols r s) :=
  inferInstanceAs (Decidable (∀ col ∈ cols, _))

instance (r s : Row) : Decidable (Tied r s) := inferInstanceAs (Decidable (_ = Ordering.eq))

instance (names : List Column) (rows : List Row) : Decidable (CountersOrdered names rows) := by
  unfold CountersOrdered
  infer_instance

end Litevirt.Sync

namespace Litevirt.Sync

open Litevirt.Lib Litevirt.Hlc

/-- No value needs the formats that are not written out. -/
@[reducible] def plainValues : GoValues := ⟨fun _ => [], fun _ => [], fun _ => 0, id⟩

attribute [local instance] strictLayout plainValues

/-- A TOTP factor as a dump presents it. -/
def factor (step : Int) (usedAt : Bytes) : Row :=
  marked (bytes "last_used_at") (.text usedAt) fun _ => .float (.whole step)

theorem small_steps_converge :
    TiesConverge "user_2fa" user2faCols
      [factor 5 (Place.second .low), factor 3 (Place.second .high),
        factor 2 (Place.second .middle)] :=
  (tiesConverge_iff_countersOrdered
    (show List.lookup "user_2fa" capabilityMap = some user2faChain by decide +kernel)
    (fun _ => .float (.whole 5)) (fun _ => .float (.whole 3)) (fun _ => .float (.whole 2))).mpr
    (by decide +kernel) user2faCols _ _ _ (by decide +kernel)
    (by decide +kernel) (by decide +kernel) (by decide +kernel) (by decide +kernel)

/-- A step of seven digits is read as a number with an exponent, so the ratchet passes
on it and three tied factors win in a circle. -/
theorem large_step_cycles :
    (∀ r ∈ [factor 5 (Place.second .low), factor 3 (Place.second .high),
        factor 2000000 (Place.second .middle)],
      ∀ s ∈ [factor 5 (Place.second .low), factor 3 (Place.second .high),
        factor 2000000 (Place.second .middle)], Tied r s) ∧
      Beats "user_2fa" user2faCols (factor 5 (Place.second .low)) (factor 3 (Place.second .high)) ∧
      Beats "user_2fa" user2faCols
        (factor 3 (Place.second .high)) (factor 2000000 (Place.second .middle)) ∧
      Beats "user_2fa" user2faCols
        (factor 2000000 (Place.second .middle)) (factor 5 (Place.second .low)) := by
  decide +kernel

end Litevirt.Sync

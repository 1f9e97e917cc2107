import Litevirt.Sync.Cycles

/-!
# The numeric ratchets through anti-entropy

Anti-entropy presents both rows of a tie after a JSON round trip, so an integer
counter arrives as a double and the ratchet reads the text of that double.  From seven
digits on the text has an exponent, which is no integer, and the ratchet passes.
-/

namespace Litevirt.Sync

open Litevirt.Lib Litevirt.Hlc List

def earlierRules (rules : List Rule) (col : Column) : List Rule :=
  rules.takeWhile fun rule => decide (rule ≠ .numericMax col)

def laterRules (rules : List Rule) (col : Column) : List Rule :=
  (rules.dropWhile fun rule => decide (rule ≠ .numericMax col)).tail

theorem registered_ratchet : ∀ entry ∈ capabilityMap, ∀ col ∈ counters entry.2,
    entry.2 = earlierRules entry.2 col ++ .numericMax col :: laterRules entry.2 col ∧
      ∀ rule ∈ earlierRules entry.2 col, rule ∈ beforeRatchet entry.2 ∨
        ∃ other ∈ counters entry.2, other ≠ col ∧ rule = .numericMax other := by
  decide +kernel

variable [GoLayout] [GoValues]

/-- A row as anti-entropy presents it: scanned or decoded from a dump. -/
def present (row : Row) : Row := fun col => jsonRoundTrip (row col)

def SelectsLocal (table : String) (cols : List Column) (localRow incomingRow : Row) : Prop :=
  (resolve table cols localRow incomingRow).isUnresolved = false ∧
    (resolve table cols localRow incomingRow).keepLocal = true

def SelectsIncoming (table : String) (cols : List Column) (localRow incomingRow : Row) : Prop :=
  (resolve table cols localRow incomingRow).isUnresolved = false ∧
    (resolve table cols localRow incomingRow).keepLocal = false

/-- A tie between stored rows, with no rule before the ratchet deciding it, does not
select the row in either direction. -/
def NeverSelected (table : String) (rules : List Rule) (col : Column) (m n : Int64) : Prop :=
  ∀ cols r s, col ∈ cols → r col = .int m → s col = .int n → Tied r s →
    chain ((earlierRules rules col).map (Rule.contest cols)) (present r) (present s) = .pass →
    ¬ SelectsLocal table cols (present r) (present s) ∧
      ¬ SelectsIncoming table cols (present s) (present r)

variable {n : Int64}

omit [GoLayout] in
theorem jsonRoundTrip_int (small : n.toInt.natAbs < 2 ^ 53) :
    jsonRoundTrip (.int n) = .float (.whole n.toInt) := by
  simp only [jsonRoundTrip, if_pos small]

variable {col : Column}

omit [GoLayout] in
theorem differ_of_cellValue {cols : List Column} {r s : Row} (listed : col ∈ cols)
    (different : cellValue (r col) ≠ cellValue (s col)) : Differ cols r s := by
  refine (differ_iff cols r s).mpr fun _ same => different ?_
  have entries := flatMap_encodePair_inj.mp (byteValues_injective same)
  have held : (col, r col) ∈ (cols.map fun name => (name, r name)).insertionSort NameLE :=
    (mem_insertionSort NameLE).mpr (mem_map.mpr ⟨col, listed, rfl⟩)
  have held := mem_map_of_mem (f := entry) held
  rw [entries] at held
  simpa [entry, listed, eq_comm] using held

omit [GoLayout] in
theorem cellValue_whole_ne {m n : Int} (smallM : m.natAbs < 2 ^ 53) (smallN : n.natAbs < 2 ^ 53)
    (different : m ≠ n) : cellValue (.float (.whole m)) ≠ cellValue (.float (.whole n)) := by
  intro same
  have texts : formatInt m = formatInt n := Option.some.inj same
  have parsedM : parseInt 64 (formatInt m) = some m := parseInt_formatInt (by omega)
  rw [texts, parseInt_formatInt (by omega)] at parsedM
  exact different (Option.some.inj parsedM).symm

variable {m : Int64} {rules : List Rule}

theorem neverSelected_of_small {table : String}
    (registered : capabilityMap.lookup table = some rules) (isCounter : col ∈ counters rules)
    (less : m.toInt < n.toInt) (smallM : m.toInt.natAbs < 1000000)
    (smallN : n.toInt.natAbs < 1000000) : NeverSelected table rules col m n := by
  intro cols r s listed cellR cellS _ pass
  have presentR : present r col = .float (.whole m.toInt) := by
    rw [present, cellR, jsonRoundTrip_int (by omega)]
  have presentS : present s col = .float (.whole n.toInt) := by
    rw [present, cellS, jsonRoundTrip_int (by omega)]
  have differ : Differ cols (present r) (present s) := by
    refine differ_of_cellValue listed ?_
    rw [presentR, presentS]
    exact cellValue_whole_ne (by omega) (by omega) (by omega)
  have split := (registered_ratchet _ (mem_capabilityMap registered) col isCounter).1
  simp only at split
  have second : chain (rules.map (Rule.contest cols)) (present r) (present s) = .second := by
    rw [split, map_append, chain_append, pass, map_cons, chain]
    have decided : Rule.contest cols (.numericMax col) (present r) (present s) = .second := by
      rw [Rule.contest, Rule.apply, ruleNumericMax_verdict, if_pos listed, presentR, presentS,
        counterVerdict, counterOf_whole, counterOf_whole, if_pos smallM, if_pos smallN]
      simp only
      rw [if_neg (by omega), if_neg (by omega)]
    rw [decided]
    rfl
  have fair : Fair (chain (rules.map (Rule.contest cols))) (present r) (present s) := by
    refine chain_fair fun contest member => ?_
    obtain ⟨rule, -, rfl⟩ := mem_map.mp member
    exact rule.fair differ
  have forth := resolve_verdict registered differ
  have back := resolve_verdict registered differ.symm
  rw [second] at forth
  rw [fair, second] at back
  constructor
  · intro selected
    rw [Resolution.verdict_first.mpr selected] at forth
    cases forth
  · rintro ⟨resolved, taken⟩
    rw [Resolution.verdict, resolved, taken] at back
    cases back

theorem present_mark (lever : Lever rules) (place : Place) (row : Row) :
    present (lever.mark place row) = lever.mark place (present row) := by
  have plain : ∀ place : Place, place.second.all (· < 128) = true := by
    intro place
    cases place <;> decide +kernel
  have plainClock : (bytes "2024-01-01T00:00:00Z").all (· < 128) = true := by decide +kernel
  funext col
  simp only [present, Lever.mark, marked]
  split
  · simp only [jsonRoundTrip, plain, ↓reduceIte]
  · split
    · simp only [jsonRoundTrip, plainClock, ↓reduceIte]
    · rfl

/-- Every counter but one is zero. -/
def counting (col : Column) (n : Int64) : Row := fun name => if name = col then .int n else .int 0

omit [GoLayout] in
theorem counterVerdict_large {m n : Int} (large : ¬ (m.natAbs < 1000000 ∧ n.natAbs < 1000000)) :
    counterVerdict (.float (.whole m)) (.float (.whole n)) = .pass := by
  rw [counterVerdict, counterOf_whole, counterOf_whole]
  by_cases smallM : m.natAbs < 1000000
  · rw [if_pos smallM, if_neg fun smallN => large ⟨smallM, smallN⟩]
  · rw [if_neg smallM]

omit [GoLayout] in
theorem counterVerdict_counting (smallM : m.toInt.natAbs < 2 ^ 53)
    (smallN : n.toInt.natAbs < 2 ^ 53)
    (large : ¬ (m.toInt.natAbs < 1000000 ∧ n.toInt.natAbs < 1000000)) (name : Column) :
    counterVerdict (present (counting col m) name) (present (counting col n) name) = .pass := by
  by_cases same : name = col
  · simp only [present, counting, if_pos same, jsonRoundTrip_int smallM, jsonRoundTrip_int smallN]
    exact counterVerdict_large large
  · have zero : jsonRoundTrip (.int 0) = .float (.whole 0) := jsonRoundTrip_int (by decide)
    simp only [present, counting, if_neg same, zero, counterVerdict, counterOf_whole]
    rfl

theorem selected_of_large {table : String} (registered : capabilityMap.lookup table = some rules)
    (isCounter : col ∈ counters rules) (smallM : m.toInt.natAbs < 2 ^ 53)
    (smallN : n.toInt.natAbs < 2 ^ 53)
    (large : ¬ (m.toInt.natAbs < 1000000 ∧ n.toInt.natAbs < 1000000)) :
    ¬ NeverSelected table rules col m n := by
  obtain ⟨lever⟩ := exists_lever registered (ne_nil_of_mem isCounter)
  have counts : ∀ name, counterVerdict (present (counting col m) name)
      (present (counting col n) name) = .pass := counterVerdict_counting smallM smallN large
  have cell : ∀ place k, lever.mark place (counting col k) col = .int k := by
    intro place k
    rw [lever.kept place _ col isCounter, counting, if_pos rfl]
  have tied : Tied (lever.mark .high (counting col m)) (lever.mark .low (counting col n)) := by
    simp only [Tied, Lever.mark, marked, lever.clock, ↓reduceIte]
    exact lwwOrder_self _
  have early : chain ((earlierRules rules col).map (Rule.contest lever.cols))
      (present (lever.mark .high (counting col m)))
      (present (lever.mark .low (counting col n))) = .pass := by
    refine chain_pass fun contest member => ?_
    obtain ⟨rule, inEarlier, rfl⟩ := mem_map.mp member
    rcases (registered_ratchet _ (mem_capabilityMap registered) col isCounter).2 rule inEarlier
      with before | ⟨other, inCounters, -, rfl⟩
    · exact Rule.contest_unlisted (lever.before rule before) _ _
    · rw [Rule.contest, Rule.apply, ruleNumericMax_verdict, if_pos (lever.known other inCounters),
        present_mark, present_mark, lever.kept _ _ other inCounters,
        lever.kept _ _ other inCounters]
      exact counts other
  have passed : ratchet (counters rules) (present (counting col m)) (present (counting col n)) =
      .pass := by
    refine chain_pass fun contest member => ?_
    obtain ⟨name, -, rfl⟩ := mem_map.mp member
    exact counts name
  have beats : Beats table lever.cols (lever.mark .high (present (counting col m)))
      (lever.mark .low (present (counting col n))) := by
    refine lever.beats registered _ _ (lever.differ (by decide) _ _) ?_
    rw [passed]
    exact lever.decides (by decide) _ _
  intro never
  refine (never lever.cols _ _ (lever.known col isCounter) (cell .high m) (cell .low n) tied
    early).1 ?_
  rw [present_mark, present_mark]
  exact beats.2

/-- A ratchet never goes back through anti-entropy exactly between counters of at most
six digits. -/
theorem neverSelected_iff_sixDigits {table : String} {rules : List Rule} {col : Column}
    {m n : Int64} (registered : capabilityMap.lookup table = some rules)
    (isCounter : col ∈ counters rules) (less : m.toInt < n.toInt)
    (smallM : m.toInt.natAbs < 2 ^ 53) (smallN : n.toInt.natAbs < 2 ^ 53) :
    NeverSelected table rules col m n ↔
      m.toInt.natAbs < 1000000 ∧ n.toInt.natAbs < 1000000 := by
  constructor
  · intro never
    by_contra large
    exact selected_of_large registered isCounter smallM smallN large never
  · rintro ⟨sixM, sixN⟩
    exact neverSelected_of_small registered isCounter less sixM sixN

end Litevirt.Sync

namespace Litevirt.Sync

open Litevirt.Lib Litevirt.Hlc

attribute [local instance] strictLayout plainValues

/-- The last steps 5 and 7 of a TOTP factor. -/
theorem small_last_step_kept :
    NeverSelected "user_2fa" user2faChain (bytes "last_step") 5 7 :=
  (neverSelected_iff_sixDigits (by decide +kernel) (by decide +kernel) (by decide) (by decide)
    (by decide)).mpr (by decide)

def storedFactor (step : Int64) (usedAt : Bytes) : Row :=
  marked (bytes "last_used_at") (.text usedAt) fun _ => .int step

/-- The spent step 56000001 goes back to 56000000 when the older factor was used later. -/
theorem last_step_goes_back :
    Tied (storedFactor 56000000 (Place.second .high)) (storedFactor 56000001 (Place.second .low)) ∧
      @chain Row ((earlierRules user2faChain (bytes "last_step")).map
          (Rule.contest user2faCols))
        (present (storedFactor 56000000 (Place.second .high)))
        (present (storedFactor 56000001 (Place.second .low))) = .pass ∧
      SelectsLocal "user_2fa" user2faCols (present (storedFactor 56000000 (Place.second .high)))
        (present (storedFactor 56000001 (Place.second .low))) ∧
      SelectsIncoming "user_2fa" user2faCols (present (storedFactor 56000001 (Place.second .low)))
        (present (storedFactor 56000000 (Place.second .high))) := by
  unfold SelectsLocal SelectsIncoming
  decide +kernel

end Litevirt.Sync

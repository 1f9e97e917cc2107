import Litevirt.Lib.Tiebreak
import Litevirt.Sync.Resolver

/-!
# Convergence of tie resolution

The rules of a chain are contests between two rows of a table, and treat both alike.  Every rule
but the numeric ratchets separates a third row when it puts one row above another; a ratchet
passes when a counter does not read as an integer, and only so can winners form a cycle.
-/

namespace Litevirt.Sync

open Litevirt.Lib Litevirt.Hlc List RowView

abbrev Row := Column → Cell

def TieDecision.verdict : TieDecision → Verdict
  | .pass => .pass
  | .keepLocal _ => .first
  | .takeIncoming _ => .second
  | .unresolved _ => .unresolved

def aligned (cols : List Column) (r s : Row) : RowView := ⟨cols, cols.map r, cols.map s⟩

theorem RowView.colIdx_spec (cols : List Column) (col : Column) :
    match RowView.colIdx cols col with
    | none => col ∉ cols
    | some i => cols[i]? = some col := by
  unfold RowView.colIdx
  cases found : cols.zipIdx.reverse.find? fun entry => entry.1 == col with
  | none =>
    intro member
    obtain ⟨i, bound, rfl⟩ := mem_iff_getElem.mp member
    have entry : (cols[i], i) ∈ cols.zipIdx.reverse :=
      mem_reverse.mpr (mem_zipIdx_iff_getElem?.mpr (by simp))
    have := find?_eq_none.mp found _ entry
    simp at this
  | some entry =>
    have member := mem_of_find?_eq_some found
    have same := find?_some found
    have at_ := mem_zipIdx_iff_getElem?.mp (mem_reverse.mp member)
    simp only [beq_iff_eq] at same
    simpa [same] using at_

theorem RowView.has_iff (rv : RowView) (col : Column) : rv.has col = decide (col ∈ rv.cols) := by
  have spec := colIdx_spec rv.cols col
  unfold RowView.has
  cases found : RowView.colIdx rv.cols col with
  | none =>
    rw [found] at spec
    simp [spec]
  | some i =>
    rw [found] at spec
    simp [mem_of_getElem? spec]

theorem setWins_verdict (label : ResolverLabel) (key : Row → Bool) (r s : Row) :
    (setWins label (key r) (key s)).verdict = byKey key r s := by
  unfold byKey
  cases key r <;> cases key s <;> rfl

variable {s r : Row} {cols cols' : List Column}

theorem fair_ite {p : Prop} [Decidable p] {contest : Contest Row} (fair : Fair contest r s) :
    (if p then contest s r else .pass) =
      (if p then contest r s else Verdict.pass).swap := by
  split
  · exact fair
  · rfl

theorem separates_ite {p : Prop} [Decidable p] {contest : Contest Row} {t : Row}
    (separates : Separates contest r s t) :
    Separates (fun x y => if p then contest x y else .pass) r s t := by
  split
  · exact separates
  · intro above
    cases above

/-- The outcome of a tie as the verdict of its chain. -/
def Resolution.verdict (resolution : Resolution) : Verdict :=
  if resolution.isUnresolved then .unresolved
  else if resolution.keepLocal then .first
  else .second

theorem Resolution.verdict_first {resolution : Resolution} :
    resolution.verdict = .first ↔
      resolution.isUnresolved = false ∧ resolution.keepLocal = true := by
  unfold Resolution.verdict
  cases resolution.isUnresolved <;> cases resolution.keepLocal <;> simp

section Cells

variable [GoValues] {col : Column}

theorem RowView.cellStr_map (cols : List Column) (row : Row) (col : Column) :
    RowView.cellStr (cols.map row) cols col =
      if col ∈ cols then coerceString (row col) else [] := by
  have spec := colIdx_spec cols col
  unfold RowView.cellStr
  cases found : RowView.colIdx cols col with
  | none =>
    rw [found] at spec
    rw [if_neg spec]
  | some i =>
    rw [found] at spec
    simp [spec, mem_of_getElem? spec]

def field (cols : List Column) (col : Column) (row : Row) : Bytes :=
  RowView.cellStr (cols.map row) cols col

@[simp] theorem localStr_aligned : (aligned cols r s).localStr col = field cols col r := rfl

@[simp] theorem incomingStr_aligned : (aligned cols r s).incomingStr col = field cols col s := rfl

/-- Whether the encodings of two rows differ or do not exist. -/
def Differ (cols : List Column) (r s : Row) : Prop :=
  sameImage cols (cols.map r) (cols.map s) = false

/-- Of two rows the one in which the column is set wins. -/
theorem setWins_aligned (label : ResolverLabel) :
    (if !(aligned cols r s).has col then TieDecision.pass
      else setWins label ((aligned cols r s).localStr col ≠ [])
        ((aligned cols r s).incomingStr col ≠ [])).verdict =
      if col ∈ cols then byKey (fun row => decide (field cols col row ≠ [])) r s else .pass := by
  rw [has_iff]
  by_cases member : col ∈ cols
  · rw [← setWins_verdict label]
    simp only [aligned, member, decide_true, Bool.not_true, Bool.false_eq_true, ↓reduceIte]
    rfl
  · simp [aligned, member, TieDecision.verdict]

theorem ruleTombstone_verdict :
    (ruleTombstone (aligned cols r s)).verdict =
      if bytes "deleted_at" ∈ cols then
        byKey (fun row => decide (field cols (bytes "deleted_at") row ≠ [])) r s
      else .pass :=
  setWins_aligned .tombstone

theorem ruleNonNullWins_verdict :
    (ruleNonNullWins col (aligned cols r s)).verdict =
      if col ∈ cols then byKey (fun row => decide (field cols col row ≠ [])) r s else .pass :=
  setWins_aligned .nonNullWins

theorem ruleColUnresolved_verdict (category : TieCategory) :
    (ruleColUnresolved col category (aligned cols r s)).verdict =
      if col ∈ cols then sameKey (field cols col) r s else .pass := by
  unfold ruleColUnresolved
  rw [has_iff]
  by_cases member : col ∈ cols
  · by_cases same : field cols col r = field cols col s
    · simp_all [aligned, RowView.localStr, RowView.incomingStr, field, sameKey, TieDecision.verdict]
    · simp_all [aligned, RowView.localStr, RowView.incomingStr, field, sameKey, TieDecision.verdict]
  · simp [aligned, member, TieDecision.verdict]

/-- A counter wins over a smaller one, and the contest passes unless both are integers. -/
def counterVerdict (x y : Cell) : Verdict :=
  match counterOf x, counterOf y with
  | some l, some i => if l = i then .pass else if i < l then .first else .second
  | _, _ => .pass

theorem ruleAnyColUnresolved_verdict (names : List Column) (category : TieCategory) :
    (ruleAnyColUnresolved names category (aligned cols r s)).verdict =
      sameKey (fun row => (names.filter (· ∈ cols)).map fun col => field cols col row) r s := by
  have differing : (names.any fun col => (aligned cols r s).has col &&
        decide ((aligned cols r s).localStr col ≠ (aligned cols r s).incomingStr col)) = false ↔
      (names.filter (· ∈ cols)).map (fun col => field cols col r) =
        (names.filter (· ∈ cols)).map fun col => field cols col s := by
    simp only [any_eq_false, has_iff, aligned, RowView.localStr, RowView.incomingStr,
      map_inj_left, mem_filter, field]
    constructor
    · intro none col member
      have equal := none col member.1
      simp only [member.2, Bool.true_and, Bool.not_eq_true] at equal
      exact not_not.mp (of_decide_eq_false equal)
    · intro same col member
      by_cases known : col ∈ cols
      · simp [same col ⟨member, by simpa using known⟩]
      · simp [known]
  unfold ruleAnyColUnresolved sameKey
  by_cases same : (names.filter (· ∈ cols)).map (fun col => field cols col r) =
      (names.filter (· ∈ cols)).map fun col => field cols col s
  · rw [if_neg (by rw [differing.mpr same]; exact Bool.false_ne_true), if_pos same]
    rfl
  have some : (names.any fun col => (aligned cols r s).has col &&
      decide ((aligned cols r s).localStr col ≠ (aligned cols r s).incomingStr col)) = true := by
    rw [← Bool.not_eq_false]
    exact fun none => same (differing.mp none)
  rw [if_pos some, if_neg same]
  rfl

theorem ruleNumericMax_verdict :
    (ruleNumericMax col (aligned cols r s)).verdict =
      if col ∈ cols then counterVerdict (r col) (s col) else .pass := by
  unfold ruleNumericMax counterVerdict counterOf
  rw [has_iff]
  by_cases member : col ∈ cols
  · simp only [aligned, member, RowView.localStr, RowView.incomingStr, cellStr_map,
      decide_true, Bool.not_true, Bool.false_eq_true, ↓reduceIte]
    cases parseInt 64 (trimSpace (coerceString (r col))) with
    | none => rfl
    | some l =>
      cases parseInt 64 (trimSpace (coerceString (s col))) with
      | none => rfl
      | some i =>
        simp only
        repeat' split
        all_goals rfl
  · simp [aligned, member, TieDecision.verdict]

/-- A token wins over none, and two different tokens are unresolved. -/
def tokenVerdict (key : Row → Bytes) : Contest Row := fun r s =>
  if key r = key s then .pass
  else if key s = [] then .first
  else if key r = [] then .second
  else .unresolved

theorem ruleLBGeneration_verdict :
    (ruleLBGeneration col (aligned cols r s)).verdict =
      if col ∈ cols then tokenVerdict (field cols col) r s else .pass := by
  unfold ruleLBGeneration
  rw [has_iff]
  by_cases member : col ∈ cols
  · simp only [aligned, member, RowView.localStr, RowView.incomingStr, decide_true, Bool.not_true,
      Bool.false_eq_true, ↓reduceIte, tokenVerdict, field]
    by_cases same : RowView.cellStr (cols.map r) cols col = RowView.cellStr (cols.map s) cols col
    · simp [same, TieDecision.verdict]
    · by_cases localEmpty : RowView.cellStr (cols.map r) cols col = [] <;>
        by_cases incomingEmpty : RowView.cellStr (cols.map s) cols col = [] <;>
        simp_all [TieDecision.verdict]
  · simp [aligned, member, TieDecision.verdict]

theorem encode_aligned (cols : List Column) (row : Row) :
    encodeRowCellsV2 cols (cols.map row) =
      if cols.Nodup then
        some (((cols.map fun name => (name, row name)).insertionSort NameLE).flatMap encodePair)
      else none := by
  by_cases unique : cols.Nodup <;> simp [encodeRowCellsV2, unique, zip_map_row]

def image (cols : List Column) (row : Row) : List Nat :=
  byteValues (((cols.map fun name => (name, row name)).insertionSort NameLE).flatMap encodePair)

theorem differ_iff (cols : List Column) (r s : Row) :
    Differ cols r s ↔ (cols.Nodup → image cols r ≠ image cols s) := by
  unfold Differ sameImage
  rw [encode_aligned, encode_aligned]
  by_cases unique : cols.Nodup
  · simp only [unique, ↓reduceIte, beq_eq_false_iff_ne, ne_eq, true_imp_iff, image,
      byteValues_injective.eq_iff]
  · simp [unique]

theorem ruleContentMax_verdict (differ : Differ cols r s) :
    (ruleContentMax (aligned cols r s)).verdict =
      if cols.Nodup then byKey (image cols) r s else .unresolved := by
  rw [differ_iff] at differ
  unfold ruleContentMax
  simp only [aligned, encode_aligned]
  by_cases unique : cols.Nodup
  · have different := differ unique
    simp only [unique, ↓reduceIte]
    unfold byKey
    rcases lt_trichotomy (image cols r) (image cols s) with below | equal | above
    · rw [if_neg below.not_gt, if_pos below]
      exact congrArg TieDecision.verdict (if_pos below)
    · exact absurd equal different
    · rw [if_pos above]
      exact congrArg TieDecision.verdict (if_neg above.not_gt)
  · simp [unique, TieDecision.verdict]

theorem counterVerdict_fair (r s : Row) (col : Column) :
    Fair (fun x y : Row => counterVerdict (x col) (y col)) r s := by
  unfold Fair counterVerdict
  beta_reduce
  cases counterOf (r col) with
  | none => cases counterOf (s col) <;> rfl
  | some l =>
    cases counterOf (s col) with
    | none => rfl
    | some i =>
      rcases lt_trichotomy l i with below | equal | above
      · simp [below, below.ne, below.ne', below.not_gt, Verdict.swap]
      · simp [equal, Verdict.swap]
      · simp [above, above.ne, above.ne', above.not_gt, Verdict.swap]

omit [GoValues] in
theorem tokenVerdict_fair (key : Row → Bytes) (r s : Row) : Fair (tokenVerdict key) r s := by
  unfold Fair tokenVerdict
  by_cases same : key r = key s
  · simp [same, Verdict.swap]
  · by_cases left : key r = [] <;> by_cases right : key s = [] <;> simp_all [Verdict.swap, eq_comm]

omit [GoValues] in
theorem tokenVerdict_separates (key : Row → Bytes) (r s t : Row) :
    Separates (tokenVerdict key) r s t := by
  unfold Separates tokenVerdict
  by_cases same : key r = key s
  · simp [same]
  · by_cases left : key r = [] <;> by_cases right : key s = [] <;>
      by_cases third : key t = [] <;> simp_all [eq_comm]

theorem Differ.symm (differ : Differ cols r s) : Differ cols s r := by
  rw [differ_iff] at differ ⊢
  exact fun unique => (differ unique).symm

theorem field_perm (perm : cols.Perm cols') (col : Column) (row : Row) :
    field cols col row = field cols' col row := by
  simp only [field, cellStr_map, perm.mem_iff]

theorem differ_perm (perm : cols.Perm cols') : Differ cols r s ↔ Differ cols' r s := by
  simp only [Differ, sameImage, encodeRowCellsV2_perm r perm, encodeRowCellsV2_perm s perm]

end Cells

variable [GoLayout] [GoValues]

def Rule.contest (cols : List Column) (rule : Rule) : Contest Row := fun r s =>
  (rule.apply (aligned cols r s)).verdict

def instantRank (s : Bytes) : WithBot Int :=
  match parseInstant s with
  | none => ⊥
  | some t => (t : WithBot Int)

omit [GoValues] in
theorem instantRank_none {s : Bytes} (unparsed : parseInstant s = none) : instantRank s = ⊥ := by
  simp [instantRank, unparsed]

omit [GoValues] in
theorem instantRank_some {s : Bytes} {t : Int} (parsed : parseInstant s = some t) :
    instantRank s = (t : WithBot Int) := by
  simp [instantRank, parsed]

theorem ruleTimestampMax_verdict {col : Column} :
    (ruleTimestampMax col (aligned cols r s)).verdict =
      if col ∈ cols then byKey (fun row => instantRank (field cols col row)) r s else .pass := by
  unfold ruleTimestampMax byKey
  rw [has_iff]
  by_cases member : col ∈ cols
  · rw [if_neg (by simp [aligned, member]), if_pos member, localStr_aligned, incomingStr_aligned]
    by_cases same : field cols col r = field cols col s
    · simp [same, TieDecision.verdict]
    rw [if_neg same]
    beta_reduce
    cases left : parseInstant (field cols col r) with
    | none =>
      rw [instantRank_none left]
      cases right : parseInstant (field cols col s) with
      | none => simp [instantRank_none right, TieDecision.verdict]
      | some it => simp [instantRank_some right, TieDecision.verdict]
    | some lt =>
      rw [instantRank_some left]
      cases right : parseInstant (field cols col s) with
      | none => simp [instantRank_none right, TieDecision.verdict]
      | some it =>
        simp only [instantRank_some right, WithBot.coe_lt_coe]
        rcases lt_trichotomy lt it with below | equal | above
        · simp [below, below.ne, below.not_gt, TieDecision.verdict]
        · simp [equal, TieDecision.verdict]
        · simp [above, above.ne', TieDecision.verdict]
  · simp [aligned, member, TieDecision.verdict]

theorem Rule.fair (differ : Differ cols r s) (rule : Rule) : Fair (rule.contest cols) r s := by
  unfold Fair Rule.contest
  cases rule with
  | tombstone =>
    simp only [Rule.apply, ruleTombstone_verdict]
    exact fair_ite (byKey_fair _ r s)
  | colUnresolved col category =>
    simp only [Rule.apply, ruleColUnresolved_verdict]
    exact fair_ite (sameKey_fair _ r s)
  | anyColUnresolved names category =>
    simp only [Rule.apply, ruleAnyColUnresolved_verdict]
    exact sameKey_fair _ r s
  | numericMax col =>
    simp only [Rule.apply, ruleNumericMax_verdict]
    exact fair_ite (counterVerdict_fair r s col)
  | timestampMax col =>
    simp only [Rule.apply, ruleTimestampMax_verdict]
    exact fair_ite (byKey_fair _ r s)
  | nonNullWins col =>
    simp only [Rule.apply, ruleNonNullWins_verdict]
    exact fair_ite (byKey_fair _ r s)
  | lbGeneration col =>
    simp only [Rule.apply, ruleLBGeneration_verdict]
    exact fair_ite (tokenVerdict_fair _ r s)
  | contentMax =>
    have differToo : Differ cols s r := by
      rw [differ_iff] at differ ⊢
      exact fun unique => (differ unique).symm
    simp only [Rule.apply, ruleContentMax_verdict differ, ruleContentMax_verdict differToo]
    split
    · exact byKey_fair _ r s
    · rfl
  | unresolved category => rfl

def Rule.isNumeric : Rule → Bool
  | .numericMax _ => true
  | _ => false

theorem Rule.separates {t : Row} (rs : Differ cols r s) (rt : Differ cols r t)
    (ts : Differ cols t s) {rule : Rule} (plain : rule.isNumeric = false) :
    Separates (rule.contest cols) r s t := by
  cases rule with
  | tombstone =>
    have separates := separates_ite (p := bytes "deleted_at" ∈ cols) (byKey_separates
      (fun row => decide (field cols (bytes "deleted_at") row ≠ [])) r s t)
    simpa only [Separates, Rule.contest, Rule.apply, ruleTombstone_verdict] using separates
  | colUnresolved col category =>
    have separates := separates_ite (p := col ∈ cols) (sameKey_separates (field cols col) r s t)
    simpa only [Separates, Rule.contest, Rule.apply, ruleColUnresolved_verdict] using separates
  | anyColUnresolved names category =>
    have separates := sameKey_separates
      (fun row => (names.filter (· ∈ cols)).map fun col => field cols col row) r s t
    simpa only [Separates, Rule.contest, Rule.apply, ruleAnyColUnresolved_verdict]
      using separates
  | numericMax col => cases plain
  | timestampMax col =>
    have separates := separates_ite (p := col ∈ cols) (byKey_separates
      (fun row => instantRank (field cols col row)) r s t)
    simpa only [Separates, Rule.contest, Rule.apply, ruleTimestampMax_verdict] using separates
  | nonNullWins col =>
    have separates := separates_ite (p := col ∈ cols) (byKey_separates
      (fun row => decide (field cols col row ≠ [])) r s t)
    simpa only [Separates, Rule.contest, Rule.apply, ruleNonNullWins_verdict] using separates
  | lbGeneration col =>
    have separates := separates_ite (p := col ∈ cols)
      (tokenVerdict_separates (field cols col) r s t)
    simpa only [Separates, Rule.contest, Rule.apply, ruleLBGeneration_verdict] using separates
  | contentMax =>
    simp only [Separates, Rule.contest, Rule.apply, ruleContentMax_verdict rs,
      ruleContentMax_verdict rt, ruleContentMax_verdict ts]
    split
    · exact byKey_separates (image cols) r s t
    · intro above
      cases above
  | unresolved category =>
    intro above
    cases above

theorem resolveChain_verdict (cols : List Column) (rules : List Rule) (r s : Row) :
    (resolveChain (aligned cols r s) rules).verdict =
      (chain (rules.map (Rule.contest cols)) r s).andThen .unresolved := by
  induction rules with
  | nil => rfl
  | cons rule rest ih =>
    rw [map_cons, chain]
    unfold resolveChain Rule.contest
    cases decided : rule.apply (aligned cols r s) with
    | pass => exact ih
    | keepLocal label | takeIncoming label => cases label <;> rfl
    | unresolved category => rfl

def resolve (table : String) (cols : List Column) (localRow incomingRow : Row) : Resolution :=
  resolveTie table cols (cols.map localRow) (cols.map incomingRow)

variable {rules : List Rule} {table : String}

theorem resolve_verdict
    (registered : capabilityMap.lookup table = some rules) (differ : Differ cols r s) :
    (resolve table cols r s).verdict =
      (chain (rules.map (Rule.contest cols)) r s).andThen .unresolved := by
  have distinct : sameImage cols (cols.map r) (cols.map s) = false := differ
  rw [← resolveChain_verdict]
  simp [resolve, resolveTie, distinct, registered, aligned]

theorem resolve_same (table : String) (same : ¬ Differ cols r s) :
    resolve table cols r s = ⟨true, false, none⟩ := by
  have equal : sameImage cols (cols.map r) (cols.map s) = true := by
    rw [← Bool.not_eq_false]
    exact same
  simp [resolve, resolveTie, equal]

theorem Rule.apply_congr {rv rv' : RowView} (has : ∀ col, rv.has col = rv'.has col)
    (localStr : ∀ col, rv.localStr col = rv'.localStr col)
    (incomingStr : ∀ col, rv.incomingStr col = rv'.incomingStr col)
    (localImage : encodeRowCellsV2 rv.cols rv.localRow = encodeRowCellsV2 rv'.cols rv'.localRow)
    (incomingImage : encodeRowCellsV2 rv.cols rv.incomingRow =
      encodeRowCellsV2 rv'.cols rv'.incomingRow) (rule : Rule) :
    rule.apply rv = rule.apply rv' := by
  cases rule with
  | tombstone => simp only [Rule.apply, ruleTombstone, has, localStr, incomingStr]
  | colUnresolved col category =>
    simp only [Rule.apply, ruleColUnresolved, has, localStr, incomingStr]
  | anyColUnresolved names category =>
    simp only [Rule.apply, ruleAnyColUnresolved, has, localStr, incomingStr]
  | numericMax col => simp only [Rule.apply, ruleNumericMax, has, localStr, incomingStr]
  | timestampMax col => simp only [Rule.apply, ruleTimestampMax, has, localStr, incomingStr]
  | nonNullWins col => simp only [Rule.apply, ruleNonNullWins, has, localStr, incomingStr]
  | lbGeneration col => simp only [Rule.apply, ruleLBGeneration, has, localStr, incomingStr]
  | contentMax => simp only [Rule.apply, ruleContentMax, localImage, incomingImage]
  | unresolved category => rfl

theorem resolve_perm (perm : cols.Perm cols') (table : String) (r s : Row) :
    resolve table cols r s = resolve table cols' r s := by
  have apply : ∀ rule : Rule, rule.apply (aligned cols r s) = rule.apply (aligned cols' r s) :=
    Rule.apply_congr (fun col => by simp [has_iff, aligned, perm.mem_iff])
      (fun col => field_perm perm col r) (fun col => field_perm perm col s)
      (encodeRowCellsV2_perm r perm) (encodeRowCellsV2_perm s perm)
  have chains : ∀ rules : List Rule,
      resolveChain (aligned cols r s) rules = resolveChain (aligned cols' r s) rules := by
    intro rules
    induction rules with
    | nil => rfl
    | cons rule rest ih => simp only [resolveChain, apply, ih]
  have same : sameImage cols (cols.map r) (cols.map s) =
      sameImage cols' (cols'.map r) (cols'.map s) := by
    simp only [sameImage, encodeRowCellsV2_perm r perm, encodeRowCellsV2_perm s perm]
  unfold resolve resolveTie
  rw [same]
  split
  · rfl
  · cases capabilityMap.lookup table with
    | none => rfl
    | some rules => exact chains rules

/-- Both directions of a tie report it unresolved, or they keep the same row. -/
def PairConverges (table : String) (cols cols' : List Column) (r s : Row) : Prop :=
  (resolve table cols r s).isUnresolved = (resolve table cols' s r).isUnresolved ∧
    ((resolve table cols r s).isUnresolved = false →
      (resolve table cols r s).keepLocal = !(resolve table cols' s r).keepLocal ∨
        ¬ Differ cols r s)

/-- The first row wins over a row that is not the same. -/
def Beats (table : String) (cols : List Column) (r s : Row) : Prop :=
  Differ cols r s ∧ (resolve table cols r s).isUnresolved = false ∧
    (resolve table cols r s).keepLocal = true

theorem pairConverges
    (registered : capabilityMap.lookup table = some rules) (perm : cols.Perm cols') (r s : Row) :
    PairConverges table cols cols' r s := by
  unfold PairConverges
  rw [← resolve_perm perm]
  by_cases differ : Differ cols r s
  · have forth := resolve_verdict registered differ
    have back := resolve_verdict registered differ.symm
    have fair : Fair (chain (rules.map (Rule.contest cols))) r s := by
      refine chain_fair fun contest member => ?_
      obtain ⟨rule, -, rfl⟩ := mem_map.mp member
      exact rule.fair differ
    rw [fair] at back
    unfold Resolution.verdict at forth back
    generalize chain (rules.map (Rule.contest cols)) r s = verdict at forth back
    cases hereU : (resolve table cols r s).isUnresolved <;>
      cases hereK : (resolve table cols r s).keepLocal <;>
      cases thereU : (resolve table cols s r).isUnresolved <;>
      cases thereK : (resolve table cols s r).keepLocal <;>
      cases verdict <;> simp_all [Verdict.andThen, Verdict.swap]
  · have same := resolve_same table differ
    have sameToo := resolve_same table fun back => differ back.symm
    rw [same, sameToo]
    exact ⟨rfl, fun _ => .inr differ⟩

end Litevirt.Sync

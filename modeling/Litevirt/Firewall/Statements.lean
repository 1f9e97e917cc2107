import Litevirt.Firewall.Ruleset

/-!
# The statements that nft reads

nft cuts its input at newlines and semicolons, and at the braces of tables, chains and sets; a
brace that is opened inside a rule belongs to the rule with all it encloses.  Double quotes hide
these characters, a backslash hides a newline, and a hash opens a comment.  `validate` looks for
none of them, and `%q` writes a quote as `\"`, which does not hide it.  The text is read as the
statements of the plan exactly when, in every line, what the plan carries keeps such characters
between quotes or braces of its own and closes these.
-/

namespace Litevirt.Firewall

open Litevirt.Lib List

/-! ## Reading -/

inductive Lexeme where
  | plain
  /-- Behind a backslash. -/
  | escape
  | quoted
  /-- In a comment between the braces of a rule. -/
  | comment
  deriving DecidableEq

structure Mode where
  /-- 0 outside the table, 1 in it, and 2 in a chain or a set. -/
  level : Nat
  /-- The braces that the statement has open. -/
  inner : Nat
  lexeme : Lexeme
  deriving DecidableEq

/-- The mode at the start of a statement. -/
def Mode.fresh (level : Nat) : Mode := ⟨level, 0, .plain⟩

/-- The level behind a statement that ends with the character. -/
def nested (level : Nat) (stop : Char) : Nat :=
  if stop = '\x7b' then level + 1 else if stop = '\x7d' then level - 1 else level

def Mode.next (mode : Mode) (rune : Char) : Scan Mode :=
  match mode.lexeme with
  | .quoted => .keep { mode with lexeme := if rune = '\"' then .plain else .quoted }
  | .comment => .keep { mode with lexeme := if rune = '\n' then .plain else .comment }
  | lexeme =>
    if rune = '\n' ∧ lexeme = .escape then .keep { mode with lexeme := .plain }
    else if rune = '\n' ∨ rune = ';' then
      if mode.inner = 0 then .cut else .keep { mode with lexeme := .plain }
    else if rune = '\x7b' then
      if mode.level < 2 then .cut else .keep ⟨mode.level, mode.inner + 1, .plain⟩
    else if rune = '\x7d' then
      if mode.inner = 0 then .cut else .keep ⟨mode.level, mode.inner - 1, .plain⟩
    else if rune = '#' then
      if mode.inner = 0 then .remark else .keep { mode with lexeme := .comment }
    else .keep { mode with lexeme :=
      if rune = '\"' then .quoted else if rune = '\\' then .escape else .plain }

theorem Mode.level_next {mode after : Mode} {rune : Char} (keeps : mode.next rune = .keep after) :
    after.level = mode.level := by
  unfold Mode.next at keeps
  split at keeps
  · cases keeps
    rfl
  · cases keeps
    rfl
  · split_ifs at keeps <;> cases keeps <;> rfl

/-- The scanner of nft, as far as it finds the ends of statements. -/
def nftScanner : Scanner Char Mode where
  next := Mode.next
  closes rune := rune = '\n'
  restart mode stop := .fresh (nested mode.level stop)
  steady keeps stop := by rw [Mode.level_next keeps]

def marks : List Char := ['\n', ';', '\x7b', '\x7d', '#', '\"', '\\']

def inert (rune : Char) : Bool := rune ∉ marks

/-- The mode behind an inert character. -/
def Mode.settle (mode : Mode) : Mode :=
  { mode with lexeme := if mode.lexeme = .escape then .plain else mode.lexeme }

theorem next_inert {rune : Char} (quiet : inert rune = true) (mode : Mode) :
    nftScanner.next mode rune = .keep mode.settle := by
  simp only [inert, marks, decide_eq_true_eq, mem_cons, not_mem_nil, or_false,
    not_or] at quiet
  obtain ⟨level, inner, lexeme⟩ := mode
  cases lexeme <;> simp [nftScanner, Mode.next, Mode.settle, *]

theorem read_inert {word : Text} (quiet : ∀ rune ∈ word, inert rune = true) (mode : Mode) :
    nftScanner.read mode word = some (if word = [] then mode else mode.settle) := by
  induction word generalizing mode with
  | nil => rfl
  | cons rune rest ih =>
    have settled : mode.settle.settle = mode.settle := by
      obtain ⟨level, inner, lexeme⟩ := mode
      cases lexeme <;> rfl
    simp only [Scanner.read, next_inert (quiet rune mem_cons_self)]
    rw [ih fun other member => quiet other (mem_cons_of_mem _ member)]
    simp [settled]

/-- A word of the renderer is not empty and means nothing to the scanner. -/
def Fragment.Neutral : Fragment → Prop
  | own word => word ≠ [] ∧ ∀ rune ∈ word, inert rune = true
  | given _ => True

/-- What the plan carries; a word of the renderer is a blank. -/
def Fragment.carried : Fragment → Text
  | own _ => [' ']
  | given value => value

def carried (fragments : List Fragment) : Text := fragments.flatMap Fragment.carried

theorem read_carried {fragments : List Fragment}
    (neutral : ∀ fragment ∈ fragments, fragment.Neutral) (mode : Mode) :
    nftScanner.read mode (fragmentsText fragments) = nftScanner.read mode (carried fragments) := by
  induction fragments generalizing mode with
  | nil => rfl
  | cons fragment rest ih =>
    have others := ih fun other member => neutral other (mem_cons_of_mem _ member)
    have first : nftScanner.read mode fragment.text =
        nftScanner.read mode fragment.carried := by
      cases fragment with
      | given value => rfl
      | own word =>
        obtain ⟨nonempty, quiet⟩ := neutral (.own word) mem_cons_self
        have blank : ∀ rune ∈ [' '], inert rune = true := forall_mem_singleton.mpr (by decide)
        rw [Fragment.text, Fragment.carried, read_inert quiet, read_inert blank, if_neg nonempty,
          if_neg (cons_ne_nil _ _)]
    simp only [fragmentsText, carried, flatMap_cons] at others ⊢
    rw [Scanner.read_append, Scanner.read_append, first]
    simp only [others]

/-- In a line that starts at the level, newlines, semicolons, braces and hashes of the plan stand
between quotes or inside braces of the line, and both are closed before the line ends. -/
def Line.Confined (level : Nat) (line : Line) : Prop :=
  nftScanner.Whole (.fresh level) (carried line.fragments) line.stop

instance (level : Nat) (line : Line) : Decidable (line.Confined level) := by
  unfold Line.Confined; infer_instance

/-- Lines that are confined one behind the other, from a level on. -/
def ConfinedAll : Nat → List Line → Prop
  | _, [] => True
  | level, line :: rest =>
    (line.remark = [] → line.Confined level) ∧ ConfinedAll (nested level line.stop) rest

instance decidableConfinedAll : ∀ level lines, Decidable (ConfinedAll level lines)
  | _, [] => .isTrue trivial
  | _, _ :: rest => @instDecidableAnd _ _ _ (decidableConfinedAll _ rest)

/-- The renderer's part of a line is in order: its words are neutral, the line ends at a newline,
a semicolon or a brace, and a remark is one comment. -/
structure Line.Regular (line : Line) : Prop where
  neutral : ∀ fragment ∈ line.fragments, fragment.Neutral
  stop : line.stop = '\n' ∨ line.stop = ';' ∨ line.stop = '\x7b' ∨ line.stop = '\x7d'
  remark : line.remark ≠ [] → ∀ level, nftScanner.Reads (.fresh level) line.piece

theorem Line.Regular.states {line : Line} (regular : line.Regular) (mode : Mode) :
    nftScanner.next mode line.stop ≠ .remark := by
  obtain ⟨level, inner, lexeme⟩ := mode
  rcases regular.stop with stop | stop | stop | stop <;> rw [stop] <;> cases lexeme <;>
    simp [nftScanner, Mode.next] <;> split_ifs <;> simp

theorem Line.Regular.reads_iff {line : Line} (regular : line.Regular) {level : Nat} :
    nftScanner.Reads (.fresh level) line.piece ↔ (line.remark = [] → line.Confined level) := by
  by_cases states : line.remark = []
  · unfold Scanner.Reads Line.Confined Scanner.Whole
    simp only [Line.piece, states, forall_const]
    rw [read_carried regular.neutral]
  · exact iff_of_true (regular.remark states level) fun none => absurd none states

/-- Regular lines are read one by one exactly when they are confined. -/
theorem split_lines_iff {lines : List Line} (regular : ∀ line ∈ lines, line.Regular) :
    nftScanner.split (.fresh 0) (linesText lines) =
        (lines.map fun line => line.piece.kept, [], false,
          nftScanner.behind (.fresh 0) (lines.map Line.piece)) ↔
      ConfinedAll 0 lines := by
  have states : ∀ piece ∈ lines.map Line.piece, ∀ mode,
      nftScanner.next mode piece.stop ≠ .remark :=
    forall_mem_map.mpr fun line member => (regular line member).states
  have remarks : ∀ piece ∈ lines.map Line.piece, piece.remark ≠ [] → ∀ mode,
      (∃ level, mode = .fresh level) → nftScanner.Reads mode piece := by
    refine forall_mem_map.mpr fun line member isRemark mode => ?_
    rintro ⟨level, rfl⟩
    exact (regular line member).remark isRemark level
  have cut := Scanner.split_pieces_iff states remarks (fun mode stop => ⟨_, rfl⟩) ⟨0, rfl⟩
  rw [map_map] at cut
  refine cut.trans ?_
  clear cut states remarks
  -- the level at the start of a line is that behind the stops before it
  generalize 0 = level
  induction lines generalizing level with
  | nil => exact Iff.rfl
  | cons line rest ih =>
    exact and_congr (regular line mem_cons_self).reads_iff
      (ih (fun other member => regular other (mem_cons_of_mem _ member)) _)

/-! ## The lines of a plan are regular -/

section Regular

variable {fragments : List Fragment}

theorem Line.regular_of_neutral {stop : Char} (neutral : ∀ fragment ∈ fragments, fragment.Neutral)
    (ends : stop = '\n' ∨ stop = ';' ∨ stop = '\x7b' ∨ stop = '\x7d') :
    (Line.mk fragments [] stop).Regular :=
  ⟨neutral, ends, fun states => absurd rfl states⟩

theorem newline_regular : newline.Regular := Line.regular_of_neutral nofun (.inl rfl)

theorem own_neutral {word : Text} (quiet : word ≠ [] ∧ word.all inert = true) :
    (Fragment.own word).Neutral :=
  ⟨quiet.1, all_eq_true.mp quiet.2⟩

theorem closing_regular : ∀ line ∈ closing, line.Regular := by
  have brace : (Line.mk [.own (text "    ")] [] '\x7d').Regular :=
    Line.regular_of_neutral (forall_mem_singleton.mpr (own_neutral (by decide)))
      (.inr (.inr (.inr rfl)))
  simp only [closing, forall_mem_cons]
  exact ⟨brace, newline_regular, newline_regular, forall_mem_nil _⟩

theorem mem_hex {width n : Nat} {rune : Char} (member : rune ∈ hex width n) :
    rune.isAlphanum = true := by
  obtain ⟨place, -, rfl⟩ := mem_map.mp member
  have small : n / 16 ^ place % 16 < 16 := Nat.mod_lt _ (by decide)
  generalize n / 16 ^ place % 16 = digit at small
  revert digit
  decide

theorem mem_escapeRune {rune other : Char} (member : other ∈ escapeRune rune) :
    other = '\\' ∨ other.isAlphanum = true := by
  have listed {word : Text} (member : other ∈ word)
      (letters : word.all (fun rune => rune = '\\' ∨ rune.isAlphanum) = true) :
      other = '\\' ∨ other.isAlphanum = true :=
    of_decide_eq_true (all_eq_true.mp letters other member)
  have spelled {lead : Text} {width n : Nat} (member : other ∈ lead ++ hex width n)
      (letters : lead.all (fun rune => rune = '\\' ∨ rune.isAlphanum) = true) :
      other = '\\' ∨ other.isAlphanum = true := by
    rcases mem_append.mp member with leads | digit
    · exact listed leads letters
    · exact .inr (mem_hex digit)
  unfold escapeRune at member
  split_ifs at member
  all_goals first | exact spelled member (by decide) | exact listed member (by decide)

theorem digits_inert (n : Nat) : ∀ rune ∈ Nat.toDigits 10 n, inert rune = true := by
  intro rune member
  have digit := Nat.isDigit_of_mem_toDigits (by decide) (by decide) member
  have apart : marks.all (fun mark => !mark.isDigit) = true := by decide
  refine decide_eq_true fun marked => ?_
  have noDigit := all_eq_true.mp apart rune marked
  rw [digit] at noDigit
  cases noDigit

theorem decimal_neutral (n : Int) : (Fragment.own (decimal n)).Neutral := by
  cases n with
  | ofNat n =>
    have digits : decimal (Int.ofNat n) = Nat.toDigits 10 n := Nat.toList_repr
    rw [digits]
    exact ⟨Nat.toDigits_ne_nil, digits_inert n⟩
  | negSucc n =>
    have digits : decimal (Int.negSucc n) = '-' :: Nat.toDigits 10 (n + 1) := by
      show ("-" ++ Nat.repr (n + 1)).toList = _
      rw [String.toList_append, Nat.toList_repr]
      rfl
    rw [digits]
    refine ⟨cons_ne_nil _ _, forall_mem_cons.mpr ⟨by decide, digits_inert _⟩⟩

theorem given_neutral (value : Text) : (Fragment.given value).Neutral := trivial

/-- The test of a list of fragments; it does not look at what the plan carries. -/
def neutral (fragments : List Fragment) : Bool :=
  fragments.all fun
    | .own word => !word.isEmpty && word.all inert
    | .given _ => true

theorem neutral_sound (passes : neutral fragments = true) :
    ∀ fragment ∈ fragments, fragment.Neutral := by
  intro fragment member
  have passes := all_eq_true.mp passes fragment member
  cases fragment with
  | given value => trivial
  | own word => exact own_neutral (by simpa using passes)

theorem deviceParts_neutral (rule : Rule) (nicDev : Text) :
    ∀ fragment ∈ deviceParts rule nicDev, fragment.Neutral := by
  unfold deviceParts
  split
  · split <;> exact neutral_sound rfl
  · exact nofun

theorem addrParts_neutral (rule : Rule) : ∀ fragment ∈ addrParts rule, fragment.Neutral := by
  unfold addrParts
  split
  · split <;> exact neutral_sound rfl
  · exact nofun

theorem intersperse_neutral {separator : Fragment} (apart : separator.Neutral)
    (neutral : ∀ fragment ∈ fragments, fragment.Neutral) :
    ∀ fragment ∈ fragments.intersperse separator, fragment.Neutral := by
  induction fragments with
  | nil => exact nofun
  | cons first rest ih =>
    have others := ih fun fragment member => neutral fragment (mem_cons_of_mem _ member)
    cases rest with
    | nil => exact neutral
    | cons second rest =>
      exact forall_mem_cons.mpr ⟨neutral first mem_cons_self,
        forall_mem_cons.mpr ⟨apart, others⟩⟩

theorem Line.regular_of_comment {remark : Text} (neutral : ∀ fragment ∈ fragments, fragment.Neutral)
    (blank : ∀ level, nftScanner.read (.fresh level) (carried fragments) = some (.fresh level))
    (inside : '\n' ∉ remark) : (Line.mk fragments ('#' :: remark) '\n').Regular := by
  refine ⟨neutral, .inl rfl, fun _ level => ⟨⟨.fresh level, ?_, rfl⟩, fun other member => ?_, rfl⟩⟩
  · exact (read_carried neutral _).trans (blank level)
  · refine decide_eq_false fun same => inside ?_
    rw [← same]
    exact member

/-- The names that the renderer gives to its own chains and hooks. -/
def chainWords : List Text :=
  [text "forward", text "cluster_default", text "host_overrides", text "nic_dispatch",
    text "postrouting", text "input", text "filter", text "nat", text "srcnat"]

theorem chainWords_neutral {word : Text} (member : word ∈ chainWords) :
    (Fragment.own word).Neutral := by
  have all : ∀ word ∈ chainWords, word ≠ [] ∧ word.all inert = true := by decide
  exact own_neutral (all word member)

theorem header_regular : ∀ line ∈ header, line.Regular := by
  have comment (remark : Text) (inside : '\n' ∉ remark) :
      (Line.mk [] ('#' :: remark) '\n').Regular :=
    Line.regular_of_comment (forall_mem_nil _) (fun _ => rfl) inside
  have opens : (Line.mk [.own (text "table inet litevirt-fw ")] [] '\x7b').Regular :=
    Line.regular_of_neutral (neutral_sound rfl) (.inr (.inr (.inl rfl)))
  simp only [header, forall_mem_cons]
  refine ⟨comment _ ?_, comment _ ?_, newline_regular, opens, newline_regular, forall_mem_nil _⟩
  · decide
  · decide

theorem footer_regular : ∀ line ∈ footer, line.Regular := by
  simp only [footer, forall_mem_cons]
  exact ⟨Line.regular_of_neutral nofun (.inr (.inr (.inr rfl))), newline_regular, nofun⟩

variable [GoRunes]

theorem newline_not_mem_quote (value : Text) : '\n' ∉ quote value := by
  intro member
  have inside : '\n' ∈ value.flatMap quoteRune := by
    simpa [quote] using member
  obtain ⟨rune, -, spelled⟩ := mem_flatMap.mp inside
  -- `strconv.Quote` escapes a rune, keeps it, or spells it in letters and digits
  unfold quoteRune at spelled
  split_ifs at spelled with special printable
  · rcases special with rfl | rfl <;> revert spelled <;> decide
  · obtain rfl := mem_singleton.mp spelled
    rw [GoRunes.printable_ascii '\n' (by decide)] at printable
    revert printable
    decide
  · have odd := mem_escapeRune spelled
    revert odd
    decide

theorem protoParts_neutral (rule : Rule) : ∀ fragment ∈ protoParts rule, fragment.Neutral := by
  unfold protoParts
  split
  · rename_i transport
    rcases transport with same | same
    all_goals
      rw [same]
      split <;> exact neutral_sound rfl
  split
  · exact neutral_sound rfl
  split
  · exact nofun
  · exact neutral_sound rfl

theorem ruleParts_neutral (rule : Rule) (nicDev : Text) :
    ∀ fragment ∈ ruleParts rule nicDev, fragment.Neutral := by
  unfold ruleParts
  simp only [forall_mem_append, forall_mem_singleton]
  refine ⟨⟨⟨deviceParts_neutral rule nicDev, protoParts_neutral rule⟩, addrParts_neutral rule⟩, ?_⟩
  split
  · exact own_neutral (by decide)
  · exact given_neutral _

theorem Statement.fragments_neutral (stated : Statement)
    (named : ∀ name, stated = .jump name → (Fragment.own name).Neutral) :
    ∀ fragment ∈ stated.fragments, fragment.Neutral := by
  cases stated with
  | rule stated nicDev =>
    simp only [Statement.fragments, forall_mem_append]
    refine ⟨intersperse_neutral (own_neutral (by decide))
      (ruleParts_neutral stated nicDev), ?_⟩
    split
    · exact neutral_sound rfl
    · exact forall_mem_nil _
  | jump name =>
    exact forall_mem_cons.mpr
      ⟨own_neutral (by decide), forall_mem_singleton.mpr (named name rfl)⟩
  | dispatch entering nicDev =>
    cases entering with
    | true | false => exact neutral_sound rfl
  | punch bridge vip port =>
    simp only [Statement.fragments, forall_mem_cons, given_neutral, decimal_neutral,
      true_and]
    exact ⟨own_neutral (by decide), own_neutral (by decide), own_neutral (by decide),
      own_neutral (by decide), forall_mem_nil _⟩
  | established | invalid | snat nat | masquerade nat | vrrp bridge | isolate bridge =>
    exact neutral_sound rfl

theorem Item.line_regular (item : Item)
    (named : ∀ name, item = .statement (.jump name) → (Fragment.own name).Neutral) :
    item.line.Regular := by
  have indent : (Fragment.own (text "        ")).Neutral := own_neutral (by decide)
  cases item with
  | statement stated =>
    refine Line.regular_of_neutral (forall_mem_cons.mpr ⟨indent, ?_⟩) (.inl rfl)
    exact stated.fragments_neutral fun name same => named name (by rw [same])
  | group name =>
    refine Line.regular_of_comment (forall_mem_singleton.mpr indent) (fun _ => rfl) ?_
    intro member
    rcases mem_append.mp (show _ ∈ text " security group " ++ quote name from member) with
      lead | quoted
    · revert lead
      decide
    · exact newline_not_mem_quote name quoted

omit [GoRunes] in
theorem Base.lines_regular {base : Base}
    (words : ∀ word ∈ [base.kind, base.hook, base.priority], (Fragment.own word).Neutral) :
    ∀ line ∈ base.lines, line.Regular := by
  simp only [forall_mem_cons] at words
  obtain ⟨kind, hook, priority, -⟩ := words
  have policy : (Fragment.own (if base.deny then drop else accept)).Neutral := by
    split <;> exact own_neutral (by decide)
  simp only [Base.lines, forall_mem_cons]
  refine ⟨Line.regular_of_neutral ?_ (.inr (.inl rfl)),
    Line.regular_of_neutral ?_ (.inr (.inl rfl)), newline_regular, forall_mem_nil _⟩
  · simp only [forall_mem_cons, kind, hook, priority, true_and]
    exact ⟨own_neutral (by decide), own_neutral (by decide), own_neutral (by decide),
      forall_mem_nil _⟩
  · simp only [forall_mem_cons, policy, true_and]
    exact ⟨own_neutral (by decide), forall_mem_nil _⟩

/-- The names in a chain are the renderer's. -/
structure Chain.Named (chain : Chain) : Prop where
  name : ∀ name, chain.name = .fixed name → name ∈ chainWords
  base : ∀ base, chain.base = some base →
    ∀ word ∈ [base.kind, base.hook, base.priority], word ∈ chainWords
  jumps : ∀ name, .statement (.jump name) ∈ chain.items → name ∈ chainWords

theorem Chain.Named.lines_regular {chain : Chain} (named : chain.Named) :
    ∀ line ∈ chain.lines, line.Regular := by
  have blank : (Fragment.own (text " ")).Neutral := own_neutral (by decide)
  have name : ∀ fragment ∈ chain.name.fragments, fragment.Neutral := by
    cases same : chain.name with
    | fixed name => exact forall_mem_singleton.mpr (chainWords_neutral (named.name name same))
    | nic nicDev => exact neutral_sound rfl
  unfold Chain.lines
  simp only [forall_mem_append, forall_mem_cons, forall_mem_map]
  refine ⟨⟨⟨⟨Line.regular_of_neutral ?_ (.inr (.inr (.inl rfl))), newline_regular,
    forall_mem_nil _⟩, ?_⟩, ?_⟩, closing_regular⟩
  · simp only [forall_mem_append, forall_mem_cons]
    exact ⟨⟨own_neutral (by decide), name⟩, blank, forall_mem_nil _⟩
  · cases same : chain.base with
    | none => exact forall_mem_nil _
    | some base =>
      exact Base.lines_regular fun word member =>
        chainWords_neutral (named.base base same word member)
  · intro item member
    exact item.line_regular fun name same => chainWords_neutral (named.jumps name (same ▸ member))

theorem Block.set_regular (name : Text) (elements : List Text) :
    ∀ line ∈ (Block.set name elements).lines, line.Regular := by
  have blank : (Fragment.own (text " ")).Neutral := own_neutral (by decide)
  have given : ∀ fragment ∈ elements.map Fragment.given, fragment.Neutral :=
    forall_mem_map.mpr fun _ _ => trivial
  have listed : ∀ fragment ∈ elementFragments elements, fragment.Neutral :=
    intersperse_neutral (own_neutral (by decide)) given
  simp only [Block.lines, forall_mem_append, forall_mem_cons]
  refine ⟨⟨⟨Line.regular_of_neutral (neutral_sound rfl) (.inr (.inr (.inl rfl))), newline_regular,
    Line.regular_of_neutral (neutral_sound rfl) (.inl rfl),
    Line.regular_of_neutral (neutral_sound rfl) (.inl rfl), forall_mem_nil _⟩, ?_⟩, closing_regular⟩
  split
  · refine forall_mem_singleton.mpr (Line.regular_of_neutral ?_ (.inl rfl))
    simp only [forall_mem_append, forall_mem_cons, given_neutral, true_and]
    exact ⟨⟨own_neutral (by decide), blank, listed⟩, blank, forall_mem_nil _⟩
  · exact forall_mem_nil _

end Regular

/-! ## Plans -/

section Plans

variable {chain : Chain}

theorem Chain.named_of_plain (name : ∀ name, chain.name = .fixed name → name ∈ chainWords)
    (base : chain.base = none)
    (still : ∀ item ∈ chain.items, ∀ name, item ≠ .statement (.jump name)) : chain.Named := by
  refine ⟨name, fun found same => ?_, fun target member => absurd rfl (still _ member target)⟩
  rw [base] at same
  cases same

theorem forwardChain_named (defaultDeny : Bool) : (forwardChain defaultDeny).Named := by
  refine ⟨fun name same => ?_, fun base same => ?_, fun name member => ?_⟩
  · cases same
    decide
  · cases same
    exact fun word member => (by decide : ∀ word ∈ [text "filter", text "forward", text "filter"],
      word ∈ chainWords) word member
  · simp only [forwardChain, mem_cons, Item.statement.injEq, Statement.jump.injEq, reduceCtorEq,
      not_mem_nil, or_false, false_or] at member
    rcases member with rfl | rfl | rfl <;> decide

theorem tierChain_named {name : Text} (known : name ∈ chainWords) (rules : List Rule) :
    (tierChain name rules).Named := by
  refine Chain.named_of_plain (fun found same => ?_) rfl fun item member target => ?_
  · cases same
    exact known
  · obtain ⟨rule, -, rfl⟩ := mem_map.mp member
    simp

theorem dispatchChain_named (sorted : List NICBinding) : (dispatchChain sorted).Named := by
  refine Chain.named_of_plain (fun found same => ?_) rfl fun item member target => ?_
  · cases same
    decide
  · obtain ⟨nic, -, either⟩ := mem_flatMap.mp member
    simp only [mem_cons, not_mem_nil, or_false] at either
    rcases either with rfl | rfl <;> simp

theorem nicChain_named (groups : List SecurityGroup) (nic : NICBinding) :
    (nicChain groups nic).Named := by
  refine Chain.named_of_plain (fun found same => nomatch same) rfl fun item member target => ?_
  rcases mem_append.mp member with grouped | extra
  · obtain ⟨group, -, listed⟩ := mem_flatMap.mp grouped
    rcases mem_cons.mp listed with rfl | ruled
    · simp
    · obtain ⟨rule, -, rfl⟩ := mem_map.mp ruled
      simp
  · obtain ⟨rule, -, rfl⟩ := mem_map.mp extra
    simp

theorem Chain.named_of_base {hook kind priority : Text} {deny : Bool}
    (words : ∀ word ∈ [kind, hook, priority], word ∈ chainWords) (name : chain.name = .fixed hook)
    (base : chain.base = some ⟨kind, hook, priority, deny⟩)
    (still : ∀ item ∈ chain.items, ∀ name, item ≠ .statement (.jump name)) : chain.Named := by
  refine ⟨fun found same => ?_, fun found same => ?_,
    fun target member => absurd rfl (still _ member target)⟩
  · rw [name] at same
    cases same
    exact words hook (mem_cons_of_mem _ mem_cons_self)
  · rw [base] at same
    cases same
    exact words

theorem isolationItems_still (chain : IsolationChain) :
    ∀ item ∈ isolationItems chain, ∀ name, item ≠ .statement (.jump name) := by
  intro item member target
  rcases mem_append.mp member with punched | last
  · split at punched
    · rcases mem_cons.mp punched with rfl | listed
      · simp
      · obtain ⟨exception, -, ports⟩ := mem_flatMap.mp listed
        obtain ⟨port, -, rfl⟩ := mem_map.mp ports
        simp
    · cases punched
  · obtain rfl := mem_singleton.mp last
    simp

variable [GoSort]

theorem natBlocks_named {rules : List NATRule} (member : .chain chain ∈ natBlocks rules) :
    chain.Named := by
  unfold natBlocks at member
  split at member
  · cases member
  obtain rfl := Block.chain.inj (mem_singleton.mp member)
  refine Chain.named_of_base (by decide) rfl rfl fun item listed target => ?_
  rcases mem_append.mp listed with snat | masq
  · obtain ⟨rule, -, rfl⟩ := mem_map.mp snat
    simp
  · obtain ⟨rule, -, rfl⟩ := mem_map.mp masq
    simp

theorem isolationBlocks_named {chains : List IsolationChain}
    (member : .chain chain ∈ isolationBlocks chains) : chain.Named := by
  unfold isolationBlocks at member
  split at member
  · cases member
  obtain rfl := Block.chain.inj (mem_singleton.mp member)
  refine Chain.named_of_base (by decide) rfl rfl fun item listed target => ?_
  obtain ⟨isolated, -, inside⟩ := mem_flatMap.mp listed
  exact isolationItems_still isolated item inside target

theorem ruleset_named {plan : Plan} (member : .chain chain ∈ ruleset plan) : chain.Named := by
  simp only [ruleset, mem_append, mem_cons, not_mem_nil, or_false, Block.chain.injEq]
    at member
  rcases member with (((sets | rfl | rfl | rfl | rfl) | nics) | nat) | isolation
  · obtain ⟨name, -, same⟩ := mem_map.mp sets
    cases same
  · exact forwardChain_named _
  · exact tierChain_named (by decide) _
  · exact tierChain_named (by decide) _
  · exact dispatchChain_named _
  · obtain ⟨nic, -, same⟩ := mem_map.mp nics
    obtain rfl := Block.chain.inj same
    exact nicChain_named _ _
  · exact natBlocks_named nat
  · exact isolationBlocks_named isolation

variable [GoRunes]

theorem tableLines_regular (plan : Plan) : ∀ line ∈ tableLines (ruleset plan), line.Regular := by
  unfold tableLines
  simp only [forall_mem_append]
  refine ⟨⟨header_regular, fun line member => ?_⟩, footer_regular⟩
  obtain ⟨block, inside, listed⟩ := mem_flatMap.mp member
  cases block with
  | set name elements => exact Block.set_regular name elements line listed
  | chain chain => exact (ruleset_named inside).lines_regular line listed

/-- The level behind the lines. -/
def levelBehind (level : Nat) (lines : List Line) : Nat :=
  lines.foldl (fun level line => nested level line.stop) level

omit [GoSort] [GoRunes] in
theorem behind_lines (level : Nat) (lines : List Line) :
    nftScanner.behind (.fresh level) (lines.map Line.piece) =
      .fresh (levelBehind level lines) := by
  induction lines generalizing level with
  | nil => rfl
  | cons line rest ih => exact ih _

omit [GoSort] in
theorem levelBehind_items (level : Nat) (items : List Item) :
    levelBehind level (items.map Item.line) = level := by
  induction items with
  | nil => rfl
  | cons item rest ih => cases item <;> exact ih

omit [GoSort] in
/-- A block that is opened in the table is closed in it. -/
theorem levelBehind_block (block : Block) : levelBehind 1 block.lines = 1 := by
  cases block with
  | set name elements =>
    simp only [Block.lines]
    split <;> rfl
  | chain written =>
    have items := levelBehind_items 2 written.items
    unfold levelBehind at items ⊢
    simp only [Block.lines, Chain.lines, foldl_append]
    cases written.base with
    | none | some base =>
      show foldl _ (foldl _ 2 _) _ = 1
      rw [items]
      rfl

omit [GoSort] in
theorem levelBehind_table (blocks : List Block) : levelBehind 0 (tableLines blocks) = 0 := by
  have inside : levelBehind 1 (blocks.flatMap Block.lines) = 1 := by
    induction blocks with
    | nil => rfl
    | cons block rest ih =>
      have first := levelBehind_block block
      unfold levelBehind at first ih ⊢
      rw [flatMap_cons, foldl_append, first, ih]
  unfold levelBehind at inside ⊢
  simp only [tableLines, foldl_append]
  show foldl _ (foldl _ 1 _) _ = 0
  rw [inside]
  rfl

/-- The statements of a plan as they are written, each with the character that ends it: the fixed
ones, one for every rule of a tier and of a bound group, and a block for every set name. -/
def skeleton (plan : Plan) : List (Text × Char) :=
  (tableLines (ruleset plan)).map fun line => line.piece.kept

/-- In every line, what the plan carries stays inside its statement. -/
def Confined (plan : Plan) : Prop := ConfinedAll 0 (tableLines (ruleset plan))

instance (plan : Plan) : Decidable (Confined plan) := by
  unfold Confined; infer_instance

end Plans

def portRule (port comment : String) : Rule :=
  ⟨ingress, text "tcp", text port, [], accept, text comment⟩

def singleNIC (rule : Rule) : Plan where
  defaultDeny := true
  clusterRules := []
  hostRules := []
  securityGroups := [⟨text "web", [rule]⟩]
  ipSets := [⟨text "office", [text "10.0.0.0/24", text "10.0.0.7"]⟩]
  nics := [⟨text "tap-vm1-0", [text "web"], []⟩]
  nat := []
  hostIsolation := []

attribute [local instance] asciiRunes stableSort

def clusterRule (rule : Rule) : Plan where
  defaultDeny := true
  clusterRules := [rule]
  hostRules := []
  securityGroups := []
  ipSets := []
  nics := []
  nat := []
  hostIsolation := []

end Litevirt.Firewall

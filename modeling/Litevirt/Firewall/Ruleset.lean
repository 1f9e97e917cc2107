import Litevirt.Firewall.Render
import Litevirt.Lib.Segments

/-!
# The ruleset behind the text

The table of a plan as sets and chains of statements.  The text that `Render` writes is the text
of these blocks, line by line; every line keeps apart what the renderer writes itself and what
the plan carries.
-/

namespace Litevirt.Firewall

open Litevirt.Lib List

inductive ChainName where
  | fixed (name : Text)
  | nic (nicDev : Text)

def ChainName.text : ChainName → Text
  | fixed name => name
  | nic nicDev => Firewall.text "nic_" ++ sanitiseChain nicDev

inductive Statement where
  | established
  | invalid
  | jump (name : Text)
  /-- `iifname DEV jump nic_DEV` and `oifname DEV jump nic_DEV`. -/
  | dispatch (entering : Bool) (nicDev : Text)
  | rule (stated : Rule) (nicDev : Text)
  | snat (nat : NATRule)
  | masquerade (nat : NATRule)
  | vrrp (bridge : Text)
  | punch (bridge vip : Text) (port : Int)
  | isolate (bridge : Text)

/-- The words of a statement, set one behind the other. -/
def Statement.fragments [GoRunes] : Statement → List Fragment
  | established => [.own (text "ct state established,related accept")]
  | invalid => [.own (text "ct state invalid drop")]
  | jump name => [.own (text "jump "), .own name]
  | dispatch entering nicDev =>
    [.own (if entering then text "iifname " else text "oifname "), .given nicDev,
      .own (text " jump nic_"), .given (sanitiseChain nicDev)]
  | rule stated nicDev =>
    (ruleParts stated nicDev).intersperse (.own (text " ")) ++
      if stated.comment ≠ [] then [.own (text " comment "), .given (quote stated.comment)]
      else []
  | snat nat =>
    [.own (text "oifname "), .given nat.outIface, .own (text " ip saddr "), .given nat.subnet,
      .own (text " snat to "), .given nat.snatTo]
  | masquerade nat =>
    [.own (text "ip saddr "), .given nat.subnet, .own (text " oifname != "),
      .given nat.bridge, .own (text " masquerade")]
  | vrrp bridge => [.own (text "iifname "), .given bridge, .own (text " ip protocol 112 accept")]
  | punch bridge vip port =>
    [.own (text "iifname "), .given bridge, .own (text " ip daddr "), .given vip,
      .own (text " tcp dport "), .own (decimal port), .own (text " accept")]
  | isolate bridge => [.own (text "iifname "), .given bridge, .own (text " drop")]

/-- A line of a chain: a statement or the remark that names a group. -/
inductive Item where
  | statement (stated : Statement)
  | group (name : Text)

/-- What makes a chain a base chain; its policy drops or accepts. -/
structure Base where
  kind : Text
  hook : Text
  priority : Text
  deny : Bool

structure Chain where
  name : ChainName
  base : Option Base
  items : List Item

inductive Block where
  | set (name : Text) (elements : List Text)
  | chain (written : Chain)

def NICBinding.groups (groups : List SecurityGroup) (nic : NICBinding) : List SecurityGroup :=
  (nic.securityGroups.filterMap (sgByName groups)).filter (·.name ≠ [])

def NICBinding.items (groups : List SecurityGroup) (nic : NICBinding) : List Item :=
  (nic.groups groups).flatMap (fun group =>
    .group group.name :: group.rules.map fun rule => .statement (.rule rule nic.nicDev)) ++
  nic.extraRules.map fun rule => .statement (.rule rule nic.nicDev)

def nicChain (groups : List SecurityGroup) (nic : NICBinding) : Chain :=
  ⟨.nic nic.nicDev, none, nic.items groups⟩

def forwardChain (defaultDeny : Bool) : Chain where
  name := .fixed (text "forward")
  base := some ⟨text "filter", text "forward", text "filter", defaultDeny⟩
  items := [.statement .established, .statement .invalid,
    .statement (.jump (text "cluster_default")), .statement (.jump (text "host_overrides")),
    .statement (.jump (text "nic_dispatch"))]

def tierChain (name : Text) (rules : List Rule) : Chain :=
  ⟨.fixed name, none, rules.map fun rule => .statement (.rule rule [])⟩

def dispatchChain (sorted : List NICBinding) : Chain :=
  ⟨.fixed (text "nic_dispatch"), none, sorted.flatMap fun nic =>
    [.statement (.dispatch true nic.nicDev), .statement (.dispatch false nic.nicDev)]⟩

def isolationItems (chain : IsolationChain) : List Item :=
  (if chain.exceptions ≠ [] then
    .statement (.vrrp chain.bridge) :: chain.exceptions.flatMap fun exception =>
      exception.ports.map fun port => .statement (.punch chain.bridge exception.vip port)
  else []) ++ [.statement (.isolate chain.bridge)]

section Plans

variable [GoSort]

def natBlocks (rules : List NATRule) : List Block :=
  if rules = [] then []
  else [.chain ⟨.fixed (text "postrouting"),
    some ⟨text "nat", text "postrouting", text "srcnat", false⟩,
    (sortedSNAT rules).map (fun rule => .statement (.snat rule)) ++
      (sortedMasq rules).map fun rule => .statement (.masquerade rule)⟩]

def isolationBlocks (chains : List IsolationChain) : List Block :=
  if chains = [] then []
  else [.chain ⟨.fixed (text "input"),
    some ⟨text "filter", text "input", text "filter", false⟩,
    (sortedIsolation chains).flatMap isolationItems⟩]

def setBlocks (sets : List IPSet) : List Block :=
  (sortStrings (setNames sets)).map fun name =>
    .set name (collapseSetElements (setElements sets name))

def ruleset (plan : Plan) : List Block :=
  setBlocks plan.ipSets ++
  [.chain (forwardChain plan.defaultDeny),
    .chain (tierChain (text "cluster_default") plan.clusterRules),
    .chain (tierChain (text "host_overrides") plan.hostRules),
    .chain (dispatchChain (sortedNICs plan.nics))] ++
  (sortedNICs plan.nics).map (fun nic => .chain (nicChain plan.securityGroups nic)) ++
  natBlocks plan.nat ++ isolationBlocks plan.hostIsolation

end Plans

/-- A stretch of text up to a newline, a semicolon or a brace. -/
structure Line where
  fragments : List Fragment
  remark : Text
  stop : Char

def fragmentsText (fragments : List Fragment) : Text := fragments.flatMap Fragment.text

def Line.piece (line : Line) : Piece Char := ⟨fragmentsText line.fragments, line.remark, line.stop⟩

/-- The end of a line behind a brace or a semicolon, or an empty line. -/
def newline : Line := ⟨[], [], '\n'⟩

def Item.line [GoRunes] : Item → Line
  | statement stated => ⟨.own (text "        ") :: stated.fragments, [], '\n'⟩
  | group name => ⟨[.own (text "        ")], text "# security group " ++ quote name, '\n'⟩

def Base.lines (base : Base) : List Line :=
  [⟨[.own (text "        type "), .own base.kind, .own (text " hook "), .own base.hook,
      .own (text " priority "), .own base.priority], [], ';'⟩,
    ⟨[.own (text " policy "), .own (if base.deny then drop else accept)], [], ';'⟩, newline]

def ChainName.fragments : ChainName → List Fragment
  | fixed name => [.own name]
  | nic nicDev => [.own (Firewall.text "nic_"), .given (sanitiseChain nicDev)]

def elementFragments (elements : List Text) : List Fragment :=
  (elements.map Fragment.given).intersperse (.own (text ", "))

def closing : List Line := [⟨[.own (text "    ")], [], '\x7d'⟩, newline, newline]

def Chain.lines [GoRunes] (chain : Chain) : List Line :=
  [⟨.own (text "    chain ") :: chain.name.fragments ++ [.own (text " ")], [], '\x7b'⟩, newline] ++
  chain.base.elim [] Base.lines ++ chain.items.map Item.line ++ closing

def Block.lines [GoRunes] : Block → List Line
  | set name elements =>
    [⟨[.own (text "    set "), .given name, .own (text " ")], [], '\x7b'⟩, newline,
      ⟨[.own (text "        type ipv4_addr")], [], '\n'⟩,
      ⟨[.own (text "        flags interval")], [], '\n'⟩] ++
    (if elements ≠ [] then
      -- the braces around the elements belong to the statement
      [⟨.own (text "        elements = ") :: .given ['\x7b'] :: .own (text " ") ::
        elementFragments elements ++ [.own (text " "), .given ['\x7d']], [], '\n'⟩]
    else []) ++ closing
  | chain written => written.lines

def header : List Line :=
  [⟨[], text "# Generated by litevirt firewall renderer — do not edit by hand.", '\n'⟩,
    ⟨[], text "# `nft -f -` consumes this file as an atomic ruleset replace.", '\n'⟩, newline,
    ⟨[.own (text "table inet litevirt-fw ")], [], '\x7b'⟩, newline]

def footer : List Line := [⟨[], [], '\x7d'⟩, newline]

def tableLines [GoRunes] (blocks : List Block) : List Line :=
  header ++ blocks.flatMap Block.lines ++ footer

def linesText (lines : List Line) : Text := (lines.map Line.piece).flatMap Piece.text

section Lines

theorem text_append (front back : String) : text front ++ text back = text (front ++ back) :=
  String.toList_append.symm

theorem text_append_append (front back : String) (rest : Text) :
    text front ++ (text back ++ rest) = text (front ++ back) ++ rest := by
  rw [← append_assoc, text_append]

@[simp] theorem linesText_nil : linesText [] = [] := rfl

@[simp] theorem linesText_cons (line : Line) (lines : List Line) :
    linesText (line :: lines) = line.piece.text ++ linesText lines := rfl

@[simp] theorem linesText_append (front back : List Line) :
    linesText (front ++ back) = linesText front ++ linesText back := by
  simp [linesText]

theorem linesText_flatMap {α : Type} (list : List α) (f : α → List Line) :
    linesText (list.flatMap f) = list.flatMap fun entry => linesText (f entry) := by
  simp [linesText, map_flatMap, flatMap_assoc]

theorem linesText_map {α : Type} (list : List α) (f : α → Line) :
    linesText (list.map f) = list.flatMap fun entry => (f entry).piece.text := by
  simp [linesText, flatMap_map]

theorem fragmentsText_intersperse (fragments : List Fragment) (separator : Text) :
    fragmentsText (fragments.intersperse (.own separator)) =
      join (fragments.map Fragment.text) separator := by
  induction fragments with
  | nil => rfl
  | cons first rest ih =>
    cases rest with
    | nil => simp [fragmentsText, join]
    | cons second rest =>
      simp only [map_cons, join, intersperse_cons_cons, fragmentsText,
        flatMap_cons, flatten_cons] at ih ⊢
      rw [ih]
      rfl

theorem closing_text : linesText closing = text "    \x7d\n\n" := rfl

theorem base_text (base : Base) :
    linesText base.lines =
      text "        type " ++ base.kind ++ text " hook " ++ base.hook ++ text " priority " ++
        base.priority ++ text "; policy " ++ (if base.deny then drop else accept) ++
        text ";\n" := by
  simp [Base.lines, Line.piece, Piece.text, fragmentsText, Fragment.text, newline, text]

theorem header_text :
    linesText header =
      text "# Generated by litevirt firewall renderer — do not edit by hand.\n" ++
      text "# `nft -f -` consumes this file as an atomic ruleset replace.\n\n" ++
      text "table inet litevirt-fw \x7b\n" := by
  decide +kernel

theorem footer_text : linesText footer = text "\x7d\n" := rfl

end Lines

section Rendered

variable [GoRunes]

theorem fragmentsText_rule (rule : Rule) (nicDev : Text) :
    fragmentsText (Statement.rule rule nicDev).fragments = renderRule rule nicDev := by
  simp only [Statement.fragments, renderRule]
  rw [← fragmentsText_intersperse, fragmentsText]
  split <;> simp [Fragment.text, fragmentsText]

theorem statement_text (stated : Statement) :
    (Item.statement stated).line.piece.text =
      text "        " ++ fragmentsText stated.fragments ++ text "\n" := by
  simp [Item.line, Line.piece, Piece.text, fragmentsText, Fragment.text, text]

theorem rule_text (rule : Rule) (nicDev : Text) :
    (Item.statement (.rule rule nicDev)).line.piece.text =
      text "        " ++ renderRule rule nicDev ++ text "\n" := by
  rw [statement_text, fragmentsText_rule]

theorem group_text (name : Text) :
    (Item.group name).line.piece.text =
      text "        # security group " ++ quote name ++ text "\n" := by
  simp [Item.line, Line.piece, Piece.text, fragmentsText, Fragment.text, text]

theorem chain_text (chain : Chain) :
    linesText chain.lines =
      text "    chain " ++ chain.name.text ++ text " \x7b\n" ++
      linesText (chain.base.elim [] Base.lines) ++
      (chain.items.flatMap fun item => item.line.piece.text) ++ text "    \x7d\n\n" := by
  unfold Chain.lines
  simp only [linesText_append, linesText_map, closing_text]
  cases chain.name <;>
    simp [ChainName.fragments, ChainName.text, Line.piece, Piece.text, fragmentsText,
      Fragment.text, text, newline]

theorem tierChain_text (name : Text) (rules : List Rule) :
    linesText (tierChain name rules).lines = renderTierChain name rules := by
  rw [chain_text]
  simp only [tierChain, renderTierChain, ChainName.text, Option.elim_none, linesText_nil,
    append_nil, flatMap_map, rule_text]

theorem jump_text (name : String) :
    (Item.statement (.jump (text name))).line.piece.text =
      text ("        jump " ++ name ++ "\n") := by
  simp only [statement_text, Statement.fragments, fragmentsText, flatMap_cons,
    flatMap_nil, Fragment.text, append_nil, text_append, String.append_assoc]
  rfl

theorem forwardChain_text (defaultDeny : Bool) :
    linesText (forwardChain defaultDeny).lines = renderForward defaultDeny := by
  have established : (Item.statement .established).line.piece.text =
      text "        ct state established,related accept\n" := rfl
  have invalid : (Item.statement .invalid).line.piece.text =
      text "        ct state invalid drop\n" := rfl
  rw [chain_text]
  simp only [forwardChain, Option.elim_some, base_text, flatMap_cons, flatMap_nil,
    established, invalid, jump_text, ChainName.text, append_nil, append_assoc,
    renderForward]
  simp only [text_append, text_append_append, String.reduceAppend]

theorem nicChain_text (groups : List SecurityGroup) (nic : NICBinding) :
    linesText (nicChain groups nic).lines = renderNIC groups nic := by
  have named : (nic.groups groups).flatMap (fun group =>
      text "        # security group " ++ quote group.name ++ text "\n" ++
        group.rules.flatMap fun rule =>
          text "        " ++ renderRule rule nic.nicDev ++ text "\n") =
      nic.securityGroups.flatMap (renderGroup groups nic.nicDev) := by
    unfold NICBinding.groups
    induction nic.securityGroups with
    | nil => rfl
    | cons name rest ih =>
      rw [flatMap_cons, ← ih, renderGroup]
      cases found : sgByName groups name with
      | none => simp [found]
      | some group => by_cases empty : group.name = [] <;> simp [found, empty]
  rw [chain_text]
  simp only [nicChain, NICBinding.items, Option.elim_none, linesText_nil, append_nil,
    flatMap_append, flatMap_assoc, flatMap_cons, group_text, named, flatMap_map, rule_text,
    renderNIC, ChainName.text]
  simp only [append_assoc, text_append_append, String.reduceAppend]

theorem isolation_text (chain : IsolationChain) :
    ((isolationItems chain).flatMap fun item => item.line.piece.text) = renderIsolation chain := by
  unfold isolationItems renderIsolation
  split <;>
    simp [flatMap_assoc, flatMap_map, statement_text, Statement.fragments,
      fragmentsText, Fragment.text, text]

end Rendered

section Blocks

variable [GoRunes]

def blocksText (blocks : List Block) : Text := linesText (blocks.flatMap Block.lines)

theorem blocksText_cons (block : Block) (blocks : List Block) :
    blocksText (block :: blocks) = linesText block.lines ++ blocksText blocks := by
  simp [blocksText]

theorem blocksText_append (front back : List Block) :
    blocksText (front ++ back) = blocksText front ++ blocksText back := by
  simp [blocksText]

theorem setBlocks_text (sets : List IPSet) : blocksText (setBlocks sets) = renderIPSets sets := by
  unfold blocksText setBlocks renderIPSets
  rw [flatMap_map, linesText_flatMap]
  refine flatMap_congr fun name _ => ?_
  have listed (elements : List Text) :
      fragmentsText (elementFragments elements) = join elements (text ", ") := by
    have given : elements.map (Fragment.text ∘ Fragment.given) = elements := by
      simp [Function.comp_def, Fragment.text]
    rw [elementFragments, fragmentsText_intersperse, map_map, given]
  unfold fragmentsText at listed
  simp only [Block.lines]
  split <;>
    simp [Line.piece, Piece.text, fragmentsText, Fragment.text, text, newline, closing, listed]

variable [GoSort]

theorem natBlocks_text (rules : List NATRule) : blocksText (natBlocks rules) = renderNAT rules := by
  unfold natBlocks renderNAT blocksText
  split
  · rfl
  simp only [flatMap_cons, flatMap_nil, append_nil, Block.lines, chain_text,
    ChainName.text, Option.elim_some, base_text, flatMap_append, flatMap_map,
    statement_text, Statement.fragments, fragmentsText, Fragment.text, append_assoc,
    Bool.false_eq_true, if_false, accept, text_append, text_append_append, String.reduceAppend]

theorem isolationBlocks_text (chains : List IsolationChain) :
    blocksText (isolationBlocks chains) = renderHostIsolation chains := by
  unfold isolationBlocks renderHostIsolation blocksText
  split
  · rfl
  · simp only [flatMap_cons, flatMap_nil, append_nil, Block.lines, chain_text,
      ChainName.text, Option.elim_some, base_text, flatMap_assoc, isolation_text,
      append_assoc, Bool.false_eq_true, if_false, accept, text_append, String.reduceAppend]

theorem dispatchBlocks_text (groups : List SecurityGroup) (nics : List NICBinding) :
    blocksText (.chain (dispatchChain (sortedNICs nics)) ::
        (sortedNICs nics).map fun nic => .chain (nicChain groups nic)) =
      renderNICDispatch nics groups := by
  unfold blocksText dispatchChain renderNICDispatch
  simp only [flatMap_cons, flatMap_map, linesText_append, linesText_flatMap, Block.lines,
    nicChain_text]
  simp only [chain_text, Option.elim_none, linesText_nil, append_nil, flatMap_assoc,
    flatMap_cons, flatMap_nil, ChainName.text]
  simp [statement_text, Statement.fragments, fragmentsText, Fragment.text, text]

theorem renderTable_eq (plan : Plan) :
    renderTable plan = linesText (tableLines (ruleset plan)) := by
  have blocks : linesText ((ruleset plan).flatMap Block.lines) = blocksText (ruleset plan) := rfl
  unfold renderTable tableLines
  rw [linesText_append, linesText_append, header_text, blocks, footer_text, ruleset]
  simp only [append_assoc, cons_append, nil_append, blocksText_append, blocksText_cons,
    ← dispatchBlocks_text, setBlocks_text, natBlocks_text, isolationBlocks_text, Block.lines,
    forwardChain_text, tierChain_text]

end Blocks

end Litevirt.Firewall

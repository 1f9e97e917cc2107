import Litevirt.Firewall.Ruleset
import Litevirt.Lib.Chains

/-!
# What the ruleset forwards

A packet between two bound NICs goes through the chain of each, in the order of the device names,
and the first rule that fits ends the evaluation.  What the rules of a VM refuse is kept from it
exactly when every accept of others that fits comes behind a drop that fits.
-/

namespace Litevirt.Firewall

open Litevirt.Lib List Chains

/-! ## Packets -/

inductive Tracking where
  | new
  | established
  | related
  | invalid
  | untracked
  deriving DecidableEq

/-- A forwarded packet: the devices it enters and leaves by, its connection, and what rules look
at beside that. -/
structure Packet (δ : Type) where
  iif : Text
  oif : Text
  iif_ne : iif ≠ []
  oif_ne : oif ≠ []
  tracking : Tracking
  data : δ

inductive Verdict where
  | accept
  /-- Dropped, or rejected with an error to the sender. -/
  | drop
  deriving DecidableEq

def Rule.verdict (rule : Rule) : Verdict :=
  if rule.action = [] ∨ rule.action = accept then .accept else .drop

/-! ## Evaluation -/

def Chain.statements (chain : Chain) : List Statement :=
  chain.items.filterMap fun item =>
    match item with
    | .statement stated => some stated
    | .group _ => none

/-- The statements under a chain name; nft appends the blocks of one name. -/
def chainStatements (blocks : List Block) (name : Text) : List Statement :=
  blocks.flatMap fun block =>
    match block with
    | .set _ _ => []
    | .chain chain => if chain.name.text = name then chain.statements else []

section Semantics

variable {δ : Type} (fits : Rule → δ → Bool)

/-- A statement applies to a packet; `fits` stands for a rule's protocol, port and address.  The
statements of the other hooks are not on the way of a forwarded packet. -/
def Statement.applies (packet : Packet δ) : Statement → Bool
  | established => packet.tracking = .established || packet.tracking = .related
  | invalid => packet.tracking = .invalid
  | jump _ => true
  | dispatch entering nicDev => if entering then packet.iif = nicDev else packet.oif = nicDev
  | rule stated nicDev =>
    (nicDev = [] || if stated.direction = egress then packet.iif = nicDev
      else packet.oif = nicDev) && fits stated packet.data
  | _ => false

def Statement.branch : Statement → Option (Branch Text Verdict)
  | established => some (.final .accept)
  | invalid => some (.final .drop)
  | jump name => some (.jump name)
  | dispatch _ nicDev => some (.jump (ChainName.nic nicDev).text)
  | rule stated _ => some (.final stated.verdict)
  | _ => none

def nftChains (blocks : List Block) : Chains (Packet δ) Statement Text Verdict where
  rules := chainStatements blocks
  applies := Statement.applies fits
  branch := Statement.branch

def forwardPolicy (blocks : List Block) : Option Verdict :=
  blocks.findSome? fun block =>
    match block with
    | .set _ _ => none
    | .chain chain => chain.base.bind fun base =>
      if base.hook = text "forward" then some (if base.deny then .drop else .accept) else none

/-- The ruleset is loaded and lets the packet through; nft refuses jumps nested deeper than
sixteen levels, cycles among them. -/
def forwards (blocks : List Block) (packet : Packet δ) : Bool :=
  (nftChains fits blocks).bounded 16 (text "forward") &&
    ((nftChains fits blocks).eval packet 16 (text "forward")).or (forwardPolicy blocks) =
      some .accept

/-! ## The rules of a plan -/

/-- The rules of a binding: those of its groups and then its own. -/
def NICBinding.rules (groups : List SecurityGroup) (nic : NICBinding) : List Rule :=
  (nic.groups groups).flatMap (·.rules) ++ nic.extraRules

def ingressRules (rules : List Rule) : List Rule := rules.filter (·.direction ≠ egress)

def egressRules (rules : List Rule) : List Rule := rules.filter (·.direction = egress)

def firstVerdict (data : δ) (rules : List Rule) : Option Verdict :=
  (rules.find? (fits · data)).map Rule.verdict

section Plans

variable [GoSort]

def deviceRules (plan : Plan) (nicDev : Text) : List Rule :=
  ((sortedNICs plan.nics).filter (·.nicDev = nicDev)).flatMap (·.rules plan.securityGroups)

/-- The rules a packet meets: egress rules of the device it enters by and ingress rules of the
device it leaves by, the device with the smaller name first. -/
def metRules (plan : Plan) (packet : Packet δ) : List Rule :=
  if packet.iif = packet.oif then deviceRules plan packet.oif
  else if packet.iif < packet.oif then
    egressRules (deviceRules plan packet.iif) ++ ingressRules (deviceRules plan packet.oif)
  else ingressRules (deviceRules plan packet.oif) ++ egressRules (deviceRules plan packet.iif)

/-- A rule of others that a packet to the NIC meets: an egress rule of a binding of the device it
enters by, or an ingress rule of another binding of the NIC's device. -/
def Foreign (plan : Plan) (nic : NICBinding) (iif : Text) (rule : Rule) : Prop :=
  (∃ sender ∈ plan.nics, sender.nicDev = iif ∧
    rule ∈ egressRules (sender.rules plan.securityGroups)) ∨
  ∃ other ∈ plan.nics, other ≠ nic ∧ other.nicDev = nic.nicDev ∧
    rule ∈ ingressRules (other.rules plan.securityGroups)

/-- Each accept of others that fits the packet comes behind a drop that fits it. -/
def Shielded (plan : Plan) (nic : NICBinding) (packet : Packet δ) : Prop :=
  ∀ before rule after, metRules plan packet = before ++ rule :: after →
    Foreign plan nic packet.iif rule → fits rule packet.data = true → rule.verdict = .accept →
    ∃ earlier ∈ before, fits earlier packet.data = true ∧ earlier.verdict = .drop

end Plans

end Semantics

/-- A device whose chain is the dispatch chain itself: nft refuses the ruleset. -/
def Cyclic (plan : Plan) : Prop := ∃ nic ∈ plan.nics, sanitiseChain nic.nicDev = text "dispatch"

/-! ## The chains of a plan -/

theorem chainStatements_append (front back : List Block) (name : Text) :
    chainStatements (front ++ back) name =
      chainStatements front name ++ chainStatements back name := flatMap_append

theorem chainStatements_chain (chain : Chain) (rest : List Block) (name : Text) :
    chainStatements (.chain chain :: rest) name =
      (if chain.name.text = name then chain.statements else []) ++ chainStatements rest name :=
  flatMap_cons

theorem chainStatements_setBlocks (sets : List IPSet) (name : Text) :
    chainStatements (setBlocks sets) name = [] := by
  unfold chainStatements setBlocks
  simp

theorem nicChain_statements (groups : List SecurityGroup) (nic : NICBinding) :
    (nicChain groups nic).statements =
      (nic.rules groups).map fun rule => .rule rule nic.nicDev := by
  unfold nicChain Chain.statements NICBinding.items NICBinding.rules
  simp only [filterMap_append, map_append, filterMap_flatMap, map_flatMap,
    filterMap_cons, filterMap_map]
  congr 2
  · simp
  · simp

theorem nic_text_ne {nicDev name : Text} (other : name.take 4 ≠ text "nic_") :
    (ChainName.nic nicDev).text ≠ name := by
  intro same
  refine other ?_
  rw [← same]
  rfl

section Named

variable [GoSort] (plan : Plan)

variable {name : Text}

theorem chainStatements_natBlocks (rules : List NATRule) (other : text "postrouting" ≠ name) :
    chainStatements (natBlocks rules) name = [] := by
  unfold natBlocks
  split
  · rfl
  · simp [ChainName.text, other, chainStatements]

theorem chainStatements_isolationBlocks (chains : List IsolationChain)
    (other : text "input" ≠ name) : chainStatements (isolationBlocks chains) name = [] := by
  unfold isolationBlocks
  split
  · rfl
  · simp [ChainName.text, other, chainStatements]

def nicStatements (name : Text) : List Statement :=
  (sortedNICs plan.nics).flatMap fun nic =>
    if (ChainName.nic nic.nicDev).text = name then
      (nic.rules plan.securityGroups).map fun rule => .rule rule nic.nicDev
    else []

theorem nicStatements_of_ne (other : name.take 4 ≠ text "nic_") : nicStatements plan name = [] := by
  unfold nicStatements
  simp [nic_text_ne other]

theorem chainStatements_ruleset (notNAT : text "postrouting" ≠ name)
    (notInput : text "input" ≠ name) :
    chainStatements (ruleset plan) name =
      (if text "forward" = name then (forwardChain plan.defaultDeny).statements else []) ++
      (if text "cluster_default" = name then
        plan.clusterRules.map fun rule => Statement.rule rule [] else []) ++
      (if text "host_overrides" = name then
        plan.hostRules.map fun rule => Statement.rule rule [] else []) ++
      (if text "nic_dispatch" = name then
        (sortedNICs plan.nics).flatMap fun nic =>
          [.dispatch true nic.nicDev, .dispatch false nic.nicDev] else []) ++
      nicStatements plan name := by
  have nics : chainStatements ((sortedNICs plan.nics).map fun nic =>
      .chain (nicChain plan.securityGroups nic)) name = nicStatements plan name := by
    unfold chainStatements nicStatements
    rw [flatMap_map]
    simp only [nicChain_statements]
    rfl
  have tier (tierName : Text) (rules : List Rule) :
      (tierChain tierName rules).statements = rules.map fun rule => Statement.rule rule [] := by
    simp [tierChain, Chain.statements]
  have dispatch : (dispatchChain (sortedNICs plan.nics)).statements =
      (sortedNICs plan.nics).flatMap fun nic =>
        [Statement.dispatch true nic.nicDev, .dispatch false nic.nicDev] := by
    simp [dispatchChain, Chain.statements, filterMap_flatMap]
  have none : chainStatements [] name = [] := rfl
  unfold ruleset
  simp only [chainStatements_append, chainStatements_setBlocks, chainStatements_chain, none, nics,
    chainStatements_natBlocks _ notNAT, chainStatements_isolationBlocks _ notInput, tier, dispatch,
    nil_append, append_nil, append_assoc]
  rfl

end Named

/-! ## What the chains of NICs say -/

section Said

variable [GoSort] {δ : Type} (fits : Rule → δ → Bool) (plan : Plan) (packet : Packet δ)

/-- What the rules of a binding say, in the chain of its device. -/
def said (nic : NICBinding) : Option Verdict :=
  (nic.rules plan.securityGroups).findSome? fun rule =>
    if (Statement.rule rule nic.nicDev).applies fits packet then some rule.verdict else none

/-- What a binding says to a packet that passes its device. -/
def saidTo (nic : NICBinding) : Option Verdict :=
  if nic.nicDev = packet.iif ∨ nic.nicDev = packet.oif then said fits plan packet nic else none

variable {nic : NICBinding}

omit [GoSort] in
theorem said_eq_saidTo (named : nic.nicDev ≠ []) :
    said fits plan packet nic = saidTo fits plan packet nic := by
  unfold saidTo
  split
  · rfl
  rename_i elsewhere
  rw [not_or] at elsewhere
  refine findSome?_eq_none_iff.mpr fun rule _ => if_neg ?_
  have entering := Ne.symm elsewhere.1
  have leaving := Ne.symm elsewhere.2
  simp [Statement.applies, named, entering, leaving]

variable {name : Text}

omit [GoSort] in
theorem ne_nic_text {word : Text} (starts : word.take 4 ≠ text "nic_") :
    word ≠ text "nic_" ++ name := by
  intro same
  refine starts ?_
  rw [same]
  rfl

theorem nic_rules (other : name ≠ text "dispatch") :
    (nftChains fits (ruleset plan)).rules (text "nic_" ++ name) =
      nicStatements plan (text "nic_" ++ name) := by
  have notDispatch : text "nic_dispatch" ≠ text "nic_" ++ name := by
    intro same
    have split : text "nic_" ++ text "dispatch" = text "nic_" ++ name := same
    exact other (append_cancel_left split).symm
  have notNAT : text "postrouting" ≠ text "nic_" ++ name := ne_nic_text (by decide)
  have notInput : text "input" ≠ text "nic_" ++ name := ne_nic_text (by decide)
  have found := chainStatements_ruleset plan notNAT notInput
  rw [if_neg notDispatch] at found
  exact found

theorem eval_nic (depth : Nat) (other : name ≠ text "dispatch") (nonempty : name ≠ []) :
    (nftChains fits (ruleset plan)).eval packet (depth + 1) (text "nic_" ++ name) =
      (sortedNICs plan.nics).findSome? fun nic =>
        if sanitiseChain nic.nicDev = name then saidTo fits plan packet nic else none := by
  simp only [Chains.eval, nic_rules fits plan other, nicStatements, findSome?_flatMap]
  congr 1
  funext nic
  have same : (ChainName.nic nic.nicDev).text = text "nic_" ++ name ↔
      sanitiseChain nic.nicDev = name := append_right_inj _
  by_cases here : sanitiseChain nic.nicDev = name
  · have named : nic.nicDev ≠ [] := by
      intro empty
      rw [empty] at here
      exact nonempty here.symm
    rw [if_pos (same.mpr here), if_pos here, ← said_eq_saidTo fits plan packet named,
      findSome?_map]
    rfl
  · rw [if_neg (mt same.mp here), if_neg here]
    rfl

theorem sortedNICs_sorted (nics : List NICBinding) :
    (sortedNICs nics).Pairwise fun first second => first.nicDev ≤ second.nicDev := by
  have sorted := GoSort.sorted (fun a b : NICBinding => a.nicDev < b.nicDev) nics
    (by simpa using fun a b less => le_of_lt less)
    (by simpa using fun a b c first second => le_trans first second)
  exact sorted.imp fun ordered => not_lt.mp (of_decide_eq_false ordered)

theorem mem_sortedNICs {nics : List NICBinding} :
    nic ∈ sortedNICs nics ↔ nic ∈ nics := (GoSort.perm _ nics).mem_iff

def chainSays (nic : NICBinding) : Option Verdict :=
  if nic.nicDev = packet.iif ∨ nic.nicDev = packet.oif then
    (sortedNICs plan.nics).findSome? fun other =>
      if sanitiseChain other.nicDev = sanitiseChain nic.nicDev then saidTo fits plan packet other
      else none
  else none

theorem eval_dispatch (acyclic : ¬ Cyclic plan) (depth : Nat) :
    (nftChains fits (ruleset plan)).eval packet (depth + 2) (text "nic_dispatch") =
      (sortedNICs plan.nics).findSome? (chainSays fits plan packet) := by
  have free : nicStatements plan (text "nic_dispatch") = [] := by
    refine flatMap_eq_nil_iff.mpr fun nic member => if_neg fun same => ?_
    have split : text "nic_" ++ sanitiseChain nic.nicDev = text "nic_" ++ text "dispatch" := same
    exact acyclic ⟨nic, mem_sortedNICs.mp member, append_cancel_left split⟩
  have rules : (nftChains fits (ruleset plan)).rules (text "nic_dispatch") =
      (sortedNICs plan.nics).flatMap fun nic =>
        [.dispatch true nic.nicDev, .dispatch false nic.nicDev] := by
    have found := chainStatements_ruleset plan
      (show text "postrouting" ≠ text "nic_dispatch" by decide) (by decide)
    rw [free, if_neg (by decide), if_neg (by decide), if_neg (by decide)] at found
    simpa [nftChains] using found
  rw [Chains.eval, rules, findSome?_flatMap]
  refine findSome?_congr fun nic member => ?_
  have other : sanitiseChain nic.nicDev ≠ text "dispatch" :=
    fun same => acyclic ⟨nic, mem_sortedNICs.mp member, same⟩
  have chain (named : nic.nicDev ≠ []) :=
    eval_nic fits plan packet depth other (by unfold sanitiseChain; simpa using named)
  have passes (entering : Bool) :
      (nftChains fits (ruleset plan)).say packet
          ((nftChains fits (ruleset plan)).eval packet (depth + 1))
          (.dispatch entering nic.nicDev) =
        if (if entering then packet.iif else packet.oif) = nic.nicDev then
          (nftChains fits (ruleset plan)).eval packet (depth + 1)
            (text "nic_" ++ sanitiseChain nic.nicDev) else none := by
    cases entering <;> simp [Chains.say, nftChains, Statement.applies, Statement.branch,
      ChainName.text]
  simp only [findSome?_cons, findSome?_nil, passes, if_true, Bool.false_eq_true, if_false]
  by_cases passed : nic.nicDev = packet.iif ∨ nic.nicDev = packet.oif
  · have named : nic.nicDev ≠ [] := by
      rcases passed with same | same <;> rw [same]
      · exact packet.iif_ne
      · exact packet.oif_ne
    rw [chainSays, ← chain named]
    cases (nftChains fits (ruleset plan)).eval packet (depth + 1)
      (text "nic_" ++ sanitiseChain nic.nicDev) with
    | none => simp
    | some verdict => rcases passed with same | same <;> grind
  · rw [chainSays, if_neg passed]
    rw [not_or] at passed
    rw [if_neg (Ne.symm passed.1), if_neg (Ne.symm passed.2)]

omit [GoSort] in
theorem passed_of_saidTo {verdict : Verdict} (answer : saidTo fits plan packet nic = some verdict) :
    nic.nicDev = packet.iif ∨ nic.nicDev = packet.oif := by
  by_contra elsewhere
  rw [saidTo, if_neg elsewhere] at answer
  cases answer

theorem chains_say :
    (sortedNICs plan.nics).findSome? (chainSays fits plan packet) =
      (sortedNICs plan.nics).findSome? (saidTo fits plan packet) := by
  cases first : (sortedNICs plan.nics).findSome? (saidTo fits plan packet) with
  | none =>
    have silent := findSome?_eq_none_iff.mp first
    refine findSome?_eq_none_iff.mpr fun nic _ => ?_
    unfold chainSays
    split
    · refine findSome?_eq_none_iff.mpr fun other member => ?_
      rw [silent other member, ite_self]
    · rfl
  | some verdict =>
    obtain ⟨before, nic, after, split, answer, silent⟩ := findSome?_eq_some_iff.mp first
    have passed := passed_of_saidTo fits plan packet answer
    have sorted := sortedNICs_sorted plan.nics
    rw [split, pairwise_append, pairwise_cons] at sorted
    obtain ⟨-, ⟨behind, -⟩, across⟩ := sorted
    have shared {other : NICBinding} (via : other.nicDev = packet.iif ∨ other.nicDev = packet.oif)
        (same : sanitiseChain nic.nicDev = sanitiseChain other.nicDev) :
        chainSays fits plan packet other = some verdict := by
      rw [chainSays, if_pos via, split]
      refine findSome?_eq_of_split (by rw [if_pos same, answer]) fun earlier member => .inl ?_
      rw [silent earlier member, ite_self]
    rw [split]
    refine findSome?_eq_of_split (shared passed rfl) fun earlier member => ?_
    by_cases via : earlier.nicDev = packet.iif ∨ earlier.nicDev = packet.oif
    · by_cases same : sanitiseChain nic.nicDev = sanitiseChain earlier.nicDev
      · exact .inr (shared via same)
      refine .inl ?_
      rw [chainSays, if_pos via, split]
      refine findSome?_eq_none_iff.mpr fun other among => ?_
      by_cases joined : sanitiseChain other.nicDev = sanitiseChain earlier.nicDev
      · rw [if_pos joined]
        rcases mem_append.mp among with ahead | rest
        · exact silent other ahead
        rcases mem_cons.mp rest with rfl | later
        · exact absurd joined same
        -- A later binding of the chain would be of one of the two devices.
        cases answers : saidTo fits plan packet other with
        | none => rfl
        | some word =>
          have ofOther := passed_of_saidTo fits plan packet answers
          have low := across earlier member nic mem_cons_self
          have high := behind other later
          have apart : nic.nicDev ≠ earlier.nicDev := fun equal => same (by rw [equal])
          grind
      · rw [if_neg joined]
    · exact .inl (if_neg via)

/-- The rules of a binding in the direction of the packet. -/
def directed (nic : NICBinding) : List Rule :=
  (nic.rules plan.securityGroups).filter fun rule =>
    if rule.direction = egress then packet.iif = nic.nicDev else packet.oif = nic.nicDev

/-- The first rule of a binding that fits a packet which passes its device. -/
def firstMet (nic : NICBinding) : Option Rule :=
  if nic.nicDev = packet.iif ∨ nic.nicDev = packet.oif then
    (directed plan packet nic).find? (fits · packet.data)
  else none

omit [GoSort] in
theorem saidTo_eq (nic : NICBinding) :
    saidTo fits plan packet nic = (firstMet fits plan packet nic).map Rule.verdict := by
  unfold saidTo firstMet
  split
  · rename_i passed
    have named : nic.nicDev ≠ [] := by
      rcases passed with same | same <;> rw [same]
      · exact packet.iif_ne
      · exact packet.oif_ne
    rw [directed, find?_filter, said, ← findSome?_ite]
    simp [Statement.applies, named]
  · rfl

omit [GoSort] in
theorem directed_entering (same : nic.nicDev = packet.iif) (apart : packet.iif ≠ packet.oif) :
    directed plan packet nic = egressRules (nic.rules plan.securityGroups) := by
  simp [directed, egressRules, same, Ne.symm apart]

omit [GoSort] in
theorem directed_leaving (same : nic.nicDev = packet.oif) (apart : packet.iif ≠ packet.oif) :
    directed plan packet nic = ingressRules (nic.rules plan.securityGroups) := by
  simp [directed, ingressRules, same, apart]

omit [GoSort] in
theorem directed_hairpin (same : nic.nicDev = packet.oif) (hairpin : packet.iif = packet.oif) :
    directed plan packet nic = nic.rules plan.securityGroups := by
  simp [directed, same, hairpin]

/-- The first rule that fits, among those the packet meets, is that of the first binding with
one. -/
theorem bindings_meet :
    (sortedNICs plan.nics).findSome? (firstMet fits plan packet) =
      (metRules plan packet).find? (fits · packet.data) := by
  have sorted := sortedNICs_sorted plan.nics
  have grouped (device : Text) (among : List Rule → List Rule)
      (filtered : ∀ nics : List NICBinding, among (nics.flatMap (·.rules plan.securityGroups)) =
        nics.flatMap fun nic => among (nic.rules plan.securityGroups)) :
      (among (deviceRules plan device)).find? (fits · packet.data) =
        ((sortedNICs plan.nics).filter (·.nicDev = device)).findSome? fun nic =>
          (among (nic.rules plan.securityGroups)).find? (fits · packet.data) := by
    rw [deviceRules, filtered, find?_flatMap]
  have ofEgress := grouped packet.iif egressRules fun nics => filter_flatMap
  have ofIngress := grouped packet.oif ingressRules fun nics => filter_flatMap
  unfold metRules
  split
  · rename_i hairpin
    rw [deviceRules, find?_flatMap, findSome?_filter]
    refine findSome?_congr fun nic _ => ?_
    by_cases here : nic.nicDev = packet.oif
    · rw [firstMet, if_pos (.inr here), directed_hairpin plan packet here hairpin,
        if_pos (by simpa using here)]
    · rw [firstMet, if_neg (by simpa [hairpin] using here), if_neg (by simpa using here)]
  rename_i apart
  have met (nic : NICBinding) : firstMet fits plan packet nic =
      if nic.nicDev = packet.iif then
        (egressRules (nic.rules plan.securityGroups)).find? (fits · packet.data)
      else if nic.nicDev = packet.oif then
        (ingressRules (nic.rules plan.securityGroups)).find? (fits · packet.data)
      else none := by
    unfold firstMet
    by_cases enters : nic.nicDev = packet.iif
    · rw [if_pos (.inl enters), if_pos enters, directed_entering plan packet enters apart]
    · by_cases leaves : nic.nicDev = packet.oif
      · rw [if_pos (.inr leaves), if_neg enters, if_pos leaves,
          directed_leaving plan packet leaves apart]
      · rw [if_neg (not_or.mpr ⟨enters, leaves⟩), if_neg enters, if_neg leaves]
  split
  · rename_i before
    rw [find?_append, ofEgress, ofIngress, ← findSome?_of_sorted sorted before]
    exact findSome?_congr fun nic _ => met nic
  rename_i notBefore
  have after := lt_of_le_of_ne (not_lt.mp notBefore) (Ne.symm apart)
  rw [find?_append, ofEgress, ofIngress, ← findSome?_of_sorted sorted after]
  refine findSome?_congr fun nic _ => (met nic).trans ?_
  split_ifs <;> simp_all

omit [GoSort] in
/-- Where the ingress rules of the NIC do not accept a packet, an accept that a binding has for it
is a rule of others. -/
theorem foreign_of_firstMet {rule : Rule} {binding : NICBinding} (leaves : nic.nicDev = packet.oif)
    (refused : firstVerdict fits packet.data (ingressRules (nic.rules plan.securityGroups)) ≠
      some .accept) (listed : binding ∈ plan.nics)
    (met : firstMet fits plan packet binding = some rule) (accepts : rule.verdict = .accept) :
    Foreign plan nic packet.iif rule := by
  obtain ⟨passed, found⟩ := Option.ite_none_right_eq_some.mp met
  obtain ⟨member, direction⟩ := mem_filter.mp (mem_of_find?_eq_some found)
  by_cases isEgress : rule.direction = egress
  · rw [if_pos isEgress] at direction
    exact .inl ⟨binding, listed, (of_decide_eq_true direction).symm,
      mem_filter.mpr ⟨member, by simpa using isEgress⟩⟩
  rw [if_neg isEgress] at direction
  have here : binding.nicDev = packet.oif := (of_decide_eq_true direction).symm
  refine .inr ⟨binding, listed, ?_, here.trans leaves.symm,
    mem_filter.mpr ⟨member, by simpa using isEgress⟩⟩
  rintro rfl
  -- its own first ingress rule would be the accept
  refine refused ?_
  have first : (ingressRules (binding.rules plan.securityGroups)).find? (fits · packet.data) =
      some rule := by
    by_cases hairpin : packet.iif = packet.oif
    · rw [directed_hairpin plan packet here hairpin] at found
      obtain ⟨fit, before, after, split, silent⟩ := find?_eq_some_iff_append.mp found
      refine find?_eq_some_iff_append.mpr ⟨fit, ingressRules before, ingressRules after, ?_,
        fun earlier among => silent earlier (mem_filter.mp among).1⟩
      simp [split, ingressRules, isEgress]
    · rwa [directed_leaving plan packet here hairpin] at found
  rw [firstVerdict, first, Option.map_some, accepts]

/-! ## The forward chain -/

theorem forward_rules :
    (nftChains fits (ruleset plan)).rules (text "forward") =
      [.established, .invalid, .jump (text "cluster_default"), .jump (text "host_overrides"),
        .jump (text "nic_dispatch")] := by
  have found := chainStatements_ruleset plan (show text "postrouting" ≠ text "forward" by decide)
    (by decide)
  rw [if_pos rfl, nicStatements_of_ne plan (by decide)] at found
  exact found

theorem tier_rules (noCluster : plan.clusterRules = []) (noHost : plan.hostRules = []) :
    ∀ tier ∈ [text "cluster_default", text "host_overrides"],
      (nftChains fits (ruleset plan)).rules tier = [] := by
  have cluster := chainStatements_ruleset plan
    (show text "postrouting" ≠ text "cluster_default" by decide) (by decide)
  rw [if_pos rfl, nicStatements_of_ne plan (by decide), noCluster] at cluster
  have host := chainStatements_ruleset plan
    (show text "postrouting" ≠ text "host_overrides" by decide) (by decide)
  rw [if_pos rfl, nicStatements_of_ne plan (by decide), noHost] at host
  exact forall_mem_cons.mpr ⟨cluster, forall_mem_singleton.mpr host⟩

theorem eval_forward (noCluster : plan.clusterRules = []) (noHost : plan.hostRules = [])
    (fresh : packet.tracking = .new) (depth : Nat) :
    (nftChains fits (ruleset plan)).eval packet (depth + 2) (text "forward") =
      (nftChains fits (ruleset plan)).eval packet (depth + 1) (text "nic_dispatch") := by
  have tiers := tier_rules fits plan noCluster noHost
  have silent (tier : Text) (member : tier ∈ [text "cluster_default", text "host_overrides"]) :
      (nftChains fits (ruleset plan)).eval packet (depth + 1) tier = none := by
    rw [Chains.eval, tiers tier member]
    rfl
  rw [Chains.eval, forward_rules]
  generalize (nftChains fits (ruleset plan)).eval packet (depth + 1) = behind at silent
  have cluster := silent (text "cluster_default") (by decide)
  have host := silent (text "host_overrides") (by decide)
  have applies : (nftChains fits (ruleset plan)).applies = Statement.applies fits := rfl
  have branch : (nftChains fits (ruleset plan)).branch = Statement.branch := rfl
  simp only [findSome?_cons, findSome?_nil, Chains.say, applies, branch,
    Statement.applies, Statement.branch, fresh, cluster, host, reduceCtorEq, decide_false,
    Bool.or_self, Bool.false_eq_true, if_false, if_true]
  cases behind (text "nic_dispatch") <;> rfl

theorem bounded_of_rules (depth : Nat)
    (only : ∀ stated ∈ chainStatements (ruleset plan) name, ∃ rule nicDev,
      stated = .rule rule nicDev) :
    (nftChains fits (ruleset plan)).bounded (depth + 1) name = true := by
  refine bounded_succ fun stated member chain jumps => ?_
  obtain ⟨rule, nicDev, rfl⟩ := only stated member
  cases jumps

theorem nicStatements_rules :
    ∀ stated ∈ nicStatements plan name, ∃ rule nicDev, stated = .rule rule nicDev := by
  intro stated member
  obtain ⟨nic, -, inside⟩ := mem_flatMap.mp member
  split at inside
  · obtain ⟨rule, -, rfl⟩ := mem_map.mp inside
    exact ⟨rule, _, rfl⟩
  · cases inside

/-- A device whose chain has the name of the dispatching chain makes it jump to itself. -/
theorem not_bounded_dispatch (cyclic : Cyclic plan) (depth : Nat) :
    (nftChains fits (ruleset plan)).bounded depth (text "nic_dispatch") = false := by
  obtain ⟨nic, member, same⟩ := cyclic
  have loop : Statement.dispatch true nic.nicDev ∈
      (nftChains fits (ruleset plan)).rules (text "nic_dispatch") := by
    show _ ∈ chainStatements _ _
    rw [chainStatements_ruleset plan
      (show text "postrouting" ≠ text "nic_dispatch" by decide) (by decide)]
    refine mem_append_left _ (mem_flatMap.mpr ⟨nic, mem_sortedNICs.mpr member, ?_⟩)
    exact mem_cons_self
  have itself : (Statement.dispatch true nic.nicDev).branch =
      some (.jump (text "nic_dispatch")) := by
    simp only [Statement.branch, ChainName.text, same]
    rfl
  exact bounded_of_self_jump loop itself depth

/-- Otherwise every chain it jumps to holds rules only. -/
theorem bounded_dispatch (acyclic : ¬ Cyclic plan) :
    (nftChains fits (ruleset plan)).bounded 15 (text "nic_dispatch") = true := by
  refine bounded_succ fun stated member chain jumps => ?_
  have inside : stated ∈ chainStatements (ruleset plan) (text "nic_dispatch") := member
  rw [chainStatements_ruleset plan
    (show text "postrouting" ≠ text "nic_dispatch" by decide) (by decide)] at inside
  rcases mem_append.mp inside with sends | ruled
  · obtain ⟨nic, listed, either⟩ := mem_flatMap.mp sends
    have target : chain = text "nic_" ++ sanitiseChain nic.nicDev := by
      simp only [mem_cons, not_mem_nil, or_false] at either
      rcases either with rfl | rfl <;> cases jumps <;> rfl
    subst target
    refine bounded_of_rules fits plan 13 ?_
    have other : sanitiseChain nic.nicDev ≠ text "dispatch" :=
      fun same => acyclic ⟨nic, mem_sortedNICs.mp listed, same⟩
    intro stated among
    have ruled : stated ∈ nicStatements plan (text "nic_" ++ sanitiseChain nic.nicDev) := by
      rw [← nic_rules fits plan other]
      exact among
    exact nicStatements_rules plan stated ruled
  · obtain ⟨rule, nicDev, rfl⟩ := nicStatements_rules plan stated ruled
    cases jumps

theorem bounded_forward (noCluster : plan.clusterRules = []) (noHost : plan.hostRules = []) :
    (nftChains fits (ruleset plan)).bounded 16 (text "forward") = true ↔ ¬ Cyclic plan := by
  constructor
  · intro bounded cyclic
    have jump : Statement.jump (text "nic_dispatch") ∈
        (nftChains fits (ruleset plan)).rules (text "forward") := by
      rw [forward_rules]
      simp
    have inside := bounded_of_jump bounded jump rfl
    rw [not_bounded_dispatch fits plan cyclic] at inside
    cases inside
  intro acyclic
  refine bounded_succ fun stated member chain jumps => ?_
  rw [forward_rules] at member
  simp only [mem_cons, not_mem_nil, or_false] at member
  have tiers := tier_rules fits plan noCluster noHost
  have tier (name : Text) (listed : name ∈ [text "cluster_default", text "host_overrides"]) :
      (nftChains fits (ruleset plan)).bounded 15 name = true := by
    refine bounded_of_rules fits plan 14 fun stated inside => ?_
    have none : chainStatements (ruleset plan) name = [] := tiers name listed
    rw [none] at inside
    cases inside
  rcases member with rfl | rfl | rfl | rfl | rfl
  · cases jumps
  · cases jumps
  · cases jumps
    exact tier _ (by decide)
  · cases jumps
    exact tier _ (by decide)
  · cases jumps
    exact bounded_dispatch fits plan acyclic

theorem forwardPolicy_ruleset (deny : plan.defaultDeny = true) :
    forwardPolicy (ruleset plan) = some .drop := by
  have sets : (setBlocks plan.ipSets).findSome? (fun block =>
      match block with
      | .set _ _ => none
      | .chain chain => chain.base.bind fun base =>
        if base.hook = text "forward" then some (if base.deny then Verdict.drop else .accept)
        else none) = none := by
    refine findSome?_eq_none_iff.mpr fun block member => ?_
    obtain ⟨name, -, rfl⟩ := mem_map.mp member
    rfl
  unfold forwardPolicy ruleset
  simp only [append_assoc, findSome?_append, sets, Option.none_or, cons_append,
    findSome?_cons]
  simp [forwardChain, deny]

/-- A new connection is forwarded when the first rule it meets that fits is an accept. -/
theorem forwards_iff (deny : plan.defaultDeny = true) (noCluster : plan.clusterRules = [])
    (noHost : plan.hostRules = []) (fresh : packet.tracking = .new) :
    forwards fits (ruleset plan) packet = true ↔ ¬ Cyclic plan ∧ ∃ rule,
      (metRules plan packet).find? (fits · packet.data) = some rule ∧ rule.verdict = .accept := by
  unfold forwards
  rw [Bool.and_eq_true, bounded_forward fits plan noCluster noHost,
    forwardPolicy_ruleset plan deny]
  refine and_congr_right fun acyclic => ?_
  have said : (sortedNICs plan.nics).findSome? (saidTo fits plan packet) =
      ((metRules plan packet).find? (fits · packet.data)).map Rule.verdict := by
    rw [← bindings_meet, map_findSome?]
    exact findSome?_congr fun nic _ => saidTo_eq fits plan packet nic
  rw [eval_forward fits plan packet noCluster noHost fresh 14,
    eval_dispatch fits plan packet acyclic, chains_say, said]
  cases (metRules plan packet).find? (fits · packet.data) <;> simp

/-- Where the NIC's rules do not accept, shielding is that the first rule met is no accept. -/
theorem shielded_iff (leaves : nic.nicDev = packet.oif)
    (refused : firstVerdict fits packet.data (ingressRules (nic.rules plan.securityGroups)) ≠
      some .accept) :
    Shielded fits plan nic packet ↔ ¬ ∃ rule,
      (metRules plan packet).find? (fits · packet.data) = some rule ∧ rule.verdict = .accept := by
  constructor
  · rintro shielded ⟨rule, found, accepts⟩
    obtain ⟨binding, listed, met⟩ :=
      exists_of_findSome?_eq_some ((bindings_meet fits plan packet).trans found)
    have foreign := foreign_of_firstMet fits plan packet leaves refused
      (mem_sortedNICs.mp listed) met accepts
    obtain ⟨fit, before, after, split, silent⟩ := find?_eq_some_iff_append.mp found
    obtain ⟨earlier, among, earlierFits, -⟩ := shielded before rule after split foreign fit accepts
    have unfit := silent earlier among
    rw [earlierFits] at unfit
    cases unfit
  · intro noAccept before rule after split foreign fit accepts
    by_contra noDrop
    refine noAccept ?_
    rw [split, find?_append]
    cases first : before.find? (fits · packet.data) with
    | some earlier =>
      refine ⟨earlier, rfl, ?_⟩
      have earlierFits : fits earlier packet.data = true := by simpa using find?_some first
      cases decided : earlier.verdict with
      | accept => rfl
      | drop => exact absurd ⟨earlier, mem_of_find?_eq_some first, earlierFits, decided⟩ noDrop
    | none => exact ⟨rule, by simp [fit], accepts⟩

/-- A packet of a new connection to a NIC is accepted only if the NIC's first ingress rule that
fits it is an accept, exactly when, where it is not, the ruleset does not load or every accept of
others that fits comes behind a drop that fits. -/
theorem reaches_through_own_rules_iff (deny : plan.defaultDeny = true)
    (noCluster : plan.clusterRules = []) (noHost : plan.hostRules = []) (nic : NICBinding)
    (leaves : nic.nicDev = packet.oif) (fresh : packet.tracking = .new) :
    (forwards fits (ruleset plan) packet = true →
        firstVerdict fits packet.data (ingressRules (nic.rules plan.securityGroups)) =
          some .accept) ↔
      (firstVerdict fits packet.data (ingressRules (nic.rules plan.securityGroups)) ≠
          some .accept →
        Cyclic plan ∨ Shielded fits plan nic packet) := by
  rw [← not_imp_not]
  refine imp_congr_right fun refused => ?_
  rw [forwards_iff fits plan packet deny noCluster noHost fresh,
    shielded_iff fits plan packet leaves refused, not_and_or, not_not]

end Said

/-! ## Two NICs of one host -/

def anyRule (direction action : Text) : Rule := ⟨direction, [], [], [], action, []⟩

def openNIC (name : String) : NICBinding := ⟨text name, [], [anyRule egress accept]⟩

def closedNIC (name : String) : NICBinding := ⟨text name, [], [anyRule ingress drop]⟩

def twoNICs (sender receiver : String) : Plan where
  defaultDeny := true
  clusterRules := []
  hostRules := []
  securityGroups := []
  ipSets := []
  nics := [openNIC sender, closedNIC receiver]
  nat := []
  hostIsolation := []

def firstPacket (iif oif : Text) (iif_ne : iif ≠ []) (oif_ne : oif ≠ []) : Packet Unit :=
  ⟨iif, oif, iif_ne, oif_ne, .new, ()⟩

attribute [local instance] stableSort

theorem drop_ahead_of_sender :
    Shielded (fun _ (_ : Unit) => true) (twoNICs "tap-b" "tap-a") (closedNIC "tap-a")
      (firstPacket (text "tap-b") (text "tap-a") (by decide) (by decide)) := by
  intro before rule after split _ _ accepts
  have met : metRules (twoNICs "tap-b" "tap-a")
      (firstPacket (text "tap-b") (text "tap-a") (by decide) (by decide)) =
      [anyRule ingress drop, anyRule egress accept] := by decide +kernel
  rw [met] at split
  cases before with
  | nil =>
    obtain rfl := (cons.inj split).1
    exact absurd accepts (by decide)
  | cons earlier before =>
    obtain rfl := (cons.inj split).1
    exact ⟨_, mem_cons_self, rfl, by decide⟩

/-- The receiver's device comes first in the dispatch chain, and its drop holds. -/
theorem drop_holds_before_sender :
    closedNIC "tap-a" ∈ (twoNICs "tap-b" "tap-a").nics ∧
      (@forwards Unit (fun _ _ => true) (ruleset (twoNICs "tap-b" "tap-a"))
          (firstPacket (text "tap-b") (text "tap-a") (by decide) (by decide)) = true →
        firstVerdict (fun _ (_ : Unit) => true) ()
          (ingressRules ((closedNIC "tap-a").rules [])) = some .accept) :=
  ⟨by decide, (reaches_through_own_rules_iff _ _ _ rfl rfl rfl (closedNIC "tap-a") rfl rfl).mpr
    fun _ => .inr drop_ahead_of_sender⟩

/-- The sender's device comes first: its egress rule accepts what the receiver drops. -/
theorem egress_overrules_ingress :
    closedNIC "tap-b" ∈ (twoNICs "tap-a" "tap-b").nics ∧
      @forwards Unit (fun _ _ => true) (ruleset (twoNICs "tap-a" "tap-b"))
        (firstPacket (text "tap-a") (text "tap-b") (by decide) (by decide)) = true ∧
      firstVerdict (fun _ (_ : Unit) => true) ()
        (ingressRules ((closedNIC "tap-b").rules [])) = some .drop := by
  decide +kernel

end Litevirt.Firewall

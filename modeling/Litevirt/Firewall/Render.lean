import Litevirt.Firewall.Sets

/-!
# The rendered ruleset

`Render` writes the plan as the text that `nft -f -` loads: one table with the address sets, the
forward chain, a chain for each tier, the dispatch chain, a chain for each bound NIC, and the
chains of NAT and host isolation.
-/

namespace Litevirt.Firewall

variable [GoRunes] [GoSort]

/-- A word of the text: one the renderer writes itself, or one that the plan carries. -/
inductive Fragment where
  | own (word : Text)
  | given (value : Text)

def Fragment.text : Fragment → Text
  | own word => word
  | given value => value

def deviceParts (rule : Rule) (nicDev : Text) : List Fragment :=
  if nicDev ≠ [] then
    [.own (if rule.direction = egress then text "iifname" else text "oifname"), .given nicDev]
  else []

def protoParts (rule : Rule) : List Fragment :=
  if toLower rule.proto = text "tcp" ∨ toLower rule.proto = text "udp" then
    .own (toLower rule.proto) ::
      if rule.portRange ≠ [] then [.own (text "dport"), .given rule.portRange] else []
  else if toLower rule.proto = text "icmp" then
    [.own (text "ip"), .own (text "protocol"), .own (text "icmp")]
  else if toLower rule.proto = [] ∨ toLower rule.proto = text "all" then []
  else [.own (text "ip"), .own (text "protocol"), .given (toLower rule.proto)]

def addrParts (rule : Rule) : List Fragment :=
  if rule.cidr ≠ [] then
    [.own (text "ip"), .own (if rule.direction = egress then text "daddr" else text "saddr"),
      .given rule.cidr]
  else []

/-- The words of a rule before its comment. -/
def ruleParts (rule : Rule) (nicDev : Text) : List Fragment :=
  deviceParts rule nicDev ++ protoParts rule ++ addrParts rule ++
    [if rule.action = [] then .own accept else .given rule.action]

def renderRule (rule : Rule) (nicDev : Text) : Text :=
  join ((ruleParts rule nicDev).map Fragment.text) (text " ") ++
    if rule.comment ≠ [] then text " comment " ++ quote rule.comment else []

/-- Dashes and dots of a device name become underscores. -/
def sanitiseChain (nicDev : Text) : Text :=
  nicDev.map fun rune => if rune = '-' ∨ rune = '.' then '_' else rune

def setNames (sets : List IPSet) : List Text :=
  sets.foldl (fun names set => if set.name ∈ names then names else names ++ [set.name]) []

def setElements (sets : List IPSet) (name : Text) : List Text :=
  (sets.filter (·.name = name)).flatMap (·.cidrs)

def renderIPSets (sets : List IPSet) : Text :=
  (sortStrings (setNames sets)).flatMap fun name =>
    text "    set " ++ name ++ text " \x7b\n" ++
    text "        type ipv4_addr\n" ++
    text "        flags interval\n" ++
    (if collapseSetElements (setElements sets name) ≠ [] then
      text "        elements = \x7b " ++
        join (collapseSetElements (setElements sets name)) (text ", ") ++ text " \x7d\n"
    else []) ++
    text "    \x7d\n\n"

def renderTierChain (name : Text) (rules : List Rule) : Text :=
  text "    chain " ++ name ++ text " \x7b\n" ++
  (rules.flatMap fun rule => text "        " ++ renderRule rule [] ++ text "\n") ++
  text "    \x7d\n\n"

/-- The last group of a name, as the map that `Render` builds holds it. -/
def sgByName (groups : List SecurityGroup) (name : Text) : Option SecurityGroup :=
  (groups.filter (·.name = name)).getLast?

def sortedNICs (nics : List NICBinding) : List NICBinding :=
  GoSort.sortSlice (fun a b => a.nicDev < b.nicDev) nics

def renderGroup (groups : List SecurityGroup) (nicDev name : Text) : Text :=
  match sgByName groups name with
  | none => []
  | some group =>
    if group.name = [] then []
    else
      text "        # security group " ++ quote group.name ++ text "\n" ++
      group.rules.flatMap fun rule => text "        " ++ renderRule rule nicDev ++ text "\n"

def renderNIC (groups : List SecurityGroup) (nic : NICBinding) : Text :=
  text "    chain nic_" ++ sanitiseChain nic.nicDev ++ text " \x7b\n" ++
  nic.securityGroups.flatMap (renderGroup groups nic.nicDev) ++
  (nic.extraRules.flatMap fun rule =>
    text "        " ++ renderRule rule nic.nicDev ++ text "\n") ++
  text "    \x7d\n\n"

def renderNICDispatch (nics : List NICBinding) (groups : List SecurityGroup) : Text :=
  text "    chain nic_dispatch \x7b\n" ++
  ((sortedNICs nics).flatMap fun nic =>
    text "        iifname " ++ nic.nicDev ++ text " jump nic_" ++ sanitiseChain nic.nicDev ++
      text "\n" ++
    text "        oifname " ++ nic.nicDev ++ text " jump nic_" ++ sanitiseChain nic.nicDev ++
      text "\n") ++
  text "    \x7d\n\n" ++
  (sortedNICs nics).flatMap (renderNIC groups)

def snatLess (a b : NATRule) : Bool :=
  if a.outIface ≠ b.outIface then a.outIface < b.outIface
  else if a.subnet ≠ b.subnet then a.subnet < b.subnet
  else a.snatTo < b.snatTo

def masqLess (a b : NATRule) : Bool :=
  if a.subnet ≠ b.subnet then a.subnet < b.subnet else a.bridge < b.bridge

def sortedSNAT (rules : List NATRule) : List NATRule :=
  GoSort.sortSlice snatLess (rules.filter (·.snatTo ≠ []))

def sortedMasq (rules : List NATRule) : List NATRule :=
  GoSort.sortSlice masqLess (rules.filter (·.snatTo = []))

def renderNAT (rules : List NATRule) : Text :=
  if rules = [] then []
  else
    text "    chain postrouting \x7b\n" ++
    text "        type nat hook postrouting priority srcnat; policy accept;\n" ++
    ((sortedSNAT rules).flatMap fun rule =>
      text "        oifname " ++ rule.outIface ++ text " ip saddr " ++ rule.subnet ++
        text " snat to " ++ rule.snatTo ++ text "\n") ++
    ((sortedMasq rules).flatMap fun rule =>
      text "        ip saddr " ++ rule.subnet ++ text " oifname != " ++ rule.bridge ++
        text " masquerade\n") ++
    text "    \x7d\n\n"

def sortedIsolation (chains : List IsolationChain) : List IsolationChain :=
  GoSort.sortSlice (fun a b => a.bridge < b.bridge) chains

def renderIsolation (chain : IsolationChain) : Text :=
  (if chain.exceptions ≠ [] then
    text "        iifname " ++ chain.bridge ++ text " ip protocol 112 accept\n" ++
    chain.exceptions.flatMap fun exception => exception.ports.flatMap fun port =>
      text "        iifname " ++ chain.bridge ++ text " ip daddr " ++ exception.vip ++
        text " tcp dport " ++ decimal port ++ text " accept\n"
  else []) ++
  text "        iifname " ++ chain.bridge ++ text " drop\n"

def renderHostIsolation (chains : List IsolationChain) : Text :=
  if chains = [] then []
  else
    text "    chain input \x7b\n" ++
    text "        type filter hook input priority filter; policy accept;\n" ++
    (sortedIsolation chains).flatMap renderIsolation ++
    text "    \x7d\n\n"

def renderForward (defaultDeny : Bool) : Text :=
  text "    chain forward \x7b\n" ++
  text "        type filter hook forward priority filter; policy " ++
    (if defaultDeny then drop else accept) ++ text ";\n" ++
  text "        ct state established,related accept\n" ++
  text "        ct state invalid drop\n" ++
  text "        jump cluster_default\n" ++
  text "        jump host_overrides\n" ++
  text "        jump nic_dispatch\n" ++
  text "    \x7d\n\n"

def renderTable (plan : Plan) : Text :=
  text "# Generated by litevirt firewall renderer — do not edit by hand.\n" ++
  text "# `nft -f -` consumes this file as an atomic ruleset replace.\n\n" ++
  text "table inet litevirt-fw \x7b\n" ++
  renderIPSets plan.ipSets ++
  renderForward plan.defaultDeny ++
  renderTierChain (text "cluster_default") plan.clusterRules ++
  renderTierChain (text "host_overrides") plan.hostRules ++
  renderNICDispatch plan.nics plan.securityGroups ++
  renderNAT plan.nat ++
  renderHostIsolation plan.hostIsolation ++
  text "\x7d\n"

def checkGroups (plan : Plan) : Except Text Unit :=
  plan.nics.forM fun nic => nic.securityGroups.forM fun name =>
    if (sgByName plan.securityGroups name).isSome then pure ()
    else throw (text "NIC " ++ quote nic.nicDev ++ text " references unknown security group " ++
      quote name)

def render (plan : Plan) : Except Text Text := do
  validate plan
  checkGroups plan
  return renderTable plan

end Litevirt.Firewall

import Litevirt.Lib.Outcome

/-!
# The plan of a host's firewall

`internal/firewall/firewall.go`: the plan that the renderer turns into one nftables table, what
`validate` asks of it, and the Go library functions that both use.
-/

namespace Litevirt.Firewall

open Litevirt.Lib

abbrev Text := List Char

scoped instance : LawfulBEq Text := inferInstance

def text (literal : String) : Text := literal.toList

/-- `unicode.ToLower` and `strconv.IsPrint`; outside ASCII they follow the Unicode tables. -/
class GoRunes where
  lower : Char → Char
  printable : Char → Bool
  printable_ascii : ∀ rune : Char, rune.toNat < 128 →
    printable rune = decide (32 ≤ rune.toNat ∧ rune.toNat ≤ 126)

/-- `sort.Slice`, which is not stable: some permutation in which nothing is out of order. -/
class GoSort where
  sortSlice : {α : Type} → (α → α → Bool) → List α → List α
  perm : ∀ {α : Type} (less : α → α → Bool) (list : List α), (sortSlice less list).Perm list
  sorted : ∀ {α : Type} (less : α → α → Bool) (list : List α),
    (∀ a b, less a b = true → less b a = false) →
      (∀ a b c, less b a = false → less c b = false → less c a = false) →
        (sortSlice less list).Pairwise fun a b => less b a = false

@[reducible] def asciiRunes : GoRunes where
  lower := Char.toLower
  printable rune := 32 ≤ rune.toNat ∧ rune.toNat ≤ 126
  printable_ascii _ _ := rfl

@[reducible] def stableSort : GoSort where
  sortSlice less list := list.insertionSort fun a b => less b a = false
  perm _ list := List.perm_insertionSort _ list
  sorted {α} less list asymm trans :=
    have : Std.Total fun a b : α => less b a = false :=
      ⟨fun a b => (Bool.eq_false_or_eq_true (less b a)).symm.imp_right (asymm b a)⟩
    have : IsTrans α fun a b => less b a = false := ⟨trans⟩
    List.pairwise_insertionSort _ list

section Strings

variable [GoRunes]

def toLower (value : Text) : Text := value.map GoRunes.lower

def hex (width n : Nat) : Text :=
  ((List.range width).reverse).map fun place => Nat.digitChar (n / 16 ^ place % 16)

def escapeRune (rune : Char) : Text :=
  if rune = '\x07' then text "\\a"
  else if rune = '\x08' then text "\\b"
  else if rune = '\x0c' then text "\\f"
  else if rune = '\n' then text "\\n"
  else if rune = '\r' then text "\\r"
  else if rune = '\t' then text "\\t"
  else if rune = '\x0b' then text "\\v"
  else if rune.toNat < 0x20 ∨ rune.toNat = 0x7f then text "\\x" ++ hex 2 rune.toNat
  else if rune.toNat < 0x10000 then text "\\u" ++ hex 4 rune.toNat
  else text "\\U" ++ hex 8 rune.toNat

/-- One rune in `strconv.Quote`. -/
def quoteRune (rune : Char) : Text :=
  if rune = '\"' ∨ rune = '\\' then ['\\', rune]
  else if GoRunes.printable rune then [rune]
  else escapeRune rune

/-- The `%q` verb. -/
def quote (value : Text) : Text := '\"' :: value.flatMap quoteRune ++ ['\"']

end Strings

/-- The `%d` verb. -/
def decimal (n : Int) : Text := (toString n).toList

def join (parts : List Text) (separator : Text) : Text := (parts.intersperse separator).flatten

def ingress : Text := text "ingress"
def egress : Text := text "egress"
def accept : Text := text "accept"
def drop : Text := text "drop"
def reject : Text := text "reject"

structure Rule where
  direction : Text
  proto : Text
  portRange : Text
  cidr : Text
  action : Text
  comment : Text
  deriving DecidableEq

structure SecurityGroup where
  name : Text
  rules : List Rule
  deriving DecidableEq

structure IPSet where
  name : Text
  cidrs : List Text
  deriving DecidableEq

structure NATRule where
  subnet : Text
  bridge : Text
  outIface : Text
  snatTo : Text
  deriving DecidableEq

structure IsolationException where
  vip : Text
  ports : List Int
  deriving DecidableEq

structure IsolationChain where
  bridge : Text
  exceptions : List IsolationException
  deriving DecidableEq

structure NICBinding where
  nicDev : Text
  securityGroups : List Text
  extraRules : List Rule
  deriving DecidableEq

structure Plan where
  defaultDeny : Bool
  clusterRules : List Rule
  hostRules : List Rule
  securityGroups : List SecurityGroup
  ipSets : List IPSet
  nics : List NICBinding
  nat : List NATRule
  hostIsolation : List IsolationChain
  deriving DecidableEq

def allRules (plan : Plan) : List Rule :=
  plan.clusterRules ++ plan.hostRules ++ plan.securityGroups.flatMap (·.rules) ++
    plan.nics.flatMap (·.extraRules)

section Validate

variable [GoRunes]

def validateIPSet (ipset : IPSet) : Except Text Unit := do
  if ipset.name = [] then throw (text "ipset with empty name")
  ipset.cidrs.forM fun cidr =>
    if ':' ∈ cidr then
      throw (text "ipset " ++ quote ipset.name ++ text ": IPv6 element " ++ quote cidr ++
        text " not supported yet (sets render as ipv4_addr)")
    else pure ()

def validateRule (ipsets : List Text) (rule : Rule) (i : Nat) : Except Text Unit := do
  let place := text "rule " ++ decimal i ++ text ": "
  if rule.direction ≠ ingress ∧ rule.direction ≠ egress then
    throw (place ++ text "direction " ++ quote rule.direction ++
      text " must be ingress or egress")
  if rule.action ≠ [] ∧ rule.action ≠ accept ∧ rule.action ≠ drop ∧ rule.action ≠ reject then
    throw (place ++ text "action " ++ quote rule.action ++
      text " not supported (accept|drop|reject)")
  if rule.cidr ≠ [] ∧ rule.cidr.head? ≠ some '@' ∧ ':' ∈ rule.cidr then
    throw (place ++ text "IPv6 CIDR " ++ quote rule.cidr ++
      text " is not supported by security-group rules yet (IPv4-only renderer)")
  if rule.cidr.head? = some '@' ∧ (rule.cidr.tail = [] ∨ rule.cidr.tail ∉ ipsets) then
    throw (place ++ text "unknown ipset reference " ++ quote rule.cidr)

def validateNAT (rule : NATRule) (i : Nat) : Except Text Unit := do
  let place := text "nat rule " ++ decimal i ++ text ": "
  if rule.subnet = [] ∨ ':' ∈ rule.subnet then
    throw (place ++ text "subnet " ++ quote rule.subnet ++ text " must be a non-empty IPv4 CIDR")
  if rule.snatTo ≠ [] then
    if rule.outIface = [] ∨ ':' ∈ rule.snatTo then
      throw (place ++ text "SNAT needs an out-iface and an IPv4 target (got iface=" ++
        quote rule.outIface ++ text " to=" ++ quote rule.snatTo ++ text ")")
  else if rule.bridge = [] then throw (place ++ text "masquerade needs a bridge")

def validateIsolation (chain : IsolationChain) (i : Nat) : Except Text Unit := do
  if chain.bridge = [] then
    throw (text "isolation chain " ++ decimal i ++ text ": empty bridge")
  chain.exceptions.forM fun exception =>
    if exception.vip = [] ∨ ':' ∈ exception.vip then
      throw (text "isolation chain " ++ quote chain.bridge ++ text ": exception VIP " ++
        quote exception.vip ++ text " must be a non-empty IPv4 address")
    else pure ()

def validate (plan : Plan) : Except Text Unit := do
  plan.ipSets.forM validateIPSet
  (allRules plan).zipIdx.forM fun indexed =>
    validateRule (plan.ipSets.map (·.name)) indexed.1 indexed.2
  plan.securityGroups.forM fun group =>
    if group.name = [] then throw (text "security group with empty name") else pure ()
  plan.nat.zipIdx.forM fun indexed => validateNAT indexed.1 indexed.2
  plan.hostIsolation.zipIdx.forM fun indexed => validateIsolation indexed.1 indexed.2

end Validate

end Litevirt.Firewall

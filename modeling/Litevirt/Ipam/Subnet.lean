import Mathlib

/-!
# The next free address of a subnet

`nextFreeIP` walks through the host addresses of a subnet in order and returns the first one
that no lease holds.  Addresses are fixed-width numbers and the walk adds one at a time, so it
wraps at the end of the address space.
-/

namespace Litevirt.Ipam

open List BitVec

abbrev Text := List Char

/-- An address in one of the two lengths of `net.IP`. -/
inductive IP where
  | v4 (addr : BitVec 32)
  | v16 (addr : BitVec 128)
  deriving DecidableEq

/-- `To4` of an address of sixteen bytes: the last four bytes behind the mapping prefix. -/
def to4 (addr : BitVec 128) : Option (BitVec 32) :=
  if addr >>> 32 = 0xffff#128 then some (addr.setWidth 32) else none

/-- `To16` of an address of four bytes. -/
def to16 (addr : BitVec 32) : BitVec 128 := 0xffff#96 ++ addr

/-- An address with the number of leading one bits of its mask. -/
structure Block (w : Nat) where
  addr : BitVec w
  len : Nat
  fits : len ≤ w
  deriving DecidableEq

namespace Block

variable {w : Nat} (block : Block w)

/-- `net.CIDRMask`. -/
def mask : BitVec w := BitVec.allOnes w <<< (w - block.len)

/-- `IP.Mask`. -/
def network : BitVec w := block.addr &&& block.mask

/-- The address behind the network's own is the gateway. -/
def gateway : BitVec w := block.network + 1#w

def broadcast : BitVec w := block.network ||| ~~~block.mask

/-- `ipNetContains`. -/
def contains (addr : BitVec w) : Bool := addr &&& block.mask = block.network &&& block.mask

def size : Nat := 2 ^ (w - block.len)

theorem size_pos : 0 < block.size := Nat.two_pow_pos _

theorem mask_getLsbD (i : Nat) :
    block.mask.getLsbD i = (decide (i < w) && decide (w - block.len ≤ i)) := by
  unfold mask
  rw [getLsbD_shiftLeft]
  by_cases inside : i < w
  · by_cases high : w - block.len ≤ i
    · simp [inside, high]
      omega
    · simp [inside, high]
  · simp [inside]

theorem and_mask (addr : BitVec w) :
    (addr &&& block.mask).toNat = addr.toNat / block.size * block.size := by
  have shifted : addr &&& block.mask = (addr >>> (w - block.len)) <<< (w - block.len) := by
    refine eq_of_getLsbD_eq fun i inside => ?_
    rw [getLsbD_and, mask_getLsbD, getLsbD_shiftLeft]
    by_cases high : w - block.len ≤ i
    · have back : w - block.len + (i - (w - block.len)) = i := by omega
      simp [inside, high, back]
    · simp [inside, high]
  have bounded : addr.toNat / block.size * block.size < 2 ^ w :=
    (Nat.div_mul_le_self _ _).trans_lt addr.isLt
  rw [shifted, toNat_shiftLeft, toNat_ushiftRight, Nat.shiftRight_eq_div_pow,
    Nat.shiftLeft_eq]
  exact Nat.mod_eq_of_lt bounded

theorem network_toNat : block.network.toNat = block.addr.toNat / block.size * block.size :=
  block.and_mask block.addr

theorem network_div : block.network.toNat / block.size = block.addr.toNat / block.size := by
  rw [network_toNat, Nat.mul_div_cancel _ block.size_pos]

/-- An address is inside exactly when it differs from the network below the mask only. -/
theorem contains_iff {addr : BitVec w} :
    block.contains addr = true ↔
      addr.toNat / block.size = block.network.toNat / block.size := by
  unfold contains
  rw [decide_eq_true_iff, ← toNat_inj, and_mask, and_mask]
  constructor
  · intro equal
    exact Nat.eq_of_mul_eq_mul_right block.size_pos equal
  · intro equal
    rw [equal]

theorem broadcast_toNat : block.broadcast.toNat + 1 = block.network.toNat + block.size := by
  have low : (~~~block.mask).toNat = block.size - 1 := by
    refine Nat.eq_of_testBit_eq fun i => ?_
    rw [size, ← BitVec.getLsbD, getLsbD_not, mask_getLsbD]
    by_cases inside : i < w <;> by_cases high : w - block.len ≤ i <;> simp [*] <;> omega
  have below : block.size - 1 < 2 ^ (w - block.len) := Nat.sub_lt block.size_pos Nat.one_pos
  have joined := Nat.two_pow_add_eq_or_of_lt below (block.addr.toNat / block.size)
  unfold broadcast
  rw [toNat_or, low, network_toNat, mul_comm]
  unfold size at *
  omega

end Block

inductive Subnet where
  | v4 (block : Block 32)
  | v6 (block : Block 128)
  deriving DecidableEq

/-- What the network package of the standard library does with texts.  The text of an address has
no blank around it and no slash in it, and reads back as the same address. -/
class GoNet where
  parseCIDR : Text → Except Text (IP × Subnet)
  parseIP : Text → Option IP
  str : IP → Text
  trimSpace : Text → Text
  trimSpace_str : ∀ ip, trimSpace (str ip) = str ip
  slash_not_mem_str : ∀ ip, '/' ∉ str ip
  parseIP_str : ∀ ip, ∃ read, parseIP (str ip) = some read ∧ str read = str ip

open GoNet

section Search

variable [GoNet]

def parseHostOrCIDR (value : Text) : Option IP :=
  if '/' ∈ value then (parseCIDR value).toOption.map Prod.fst else parseIP value

/-- The key an address is leased under; a text that is no address is only trimmed. -/
def leaseAddr (ip : Text) : Text :=
  match parseHostOrCIDR (trimSpace ip) with
  | some addr => str addr
  | none => trimSpace ip

theorem leaseAddr_str (ip : IP) : leaseAddr (str ip) = str ip := by
  obtain ⟨read, parsed, same⟩ := parseIP_str ip
  unfold leaseAddr parseHostOrCIDR
  rw [trimSpace_str, if_neg (slash_not_mem_str ip), parsed]
  exact same

inductive Refusal where
  | invalidSubnet (subnet reason : Text)
  | exhausted4
  | exhausted6 (scanned : Nat)
  | retries
  deriving DecidableEq

/-- The first candidate that is not taken, as long as candidates are within the bound. -/
def firstFree {w : Nat} (within taken : BitVec w → Bool) : Nat → BitVec w → Option (BitVec w)
  | 0, _ => none
  | fuel + 1, candidate =>
    if within candidate then
      if taken candidate then firstFree within taken fuel (candidate + 1#w) else some candidate
    else none

def nextFreeIPv4 (base mask : BitVec 32) (used : Text → Bool) : Except Refusal Text :=
  let broadcast := base ||| ~~~mask
  -- The loop ends at the broadcast address, so that no more rounds than addresses are made.
  match firstFree (· < broadcast) (fun i => used (str (.v4 i))) (2 ^ 32) (base + 2#32) with
  | some i => .ok (str (.v4 i))
  | none => .error .exhausted4

def maxV6ScanHosts : Nat := 2 ^ 16

def nextFreeIPv6 (block : Block 128) (used : Text → Bool) : Except Refusal Text :=
  match firstFree block.contains (fun i => used (str (.v16 i))) maxV6ScanHosts
      (block.network + 1#128 + 1#128) with
  | some i => .ok (str (.v16 i))
  | none => .error (.exhausted6 maxV6ScanHosts)

def nextFreeIP (subnet : Text) (used : List Text) : Except Refusal Text :=
  let usedSet candidate := used.any fun ip => leaseAddr ip = candidate
  match parseCIDR subnet with
  | .error reason => .error (.invalidSubnet subnet reason)
  | .ok (_, .v4 block) => nextFreeIPv4 block.network block.mask usedSet
  | .ok (_, .v6 block) =>
    match to4 block.network with
    -- A mapped network is searched as one of four bytes, under the first four of its mask.
    | some base => nextFreeIPv4 base ((block.mask >>> 96).setWidth 32) usedSet
    | none => nextFreeIPv6 block usedSet

end Search

theorem firstFree_eq_some {w : Nat} {within taken : BitVec w → Bool} {fuel : Nat}
    {start found : BitVec w} (searched : firstFree within taken fuel start = some found) :
    within found = true ∧ taken found = false ∧
      ∃ passed < fuel, found = start + BitVec.ofNat w passed := by
  induction fuel generalizing start with
  | zero => cases searched
  | succ fuel ih =>
    unfold firstFree at searched
    split_ifs at searched with inside busy
    · obtain ⟨bounded, free, passed, fewer, reached⟩ := ih searched
      refine ⟨bounded, free, passed + 1, by omega, ?_⟩
      rw [reached, add_assoc, ofNat_add, add_comm 1#w]
    · cases searched
      exact ⟨inside, by simpa using busy, 0, by omega, by simp⟩

theorem le_firstFree {w : Nat} {taken : BitVec w → Bool} {fuel : Nat} {start found top : BitVec w}
    (searched : firstFree (· < top) taken fuel start = some found) :
    start.toNat ≤ found.toNat := by
  induction fuel generalizing start with
  | zero => cases searched
  | succ fuel ih =>
    unfold firstFree at searched
    split_ifs at searched with inside busy
    · have below : start.toNat < top.toNat := lt_def.mp (of_decide_eq_true inside)
      have stepped : (start + 1#w).toNat = start.toNat + 1 := by
        rw [toNat_add, toNat_ofNat, Nat.add_mod_mod, Nat.mod_eq_of_lt (by omega)]
      have later := ih searched
      omega
    · cases searched
      exact le_rfl

/-- The address is a host's: inside the subnet, and neither the network, the gateway nor, in the
older family, the broadcast address. -/
def Subnet.usable : Subnet → IP → Bool
  | .v4 block, .v4 addr =>
    block.contains addr && addr ≠ block.network && addr ≠ block.gateway &&
      addr ≠ block.broadcast
  | .v6 block, .v16 addr => block.contains addr && addr ≠ block.network && addr ≠ block.gateway
  | .v6 block, .v4 addr =>
    block.contains (to16 addr) && to16 addr ≠ block.network && to16 addr ≠ block.gateway &&
      to16 addr ≠ block.broadcast
  | .v4 _, .v16 _ => false

/-- The second address behind the network's is not an address of four bytes any more. -/
def Subnet.wraps : Subnet → Bool
  | .v4 block => 2 ^ 32 ≤ block.network.toNat + 2
  | .v6 block => (to4 block.network).any fun base => 2 ^ 32 ≤ base.toNat + 2

variable {base : BitVec 32}

theorem Block.mapped_mask {block : Block 128} (mapped : to4 block.network = some base) :
    (block.mask >>> 96).setWidth 32 = BitVec.allOnes 32 := by
  have marker : block.network >>> 32 = 0xffff#128 := (Option.ite_none_right_eq_some.mp mapped).1
  have bit : (block.network >>> 32).getLsbD 0 = true := by
    rw [marker]
    decide
  have long : 128 - block.len ≤ 32 := by
    rw [getLsbD_ushiftRight, Block.network, getLsbD_and, block.mask_getLsbD] at bit
    simp only [Bool.and_eq_true, decide_eq_true_eq] at bit
    exact bit.2.2
  refine eq_of_getLsbD_eq fun i inside => ?_
  rw [getLsbD_setWidth, getLsbD_ushiftRight, block.mask_getLsbD,
    getLsbD_allOnes]
  simp only [inside, decide_true, Bool.true_and, Bool.and_eq_true, decide_eq_true_eq]
  omega

/-- Between the second address behind the network and the broadcast address are hosts only. -/
theorem Block.usable_of_between {block : Block 32} {addr : BitVec 32}
    (starts : ¬ 2 ^ 32 ≤ block.network.toNat + 2)
    (above : (block.network + 2#32).toNat ≤ addr.toNat)
    (below : addr < block.network ||| ~~~block.mask) :
    Subnet.usable (.v4 block) (.v4 addr) = true := by
  have first : (block.network + 2#32).toNat = block.network.toNat + 2 := by
    rw [toNat_add, toNat_ofNat]
    omega
  have second : block.gateway.toNat = block.network.toNat + 1 := by
    rw [Block.gateway, toNat_add, toNat_ofNat]
    omega
  have last := block.broadcast_toNat
  have bounded : addr.toNat < block.broadcast.toNat := lt_def.mp below
  have inside : block.contains addr = true := by
    rw [block.contains_iff, block.network_div]
    refine Nat.div_eq_of_lt_le ?_ ?_
    · rw [← block.network_toNat]
      omega
    · rw [Nat.succ_mul, ← block.network_toNat]
      omega
  have network : addr ≠ block.network := fun same => by
    rw [same] at above
    omega
  have gateway : addr ≠ block.gateway := fun same => by
    rw [same] at above
    omega
  have broadcast : addr ≠ block.broadcast := fun same => by
    rw [same] at bounded
    omega
  simp [Subnet.usable, inside, network, gateway, broadcast]

section Range

variable [GoNet] {ip : Text}

/-- What the older search returns lies between its first candidate and the broadcast address. -/
theorem nextFreeIPv4_eq_ok {base mask : BitVec 32} {used : Text → Bool}
    (found : nextFreeIPv4 base mask used = .ok ip) :
    ∃ addr, ip = str (.v4 addr) ∧ used ip = false ∧
      (base + 2#32).toNat ≤ addr.toNat ∧ addr < base ||| ~~~mask := by
  simp only [nextFreeIPv4] at found
  split at found
  · rename_i addr searched
    cases found
    obtain ⟨below, free, -⟩ := firstFree_eq_some searched
    exact ⟨addr, rfl, free, le_firstFree searched, of_decide_eq_true below⟩
  · cases found

theorem nextFreeIPv6_eq_ok {block : Block 128} {used : Text → Bool}
    (found : nextFreeIPv6 block used = .ok ip) :
    ∃ addr, ip = str (.v16 addr) ∧ used ip = false ∧ Subnet.usable (.v6 block) (.v16 addr) := by
  unfold nextFreeIPv6 at found
  split at found
  · rename_i addr searched
    cases found
    obtain ⟨inside, free, passed, fewer, reached⟩ := firstFree_eq_some searched
    -- The scan is far too short to come around to the network again.
    have distance (n : Nat) (small : n < 2) :
        BitVec.ofNat 128 (2 + passed) ≠ BitVec.ofNat 128 n := by
      have cap : passed < 2 ^ 16 := fewer
      intro same
      have equal := congrArg BitVec.toNat same
      rw [toNat_ofNat, toNat_ofNat] at equal
      omega
    have offset : addr = block.network + BitVec.ofNat 128 (2 + passed) := by
      rw [reached, ofNat_add, add_assoc, add_assoc, ← add_assoc 1#128]
      rfl
    have network : addr ≠ block.network := by
      intro same
      rw [offset, BitVec.add_right_eq_self] at same
      exact distance 0 (by omega) same
    have gateway : addr ≠ block.gateway := by
      intro same
      rw [offset, Block.gateway, add_right_inj] at same
      exact distance 1 (by omega) same
    refine ⟨addr, rfl, free, ?_⟩
    simp [Subnet.usable, inside, network, gateway]
  · cases found

/-- A search that starts at an address of four bytes returns a host's address no lease holds. -/
theorem nextFreeIP_eq_ok {subnet : Text} {used : List Text}
    (found : nextFreeIP subnet used = .ok ip) :
    (∃ addr, ip = str addr) ∧ (∀ held ∈ used, leaseAddr held ≠ ip) ∧
      ∃ host net, parseCIDR subnet = .ok (host, net) ∧
        (net.wraps = false → ∃ addr, ip = str addr ∧ net.usable addr = true) := by
  have unused {set : List Text} {key : Text}
      (free : (set.any fun held => decide (leaseAddr held = key)) = false) :
      ∀ held ∈ set, leaseAddr held ≠ key := by
    simpa using free
  simp only [nextFreeIP] at found
  split at found
  · cases found
  · rename_i host block parsed
    obtain ⟨addr, printed, free, above, below⟩ := nextFreeIPv4_eq_ok found
    refine ⟨⟨_, printed⟩, unused free, host, .v4 block, parsed, fun starts => ⟨_, printed, ?_⟩⟩
    exact block.usable_of_between (of_decide_eq_false starts) above below
  rename_i host block parsed
  split at found
  · rename_i base mapped
    obtain ⟨addr, printed, free, above, below⟩ := nextFreeIPv4_eq_ok found
    refine ⟨⟨_, printed⟩, unused free, host, .v6 block, parsed, fun starts => ?_⟩
    -- The mask leaves a mapped network no host, unless the first candidate wraps.
    rw [Block.mapped_mask mapped] at below
    have starts : ¬ 2 ^ 32 ≤ base.toNat + 2 := by
      simpa [Subnet.wraps, mapped] using starts
    have first : (base + 2#32).toNat = base.toNat + 2 := by
      rw [toNat_add, toNat_ofNat]
      omega
    have empty : addr < base := by simpa using below
    have order := lt_def.mp empty
    omega
  · obtain ⟨addr, printed, free, inside⟩ := nextFreeIPv6_eq_ok found
    exact ⟨⟨_, printed⟩, unused free, host, .v6 block, parsed, fun _ => ⟨_, printed, inside⟩⟩

end Range

/-! ## A spelling of addresses

Addresses as their bytes in decimal, behind dots for the older family and behind colons for the
newer one: a spelling that meets the laws. -/

def byteList : Nat → Nat → List Nat
  | 0, _ => []
  | count + 1, n => byteList count (n / 256) ++ [n % 256]

theorem foldl_byteList (count n : Nat) :
    (byteList count n).foldl (fun value byte => value * 256 + byte) 0 = n % 256 ^ count := by
  induction count generalizing n with
  | zero => simp [byteList, Nat.mod_one]
  | succ count ih =>
    rw [byteList, foldl_append, ih, foldl_cons, foldl_nil, Nat.pow_succ',
      Nat.mod_mul]
    ring

@[simp] theorem length_byteList (count n : Nat) : (byteList count n).length = count := by
  induction count generalizing n with
  | zero => rfl
  | succ count ih => simp [byteList, ih]

theorem byteList_ne_nil (count n : Nat) : byteList (count + 1) n ≠ [] := by
  simp [byteList]

def spellBytes (sep : Char) (count n : Nat) : Text :=
  [sep].intercalate ((byteList count n).map (Nat.toDigits 10))

def readBytes (sep : Char) (text : Text) : Nat :=
  ((text.splitOn sep).map fun field => Nat.ofDigitChars 10 field 0).foldl
    (fun value byte => value * 256 + byte) 0

theorem isDigit_of_mem_spelled {count n : Nat} {field : Text} {c : Char}
    (listed : field ∈ (byteList count n).map (Nat.toDigits 10)) (member : c ∈ field) :
    c.isDigit = true := by
  obtain ⟨byte, -, rfl⟩ := mem_map.mp listed
  exact Nat.isDigit_of_mem_toDigits (by omega) (by omega) member

variable {sep : Char}

theorem splitOn_spellBytes (symbol : sep.isDigit = false) (count n : Nat) :
    (spellBytes sep (count + 1) n).splitOn sep =
      (byteList (count + 1) n).map (Nat.toDigits 10) := by
  refine splitOn_intercalate sep ?_ (by simpa using byteList_ne_nil count n)
  intro field listed member
  rw [isDigit_of_mem_spelled listed member] at symbol
  cases symbol

theorem readBytes_spellBytes (symbol : sep.isDigit = false) (count n : Nat) :
    readBytes sep (spellBytes sep (count + 1) n) = n % 256 ^ (count + 1) := by
  have decimal : (fun byte => Nat.ofDigitChars 10 (Nat.toDigits 10 byte) 0) = id := by
    funext byte
    exact Nat.ofDigitChars_toDigits (by omega) (by omega)
  rw [readBytes, splitOn_spellBytes symbol, map_map, Function.comp_def, decimal, map_id,
    foldl_byteList]

theorem mem_spellBytes {count n : Nat} {c : Char}
    (member : c ∈ spellBytes sep count n) : c = sep ∨ c.isDigit = true := by
  unfold spellBytes at member
  have digits := fun field listed (inner : c ∈ field) =>
    @isDigit_of_mem_spelled count n field c listed inner
  generalize (byteList count n).map (Nat.toDigits 10) = fields at member digits
  induction fields with
  | nil => simp at member
  | cons first rest ih =>
    cases rest with
    | nil =>
      rw [intercalate_singleton] at member
      exact .inr (digits first (by simp) member)
    | cons second rest =>
      rw [intercalate_cons_cons, mem_append, mem_append,
        mem_singleton] at member
      rcases member with (inFirst | isSep) | inRest
      · exact .inr (digits first (by simp) inFirst)
      · exact .inl isSep
      · exact ih inRest fun field listed => digits field (mem_cons_of_mem _ listed)

def spell : IP → Text
  | .v4 addr => spellBytes '.' 4 addr.toNat
  | .v16 addr =>
    match to4 addr with
    | some base => spellBytes '.' 4 base.toNat
    | none => spellBytes ':' 16 addr.toNat

theorem spell_v4 (addr : BitVec 32) : spell (.v4 addr) = spellBytes '.' 4 addr.toNat := rfl

variable {addr : BitVec 128}

theorem spell_mapped (mapped : to4 addr = some base) :
    spell (.v16 addr) = spellBytes '.' 4 base.toNat := by
  simp only [spell, mapped]

theorem spell_v16 (plain : to4 addr = none) :
    spell (.v16 addr) = spellBytes ':' 16 addr.toNat := by
  simp only [spell, plain]

def readIP (text : Text) : Option IP :=
  if (text.splitOn '.').length = 4 then some (.v4 (BitVec.ofNat 32 (readBytes '.' text)))
  else if (text.splitOn ':').length = 16 then some (.v16 (BitVec.ofNat 128 (readBytes ':' text)))
  else none

theorem readIP_dotted (addr : BitVec 32) :
    readIP (spellBytes '.' 4 addr.toNat) = some (.v4 addr) := by
  have fields : ((spellBytes '.' 4 addr.toNat).splitOn '.').length = 4 := by
    rw [splitOn_spellBytes (by decide)]
    simp
  rw [readIP, if_pos fields, readBytes_spellBytes (by decide), Nat.mod_eq_of_lt (by omega),
    ofNat_toNat, setWidth_eq]

theorem readIP_colons (addr : BitVec 128) :
    readIP (spellBytes ':' 16 addr.toNat) = some (.v16 addr) := by
  have undotted : (spellBytes ':' 16 addr.toNat).splitOn '.' = [spellBytes ':' 16 addr.toNat] := by
    have solid : ∀ field ∈ [spellBytes ':' 16 addr.toNat], '.' ∉ field := by
      intro field listed member
      rw [mem_singleton.mp listed] at member
      have impossible := mem_spellBytes member
      revert impossible
      decide
    have whole := splitOn_intercalate '.' solid (by simp)
    rwa [intercalate_singleton] at whole
  have fields : ((spellBytes ':' 16 addr.toNat).splitOn ':').length = 16 := by
    rw [splitOn_spellBytes (by decide)]
    simp
  rw [readIP, undotted, if_neg (by simp), if_pos fields, readBytes_spellBytes (by decide),
    Nat.mod_eq_of_lt (by omega), ofNat_toNat, setWidth_eq]

theorem mem_spell {ip : IP} {c : Char} (member : c ∈ spell ip) :
    c = '.' ∨ c = ':' ∨ c.isDigit = true := by
  have dotted (n : Nat) (found : c ∈ spellBytes '.' 4 n) : c = '.' ∨ c = ':' ∨ c.isDigit = true :=
    (mem_spellBytes found).imp_right Or.inr
  cases ip with
  | v4 addr => exact dotted _ (spell_v4 addr ▸ member)
  | v16 addr =>
    cases mapped : to4 addr with
    | some base =>
      rw [spell_mapped mapped] at member
      exact dotted _ member
    | none =>
      rw [spell_v16 mapped] at member
      exact .inr (mem_spellBytes member)

def readCIDR (text : Text) : Except Text (IP × Subnet) :=
  match text.splitOn '/' with
  | [host, length] =>
    match readIP host with
    | some (.v4 addr) =>
      if fits : Nat.ofDigitChars 10 length 0 ≤ 32 then .ok (.v4 addr, .v4 ⟨addr, _, fits⟩)
      else .error text
    | some (.v16 addr) =>
      if fits : Nat.ofDigitChars 10 length 0 ≤ 128 then .ok (.v16 addr, .v6 ⟨addr, _, fits⟩)
      else .error text
    | none => .error text
  | _ => .error text

def trimBlanks (text : Text) : Text :=
  ((text.dropWhile Char.isWhitespace).reverse.dropWhile Char.isWhitespace).reverse

theorem trimBlanks_spell (ip : IP) : trimBlanks (spell ip) = spell ip := by
  have solid (c : Char) (member : c ∈ spell ip) : c.isWhitespace = false := by
    rcases mem_spell member with rfl | rfl | digit
    · decide
    · decide
    · by_contra blank
      simp only [Char.isWhitespace, Char.isDigit, Bool.not_eq_false, Bool.or_eq_true,
        Bool.and_eq_true, decide_eq_true_eq] at blank digit
      rcases blank with ((rfl | rfl) | rfl) | rfl <;> revert digit <;> decide
  have kept (text : Text) (within : ∀ c ∈ text, c ∈ spell ip) :
      text.dropWhile Char.isWhitespace = text := by
    cases text with
    | nil => rfl
    | cons first rest =>
      rw [dropWhile_cons_of_neg]
      simpa using solid first (within first (by simp))
  unfold trimBlanks
  rw [kept _ fun _ member => member, kept _ fun _ member => mem_reverse.mp member,
    reverse_reverse]

@[reducible] def plainNet : GoNet where
  parseCIDR := readCIDR
  parseIP := readIP
  str := spell
  trimSpace := trimBlanks
  trimSpace_str := trimBlanks_spell
  slash_not_mem_str ip member := by
    have impossible := mem_spell member
    revert impossible
    decide
  parseIP_str ip := by
    cases ip with
    | v4 addr => exact ⟨.v4 addr, readIP_dotted addr, rfl⟩
    | v16 addr =>
      cases mapped : to4 addr with
      | some base =>
        refine ⟨.v4 base, ?_, (spell_mapped mapped).symm⟩
        rw [spell_mapped mapped, readIP_dotted]
      | none =>
        refine ⟨.v16 addr, ?_, rfl⟩
        rw [spell_v16 mapped, readIP_colons]

end Litevirt.Ipam

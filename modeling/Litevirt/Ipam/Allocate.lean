import Litevirt.Ipam.Subnet
import Litevirt.Lib.Table
import Litevirt.Lib.Transition

/-!
# Calls of `AllocateIPFor` on one database

A call reads the leased addresses, claims its candidate with a guarded insert and reads back who
holds it; these statements of any number of calls interleave, also with releases.  The read-back
knows the owner and not the interface, so two interfaces of one owner can be handed one address.
-/

namespace Litevirt.Ipam

open Litevirt.Lib Function
open GoNet

/-! ## The lease table -/

/-- Whom a lease belongs to: `owner_kind`, `owner_host` and `vm_name`. -/
structure Owner where
  kind : Text
  host : Text
  name : Text
  deriving DecidableEq

/-- A row of `ip_allocations` behind its key; it is live until `deleted_at` is set. -/
structure Lease where
  mac : Text
  owner : Owner
  live : Bool
  deriving DecidableEq

/-- The table, keyed by network and address text. -/
abbrev Leases := Table (Text × Text) Lease

def liveRows (leases : Leases) (network : Text) (condition : Lease → Bool) : List Text :=
  (leases.rows.filter fun row => row.1.1 = network && row.2.live && condition row.2).map (·.1.2)

variable {leases : Leases}

theorem mem_liveRows {network ip : Text} {condition : Lease → Bool} :
    ip ∈ liveRows leases network condition ↔
      ∃ lease, leases.find (network, ip) = some lease ∧ lease.live = true ∧
        condition lease = true := by
  simp only [liveRows, List.mem_map, List.mem_filter, Bool.and_eq_true, decide_eq_true_eq]
  constructor
  · rintro ⟨⟨⟨inNetwork, key⟩, lease⟩, ⟨member, ⟨rfl, live⟩, held⟩, rfl⟩
    exact ⟨lease, Table.mem_rows_iff.mp member, live, held⟩
  · rintro ⟨lease, found, live, held⟩
    exact ⟨((network, ip), lease), ⟨Table.mem_rows_iff.mpr found, ⟨rfl, live⟩, held⟩, rfl⟩

/-- The insert that resurrects a tombstone and leaves a live row as it is. -/
def claim (leases : Leases) (key : Text × Text) (mac : Text) (owner : Owner) : Leases :=
  match leases.find key with
  | some ⟨_, _, true⟩ => leases
  | _ => leases.put key ⟨mac, owner, true⟩

def tombstone (leases : Leases) (condition : Text × Text → Lease → Bool) : Leases :=
  leases.amend fun key lease =>
    if lease.live && condition key lease then { lease with live := false } else lease

def releaseIPFor (leases : Leases) (network : Text) (owner : Owner) : Leases :=
  tombstone leases fun key lease => key.1 = network && lease.owner = owner

def releaseLease (leases : Leases) (network ip mac : Text) (owner : Owner) : Leases :=
  tombstone leases fun key lease => key = (network, ip) && lease.mac = mac && lease.owner = owner

section Statements

variable [GoNet]

def computeCandidateIP (leases : Leases) (network subnet : Text) : Except Refusal Text :=
  nextFreeIP subnet (liveRows leases network fun _ => true)

def ipLeaseHeldBy (leases : Leases) (network ip : Text) (owner : Owner) : Bool :=
  (liveRows leases network fun lease => lease.owner = owner).any fun row =>
    leaseAddr row = leaseAddr ip

end Statements

/-! ## Calls -/

structure Request where
  network : Text
  subnet : Text
  mac : Text
  owner : Owner
  deriving DecidableEq

/-- An interface is known by its owner and its hardware address. -/
def Request.interface (request : Request) : Owner × Text := (request.owner, request.mac)

/-- The statement a call performs next. -/
inductive Phase where
  | read
  | claim (ip : Text)
  | confirm (ip : Text)
  deriving DecidableEq

/-- Where a call stands.  `granted` is a call that returned an address which has not been
released since. -/
inductive Call where
  | idle
  | active (request : Request) (attempt : Nat) (phase : Phase)
  | granted (request : Request) (ip : Text)
  | released (request : Request) (ip : Text)
  | failed (request : Request) (refusal : Refusal)
  | broken (request : Request)
  deriving DecidableEq

structure State (ι : Type) where
  leases : Leases
  calls : ι → Call

inductive Label (ι : Type) where
  | call (caller : ι) (request : Request)
  | statement (caller : ι)
  | dbError (caller : ι)
  | releaseIPFor (network : Text) (owner : Owner)
  | releaseLease (network ip mac : Text) (owner : Owner)
  deriving DecidableEq

def attempts : Nat := 5

def liveAt (leases : Leases) (key : Text × Text) : Bool := (leases.find key).any Lease.live

/-- A release ends the grants whose row it tombstones. -/
def Call.afterRelease (before after : Leases) : Call → Call
  | .granted request ip =>
    if liveAt before (request.network, ip) && !liveAt after (request.network, ip) then
      .released request ip
    else .granted request ip
  | call => call

section System

variable {ι : Type} [DecidableEq ι] [GoNet]

def State.set (state : State ι) (caller : ι) (call : Call) : State ι :=
  { state with calls := Function.update state.calls caller call }

def State.release (state : State ι) (after : Leases) : State ι :=
  ⟨after, fun caller => (state.calls caller).afterRelease state.leases after⟩

/-- The next statement of a call of `AllocateIPFor`. -/
def perform (state : State ι) (caller : ι) (request : Request) (attempt : Nat) :
    Phase → State ι
  | .read =>
    match computeCandidateIP state.leases request.network request.subnet with
    | .ok ip => state.set caller (.active request attempt (.claim ip))
    | .error refusal => state.set caller (.failed request refusal)
  | .claim ip =>
    { state.set caller (.active request attempt (.confirm ip)) with
      leases := claim state.leases (request.network, ip) request.mac request.owner }
  | .confirm ip =>
    if ipLeaseHeldBy state.leases request.network ip request.owner then
      state.set caller (.granted request ip)
    else if attempt + 1 < attempts then
      state.set caller (.active request (attempt + 1) .read)
    else state.set caller (.failed request .retries)

def step (state : State ι) : Label ι → Option (State ι)
  | .call caller request =>
    match state.calls caller with
    | .idle => some (state.set caller (.active request 0 .read))
    | _ => none
  | .statement caller =>
    match state.calls caller with
    | .active request attempt phase => some (perform state caller request attempt phase)
    | _ => none
  | .dbError caller =>
    match state.calls caller with
    | .active request _ _ => some (state.set caller (.broken request))
    | _ => none
  | .releaseIPFor network owner => some (state.release (releaseIPFor state.leases network owner))
  | .releaseLease network ip mac owner =>
    some (state.release (releaseLease state.leases network ip mac owner))

end System

def start (ι : Type) (leases : Leases) : State ι := ⟨leases, fun _ => .idle⟩

/-! ## What the statements do to a row -/

variable {key : Text × Text} {lease : Lease} {other : Text × Text} {owner : Owner} {mac : Text}

theorem live_of_claim (found : (claim leases key mac owner).find other = some lease) :
    leases.find other = some lease ∨ other = key ∧ lease = ⟨mac, owner, true⟩ := by
  unfold claim at found
  split at found
  · exact .inl found
  rw [Table.find_put] at found
  split_ifs at found with same
  · exact .inr ⟨same, (Option.some.inj found).symm⟩
  · exact .inl found

theorem find_claim_of_live (found : leases.find other = some lease) (live : lease.live = true) :
    (claim leases key mac owner).find other = some lease := by
  unfold claim
  split
  · exact found
  rename_i vacant
  have different : other ≠ key := by
    rintro rfl
    obtain ⟨holderMac, holder, alive⟩ := lease
    cases live
    exact vacant holderMac holder found
  rw [Table.find_put_of_ne _ _ different]
  exact found

theorem live_of_tombstone {condition : Text × Text → Lease → Bool}
    (found : (tombstone leases condition).find key = some lease) (live : lease.live = true) :
    leases.find key = some lease := by
  unfold tombstone at found
  rw [Table.find_amend, Option.map_eq_some_iff] at found
  obtain ⟨before, was, changed⟩ := found
  split_ifs at changed with hit
  · rw [← changed] at live
    cases live
  · rw [was, changed]

theorem liveAt_iff :
    liveAt leases key = true ↔ ∃ lease, leases.find key = some lease ∧ lease.live = true := by
  unfold liveAt
  rw [Option.any_eq_true]

/-! ## One owner at a time -/

/-- Another interface of the same owner asks for an address on the same network. -/
def Call.rivals (request : Request) : Call → Bool
  | .active other _ _ =>
    other.network = request.network && other.owner = request.owner && other.mac ≠ request.mac
  | _ => false

variable {attempt : Nat} {phase : Phase}

theorem Call.rivals_active {request other : Request} :
    (Call.active other attempt phase).rivals request = false ↔
      (other.network = request.network → other.owner = request.owner →
        other.mac = request.mac) := by
  simp only [Call.rivals, Bool.and_eq_false_iff, decide_eq_false_iff_not]
  tauto

theorem Call.afterRelease_rivals (call : Call) (before after : Leases) (request : Request) :
    (call.afterRelease before after).rivals request = call.rivals request := by
  cases call with
  | granted other ip =>
    simp only [Call.afterRelease]
    split_ifs <;> rfl
  | _ => rfl

theorem Call.afterRelease_active {call : Call} {before after : Leases} {request : Request}
    (active : call.afterRelease before after = .active request attempt phase) :
    call = .active request attempt phase := by
  cases call with
  | granted other ip =>
    simp only [Call.afterRelease] at active
    split_ifs at active
  | _ => exact active

section Apart

variable {ι : Type} [DecidableEq ι]

/-- One owner is served for one interface at a time. -/
def Apart (calls : ι → Call) : Prop :=
  ∀ caller request attempt phase, calls caller = .active request attempt phase →
    ∀ other, (calls other).rivals request = false

theorem Apart.update {calls : ι → Call} {caller : ι} {call : Call} (apart : Apart calls)
    (alone : ∀ request attempt phase, call = .active request attempt phase →
      ∀ other, (calls other).rivals request = false) :
    Apart (Function.update calls caller call) := by
  intro first request attempt phase active second
  by_cases here : first = caller
  · subst here
    rw [update_self] at active
    by_cases same : second = first
    · rw [same, update_self, active, Call.rivals_active]
      exact fun _ _ => rfl
    · rw [update_of_ne same]
      exact alone request attempt phase active second
  · rw [update_of_ne here] at active
    by_cases same : second = caller
    · rw [same, update_self]
      cases renewed : call with
      | active other attempt' phase' =>
        have quiet := alone other attempt' phase' renewed first
        rw [active, Call.rivals_active] at quiet
        rw [Call.rivals_active]
        exact fun network owner => (quiet network.symm owner.symm).symm
      | _ => rfl
    · rw [update_of_ne same]
      exact apart first request attempt phase active second

end Apart

/-! ## The invariant -/

section Invariant

variable {ι : Type} [DecidableEq ι] [GoNet]

/-- The address is a host's of the request's subnet. -/
def Served (request : Request) (ip : Text) : Prop :=
  ∃ host net addr, parseCIDR request.subnet = .ok (host, net) ∧ ip = str addr ∧
    net.usable addr = true

/-- The search of the subnet starts behind the end of the address space. -/
def wrapsAt (subnet : Text) : Bool :=
  match parseCIDR subnet with
  | .ok (_, net) => net.wraps
  | .error _ => false

/-- A call begins when no other interface of its owner is being served on its network, and for a
subnet whose second address behind the network's exists. -/
def Guarded (state : State ι) : Label ι → Prop
  | .call _ request =>
    (∀ caller, (state.calls caller).rivals request = false) ∧ wrapsAt request.subnet = false
  | _ => True

/-- What a call knows about the candidate it is about to claim or to confirm. -/
structure Pending (leases : Leases) (request : Request) (ip : Text) : Prop where
  printed : ∃ addr, ip = str addr
  served : Served request ip
  spelled : ∀ key, liveAt leases (request.network, key) = true → leaseAddr key = ip → key = ip
  /-- The owner holds the candidate for this interface only. -/
  own : ∀ lease, leases.find (request.network, ip) = some lease → lease.live = true →
    lease.owner = request.owner → lease.mac = request.mac

def Call.Sound (leases : Leases) : Call → Prop
  | .active request _ phase =>
    wrapsAt request.subnet = false ∧
      match phase with
      | .read => True
      | .claim ip => Pending leases request ip
      | .confirm ip => Pending leases request ip
  | .granted request ip =>
    leases.find (request.network, ip) = some ⟨request.mac, request.owner, true⟩ ∧
      Served request ip
  | _ => True

structure Sound (state : State ι) : Prop where
  each : ∀ caller, (state.calls caller).Sound state.leases
  apart : Apart state.calls

variable {leases : Leases} {request : Request} {ip : Text}

theorem Pending.of_computeCandidateIP (starts : wrapsAt request.subnet = false)
    (computed : computeCandidateIP leases request.network request.subnet = .ok ip) :
    Pending leases request ip := by
  obtain ⟨⟨addr, printed⟩, unused, host, net, parsed, usable⟩ := nextFreeIP_eq_ok computed
  have vacant (key : Text) (live : liveAt leases (request.network, key) = true) :
      leaseAddr key ≠ ip := by
    obtain ⟨lease, found, alive⟩ := liveAt_iff.mp live
    exact unused key (mem_liveRows.mpr ⟨lease, found, alive, rfl⟩)
  have starts : net.wraps = false := by
    simpa [wrapsAt, parsed] using starts
  obtain ⟨host', spelling, inRange⟩ := usable starts
  refine ⟨⟨addr, printed⟩, ⟨host, net, host', parsed, spelling, inRange⟩, ?_, ?_⟩
  · intro key live same
    exact absurd same (vacant key live)
  · intro lease found live _
    have key : leaseAddr ip = ip := by rw [printed, leaseAddr_str]
    exact absurd key (vacant ip (liveAt_iff.mpr ⟨lease, found, live⟩))

theorem Pending.of_live {before after : Leases} (pending : Pending before request ip)
    (old : ∀ key lease, after.find key = some lease → lease.live = true →
      before.find key = some lease) : Pending after request ip where
  printed := pending.printed
  served := pending.served
  spelled key live same := by
    obtain ⟨lease, found, alive⟩ := liveAt_iff.mp live
    exact pending.spelled key (liveAt_iff.mpr ⟨lease, old _ _ found alive, alive⟩) same
  own lease found live := pending.own lease (old _ _ found live) live

theorem Pending.claim {other : Request} {claimed : Text} (pending : Pending leases request ip)
    (printed : ∃ addr, claimed = str addr)
    (harmless : other.network = request.network → other.owner = request.owner →
      other.mac = request.mac) :
    Pending (Ipam.claim leases (other.network, claimed) other.mac other.owner) request ip where
  printed := pending.printed
  served := pending.served
  spelled key live same := by
    obtain ⟨lease, found, alive⟩ := liveAt_iff.mp live
    rcases live_of_claim found with before | ⟨here, -⟩
    · exact pending.spelled key (liveAt_iff.mpr ⟨lease, before, alive⟩) same
    obtain ⟨addr, rfl⟩ := printed
    have text : key = str addr := congrArg Prod.snd here
    rw [text, leaseAddr_str] at same
    rw [text, same]
  own lease found live owned := by
    rcases live_of_claim found with before | ⟨here, rfl⟩
    · exact pending.own lease before live owned
    · exact harmless (congrArg Prod.fst here).symm owned

theorem Pending.held (pending : Pending leases request ip)
    (confirmed : ipLeaseHeldBy leases request.network ip request.owner = true) :
    leases.find (request.network, ip) = some ⟨request.mac, request.owner, true⟩ := by
  obtain ⟨addr, printed⟩ := pending.printed
  obtain ⟨key, member, same⟩ := List.any_eq_true.mp confirmed
  obtain ⟨lease, found, live, owned⟩ := mem_liveRows.mp member
  have spelling : key = ip := by
    refine pending.spelled key (liveAt_iff.mpr ⟨lease, found, live⟩) ?_
    rw [of_decide_eq_true same, printed, leaseAddr_str]
  rw [spelling] at found
  have owned : lease.owner = request.owner := of_decide_eq_true owned
  have interface := pending.own lease found live owned
  rw [found, ← interface, ← owned, ← live]

/-! ## Steps -/

variable {state : State ι} {call : Call} {caller : ι}

theorem Sound.set (sound : Sound state) (own : call.Sound state.leases)
    (alone : ∀ request attempt phase, call = .active request attempt phase →
      ∀ other, (state.calls other).rivals request = false) : Sound (state.set caller call) where
  each other := by
    by_cases same : other = caller
    · subst same
      simpa [State.set] using own
    · simpa [State.set, update_of_ne same] using sound.each other
  apart := sound.apart.update alone

theorem Call.Sound.claim (sound : call.Sound leases) (printed : ∃ addr, ip = str addr)
    (quiet : call.rivals request = false) :
    call.Sound (Ipam.claim leases (request.network, ip) request.mac request.owner) := by
  cases call with
  | active other attempt phase =>
    rw [Call.rivals_active] at quiet
    have harmless (network : request.network = other.network)
        (owner : request.owner = other.owner) : request.mac = other.mac :=
      (quiet network.symm owner.symm).symm
    refine ⟨sound.1, ?_⟩
    cases phase with
    | read => trivial
    | claim candidate | confirm candidate => exact sound.2.claim printed harmless
  | granted other held => exact ⟨find_claim_of_live sound.1 rfl, sound.2⟩
  | _ => trivial

variable {condition : Text × Text → Lease → Bool}

theorem Call.Sound.release (sound : call.Sound leases) :
    (call.afterRelease leases (tombstone leases condition)).Sound (tombstone leases condition) := by
  cases call with
  | active request attempt phase =>
    refine ⟨sound.1, ?_⟩
    cases phase with
    | read => trivial
    | claim ip | confirm ip => exact sound.2.of_live fun _ _ => live_of_tombstone
  | granted request ip =>
    obtain ⟨found, served⟩ := sound
    have held : liveAt leases (request.network, ip) = true := liveAt_iff.mpr ⟨_, found, rfl⟩
    simp only [Call.afterRelease]
    split_ifs with gone
    · trivial
    rw [held, Bool.true_and, Bool.not_eq_true', Bool.not_eq_false] at gone
    obtain ⟨lease, remains, live⟩ := liveAt_iff.mp gone
    have same := live_of_tombstone remains live
    rw [found] at same
    refine ⟨?_, served⟩
    rw [remains, same]
  | _ => trivial

omit [DecidableEq ι] in
theorem Sound.release (sound : Sound state) :
    Sound (state.release (tombstone state.leases condition)) where
  each caller := (sound.each caller).release
  apart caller request attempt phase active other := by
    rw [show (state.release (tombstone state.leases condition)).calls other =
      (state.calls other).afterRelease state.leases (tombstone state.leases condition) from rfl,
      Call.afterRelease_rivals]
    exact sound.apart caller request attempt phase (Call.afterRelease_active active) other

theorem Sound.perform {attempt : Nat} {phase : Phase} (sound : Sound state)
    (active : state.calls caller = .active request attempt phase) :
    Sound (perform state caller request attempt phase) := by
  have alone := sound.apart caller request attempt phase active
  have mine := sound.each caller
  rw [active] at mine
  obtain ⟨starts, known⟩ := mine
  -- The call goes on with the same request.
  have continues (attempt' : Nat) (phase' : Phase) :
      ∀ again attempt'' phase'', Call.active request attempt' phase' =
        .active again attempt'' phase'' → ∀ other, (state.calls other).rivals again = false := by
    intro again _ _ same
    cases same
    exact alone
  cases phase with
  | read =>
    simp only [Ipam.perform]
    split
    · rename_i ip computed
      exact sound.set ⟨starts, .of_computeCandidateIP starts computed⟩ (continues _ _)
    · exact sound.set trivial nofun
  | claim ip =>
    have updated : Sound (state.set caller (.active request attempt (.confirm ip))) :=
      sound.set ⟨starts, known⟩ (continues _ _)
    refine ⟨fun other => ?_, updated.apart⟩
    refine (updated.each other).claim known.printed ?_
    exact updated.apart caller request attempt (.confirm ip) (update_self ..) other
  | confirm ip =>
    simp only [Ipam.perform]
    split_ifs with confirmed again
    · exact sound.set ⟨known.held confirmed, known.served⟩ nofun
    · exact sound.set ⟨starts, trivial⟩ (continues _ _)
    · exact sound.set trivial nofun

theorem Sound.step {next : State ι} {label : Label ι} (sound : Sound state)
    (guarded : Guarded state label) (stepped : step state label = some next) : Sound next := by
  cases label with
  | call caller request =>
    simp only [Ipam.step] at stepped
    split at stepped
    · cases stepped
      refine sound.set ⟨guarded.2, trivial⟩ fun _ _ _ same => ?_
      cases same
      exact guarded.1
    · cases stepped
  | statement caller =>
    simp only [Ipam.step] at stepped
    split at stepped
    · rename_i active
      cases stepped
      exact sound.perform active
    · cases stepped
  | dbError caller =>
    simp only [Ipam.step] at stepped
    split at stepped
    · cases stepped
      exact sound.set trivial nofun
    · cases stepped
  | releaseIPFor network owner | releaseLease network ip mac owner =>
    cases stepped
    exact sound.release

omit [DecidableEq ι] in
theorem Sound.start (leases : Leases) : Sound (start ι leases) where
  each _ := trivial
  apart := nofun

/-- In every run in which no two interfaces of one owner are served at the same time on a network,
and no subnet's search starts behind the end of the address space, the calls that were given an
address which has not been released since hold different addresses for different interfaces, and
each address is a host's of the call's subnet. -/
theorem granted_distinct {leases : Leases} {state : State ι}
    (run : Run step Guarded (Ipam.start ι leases) state) :
    (∀ caller other request another ip,
      state.calls caller = .granted request ip → state.calls other = .granted another ip →
        request.network = another.network → request.interface = another.interface) ∧
      ∀ caller request ip, state.calls caller = .granted request ip → Served request ip := by
  have sound : Sound state := run.invariant Sound (.start leases)
    fun _ _ _ guarded stepped sound => sound.step guarded stepped
  have granted (caller : ι) (request : Request) (ip : Text)
      (given : state.calls caller = .granted request ip) :
      state.leases.find (request.network, ip) = some ⟨request.mac, request.owner, true⟩ ∧
        Served request ip := by
    have own := sound.each caller
    rw [given] at own
    exact own
  constructor
  · intro caller other request another ip given also network
    have first := (granted caller request ip given).1
    have second := (granted other another ip also).1
    rw [network, second] at first
    have same := Option.some.inj first
    exact Prod.ext (congrArg Lease.owner same).symm (congrArg Lease.mac same).symm
  · exact fun caller request ip given => (granted caller request ip given).2

end Invariant

/-! ## Two runs -/

instance Guarded.decidable {ι : Type} [Fintype ι] [GoNet] (state : State ι) (label : Label ι) :
    Decidable (Guarded state label) := by
  cases label <;> unfold Guarded <;> infer_instance

attribute [local instance] plainNet

def nicRequest (name mac subnet : String) : Request where
  network := "lan".toList
  subnet := subnet.toList
  mac := mac.toList
  owner := ⟨"ct".toList, "h1".toList, name.toList⟩

def alternating (first second : Request) : List (Label Bool) :=
  [.call false first, .call true second, .statement false, .statement true, .statement false,
    .statement true, .statement false, .statement true]

/-- The interfaces of one container are given one address, and at the end of the address space an
address outside the subnet is given. -/
theorem address_given_twice :
    (∃ state : State Bool,
      Run step (fun _ _ => True) (start Bool Table.empty) state ∧
        state.calls false = .granted (nicRequest "web" "02:00" "10.0.0.0/24") "10.0.0.2".toList ∧
        state.calls true = .granted (nicRequest "web" "02:01" "10.0.0.0/24") "10.0.0.2".toList) ∧
      ∃ state : State Bool,
        Run step (fun _ _ => True) (start Bool Table.empty) state ∧
          state.calls false =
            .granted (nicRequest "web" "02:00" "255.255.255.254/31") "0.0.0.0".toList ∧
          ¬ Served (nicRequest "web" "02:00" "255.255.255.254/31") "0.0.0.0".toList := by
  have foreign :
      ¬ Served (nicRequest "web" "02:00" "255.255.255.254/31") "0.0.0.0".toList := by
    rintro ⟨host, net, addr, parsed, printed, usable⟩
    have subnet : net = .v4 ⟨0xfffffffe#32, 31, by omega⟩ := by
      have read : readCIDR "255.255.255.254/31".toList =
        .ok (.v4 0xfffffffe#32, .v4 ⟨0xfffffffe#32, 31, by omega⟩) := by rfl
      have same := parsed.symm.trans read
      simp only [Except.ok.injEq, Prod.mk.injEq] at same
      exact same.2
    rw [subnet] at usable
    cases addr with
    | v4 addr =>
      have value : some (IP.v4 addr) = some (IP.v4 0#32) := by
        rw [← readIP_dotted addr, ← spell_v4,
          ← show "0.0.0.0".toList = spell (.v4 addr) from printed]
        rfl
      cases value
      revert usable
      decide
    | v16 addr => cases usable
  refine ⟨Run.reaches (alternating (nicRequest "web" "02:00" "10.0.0.0/24")
    (nicRequest "web" "02:01" "10.0.0.0/24")) (by decide +kernel), ?_⟩
  exact (Run.reaches [.call false (nicRequest "web" "02:00" "255.255.255.254/31"),
    .statement false, .statement false, .statement false] (by decide +kernel)).imp
      fun _ ⟨run, given⟩ => ⟨run, given, foreign⟩

/-- Interfaces of two containers may be served at the same time: the one whose claim came
second reads again and is given the next address. -/
theorem granted_distinct_owners :
    ∃ state : State Bool,
      Run step Guarded (start Bool Table.empty) state ∧
        (state.calls false = .granted (nicRequest "web" "02:00" "10.0.0.0/24") "10.0.0.2".toList ∧
          state.calls true = .granted (nicRequest "db" "02:01" "10.0.0.0/24") "10.0.0.3".toList) ∧
        Served (nicRequest "web" "02:00" "10.0.0.0/24") "10.0.0.2".toList ∧
        Served (nicRequest "db" "02:01" "10.0.0.0/24") "10.0.0.3".toList ∧
        state.calls true ≠ .granted (nicRequest "db" "02:01" "10.0.0.0/24") "10.0.0.2".toList :=
  (Run.reaches (alternating (nicRequest "web" "02:00" "10.0.0.0/24")
    (nicRequest "db" "02:01" "10.0.0.0/24") ++ [.statement true, .statement true, .statement true])
    (by decide +kernel)).imp fun _ ⟨run, given⟩ =>
      ⟨run, given, (granted_distinct run).2 false _ _ given.1,
        (granted_distinct run).2 true _ _ given.2, fun also =>
          absurd ((granted_distinct run).1 false true _ _ _ given.1 also rfl) (by decide)⟩

end Litevirt.Ipam

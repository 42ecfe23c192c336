import Myrun.IpamExact
import Myrun.IpamHistory
import Myrun.Network

namespace Myrun

/-!
# Which addresses are handed out

The network, broadcast and gateway addresses of a subnet are documented never
to be handed out.  The range that `allocate` searches leaves out the first two
and the search skips the third, but a requested address is only checked to be
inside the subnet and not the gateway, and an existing lease is returned
without any check.
-/

/-! ## Subnets as intervals -/

/-- The network address. -/
def networkAddress (net : Ipv4) (prefixLen : UInt8) : UInt32 :=
  net.toU32 &&& maskOf prefixLen

/-- The broadcast address. -/
def broadcastAddress (net : Ipv4) (prefixLen : UInt8) : UInt32 :=
  networkAddress net prefixLen ||| ~~~(maskOf prefixLen)

/-- The host part of a subnet that passes validation has two bits or more. -/
theorem maskOf_low_bits
    {length : UInt8}
    (wide : length ≤ 30) :
    maskOf length &&& 1 = 0 ∧ 0 < (~~~(maskOf length)).toNat := by
  have all : ∀ n : Fin 31,
      maskOf (UInt8.ofNat n.val) &&& 1 = 0 ∧
        0 < (~~~(maskOf (UInt8.ofNat n.val))).toNat := by
    decide +kernel
  have bound : length.toNat < 31 :=
    Nat.lt_succ_of_le (UInt8.le_iff_toNat_le.mp wide)
  simpa using all ⟨length.toNat, bound⟩

/-- The network address is even, so the address after it exists. -/
theorem networkAddress_succ_le
    {net : Ipv4}
    {length : UInt8}
    (wide : length ≤ 30)
    (word : UInt32) :
    networkAddress net length + 1 ≤ word ↔
      networkAddress net length < word := by
  have even : networkAddress net length &&& 1 = 0 := by
    rw [networkAddress, UInt32.and_assoc, (maskOf_low_bits wide).1,
      UInt32.and_zero]
  have evenNumber : (networkAddress net length).toNat % 2 = 0 := by
    have number := congrArg UInt32.toNat even
    simpa [UInt32.toNat_and, Nat.and_one_is_mod] using number
  have bound := (networkAddress net length).toNat_lt
  have next :
      (networkAddress net length + 1).toNat =
        (networkAddress net length).toNat + 1 := by
    rw [UInt32.toNat_add]
    exact Nat.mod_eq_of_lt (by simp only [UInt32.reduceToNat]; omega)
  rw [UInt32.le_iff_toNat_le, UInt32.lt_iff_toNat_lt, next]
  exact Nat.succ_le_iff

/-- The broadcast address is not zero, so the address before it exists. -/
theorem le_broadcastAddress_pred
    {net : Ipv4}
    {length : UInt8}
    (wide : length ≤ 30)
    (word : UInt32) :
    word ≤ broadcastAddress net length - 1 ↔
      word < broadcastAddress net length := by
  have positive : 0 < (broadcastAddress net length).toNat := by
    rw [broadcastAddress, UInt32.toNat_or]
    exact Nat.lt_of_lt_of_le (maskOf_low_bits wide).2 Nat.right_le_or
  have previous :
      (broadcastAddress net length - 1).toNat =
        (broadcastAddress net length).toNat - 1 :=
    UInt32.toNat_sub_of_le _ _ (UInt32.le_iff_toNat_le.mpr positive)
  rw [UInt32.le_iff_toNat_le, UInt32.lt_iff_toNat_lt, previous]
  exact Nat.le_sub_one_iff_lt positive

/-- An address of the subnet is between the two ends. -/
theorem bounds_of_inSubnet
    {addr net : Ipv4}
    {length : UInt8}
    (inside : inSubnet addr net length = true) :
    networkAddress net length ≤ addr.toU32 ∧
      addr.toU32 ≤ broadcastAddress net length := by
  have same : addr.toU32 &&& maskOf length = networkAddress net length := by
    simpa [inSubnet, networkAddress] using inside
  rw [broadcastAddress, ← same]
  constructor
  · rw [UInt32.le_iff_toNat_le, UInt32.toNat_and]
    exact Nat.and_le_left
  · have covered :
        addr.toU32 ||| (addr.toU32 &&& maskOf length ||| ~~~(maskOf length)) =
          addr.toU32 &&& maskOf length ||| ~~~(maskOf length) := by
      apply UInt32.toBitVec_inj.1
      ext i bound
      simp only [UInt32.toBitVec_or, UInt32.toBitVec_and, UInt32.toBitVec_not,
        BitVec.getElem_or, BitVec.getElem_and, BitVec.getElem_not]
      cases addr.toU32.toBitVec[i] with
      | false => simp
      | true => simp
    rw [UInt32.le_iff_toNat_le, ← covered, UInt32.toNat_or]
    exact Nat.left_le_or

/-- Strictly between the network and the broadcast address. -/
def Interior (net : Ipv4) (prefixLen : UInt8) (ip : Ipv4) : Prop :=
  networkAddress net prefixLen < ip.toU32 ∧
    ip.toU32 < broadcastAddress net prefixLen

private theorem interior_of_inSubnet
    {addr net : Ipv4}
    {length : UInt8}
    (inside : inSubnet addr net length = true) :
    Interior net length addr ↔
      addr.toU32 ≠ networkAddress net length ∧
        addr.toU32 ≠ broadcastAddress net length := by
  obtain ⟨lower, upper⟩ := bounds_of_inSubnet inside
  rw [UInt32.le_iff_toNat_le] at lower upper
  simp only [Interior, UInt32.lt_iff_toNat_lt, ne_eq, ← UInt32.toNat_inj]
  omega

/-- The range that is searched is the interior of the subnet. -/
theorem interior_of_free
    {subnet : String}
    {net gateway ip : Ipv4}
    {length : UInt8}
    (cidr : parseCidr subnet = .ok (net, length))
    (wide : length ≤ 30)
    {l : Leases}
    {range : UInt32 × UInt32}
    (usable : usableRange subnet = .ok range)
    (free : l.Free gateway range ip) :
    Interior net length ip := by
  obtain rfl := Except.ok.inj ((usableRange_eq cidr wide).symm.trans usable)
  exact ⟨(networkAddress_succ_le wide _).mp free.lower,
    (le_broadcastAddress_pred wide _).mp free.upper⟩

/-! ## Calls for validated configurations -/

/-- A bridge configuration that `finalize_and_validate` returns. -/
structure AcceptedBridge (c : ContainerConfig) : Prop where
  validated : ∃ host requireRootfs before,
    ContainerConfig.finalizeAndValidate host requireRootfs before = .ok c
  bridged : c.network.mode = .bridge

/-- The address part of `setup_host`. -/
def leaseFor [F64Ops] (host : IpamHost) (file : LeaseFile)
    (c : ContainerConfig) : Result ((Ipv4 × UInt8) × LeaseFile) := do
  let gateway ← c.network.gatewayAddr
  let requested ← Network.requestedIp c.network
  Ipam.allocate host file c.network.subnet c.id requested gateway

/-- What validation found out about a bridge configuration. -/
structure BridgeFacts (n : NetworkConfig) (net : Ipv4) (length : UInt8)
    (gateway : Ipv4) (requested : Option Ipv4) : Prop where
  cidr : parseCidr n.subnet = .ok (net, length)
  wide : length ≤ 30
  gatewayAddr : n.gatewayAddr = .ok gateway
  request : Network.requestedIp n = .ok requested
  inside : ∀ ip, requested = some ip → inSubnet ip net length = true
  notGateway : ∀ ip, requested = some ip → ip ≠ gateway

private theorem bridgeFacts_of_validateBridge
    {n : NetworkConfig}
    {done : Unit}
    (accepted : n.validateBridge = .ok done) :
    ∃ net length gateway requested,
      BridgeFacts n net length gateway requested := by
  unfold NetworkConfig.validateBridge at accepted
  simp only [Result.bind_eq_ok] at accepted
  obtain ⟨⟨net, length⟩, cidr, _, wide, gateway, gatewayAddr, _, address, _⟩ :=
    accepted
  rw [requireConfig_eq_ok] at wide
  unfold NetworkConfig.checkAddress at address
  cases asked : n.ip with
  | none =>
      refine ⟨net, length, gateway, none, cidr, wide, gatewayAddr, ?_, ?_, ?_⟩
      · simp [Network.requestedIp, asked]
      · simp
      · simp
  | some text =>
      simp only [asked, Result.bind_eq_ok] at address
      obtain ⟨ip, parsed, _, inside, notGateway⟩ := address
      rw [requireConfig_eq_ok] at inside notGateway
      refine ⟨net, length, gateway, some ip, cidr, wide, gatewayAddr, ?_, ?_,
        ?_⟩
      · simp [Network.requestedIp, asked, parsed]
      · rintro _ ⟨⟩
        exact inside
      · rintro _ ⟨⟩
        exact notGateway

theorem AcceptedBridge.facts
    {c : ContainerConfig}
    (accepted : AcceptedBridge c) :
    ∃ net length gateway requested,
      BridgeFacts c.network net length gateway requested := by
  obtain ⟨⟨host, requireRootfs, before, validated⟩, bridged⟩ := accepted
  unfold ContainerConfig.finalizeAndValidate at validated
  simp only [Result.bind_eq_ok] at validated
  obtain ⟨_, _, finalized⟩ := validated
  unfold ContainerConfig.finalize at finalized
  simp only [Result.bind_eq_ok, Result.pure_eq_ok] at finalized
  obtain ⟨_, _, _, _, _, _, _, _, _, network, _, _, _, _, same⟩ := finalized
  obtain rfl := Except.ok.inj same
  unfold ContainerConfig.validateNetwork at network
  rw [bridged] at network
  simp only [Result.bind_eq_ok] at network
  obtain ⟨_, _, _, checked, _⟩ := network
  exact bridgeFacts_of_validateBridge checked

/-! ## Usable addresses -/

/-- An address that may be handed out for a configuration. -/
def NetworkConfig.Usable (n : NetworkConfig) (ip : Ipv4) : Prop :=
  ∀ net length gateway, parseCidr n.subnet = .ok (net, length) →
    n.gatewayAddr = .ok gateway → Interior net length ip ∧ ip ≠ gateway

/-- The lease that `allocate` finds for a container. -/
def Leases.leaseOf (l : Leases) (subnet id : String) : Option Ipv4 :=
  ((l.forSubnet subnet).entries.find? (·.id = id)).map Lease.ip

/--
A call that asks for no end of the subnet and does not fall back on a lease
that is its own gateway.
-/
structure Careful [F64Ops] (file : LeaseFile) (c : ContainerConfig) :
    Prop where
  requested : ∀ net length ip,
    parseCidr c.network.subnet = .ok (net, length) →
    Network.requestedIp c.network = .ok (some ip) →
    ip.toU32 ≠ networkAddress net length ∧
      ip.toU32 ≠ broadcastAddress net length
  kept : ∀ gateway table,
    Network.requestedIp c.network = .ok none →
    c.network.gatewayAddr = .ok gateway →
    Leases.load {} file = .ok table →
    table.leaseOf c.network.subnet c.id ≠ some gateway

/-- The lease files reached by calls that meet a condition. -/
inductive LeaseFile.Reached [F64Ops]
    (Allowed : LeaseFile → ContainerConfig → Prop) : LeaseFile → Prop where
  | start
      {file : LeaseFile}
      (empty : Tenancy.EmptyFile file) :
      Reached Allowed file
  | lease
      {file after : LeaseFile}
      (earlier : Reached Allowed file)
      {c : ContainerConfig}
      (accepted : AcceptedBridge c)
      (allowed : Allowed file c)
      {host : IpamHost}
      {answer : Ipv4 × UInt8}
      (granted : leaseFor host file c = .ok (answer, after)) :
      Reached Allowed after
  | release
      {file after : LeaseFile}
      (earlier : Reached Allowed file)
      {host : IpamHost}
      {id : String}
      (released : Ipam.release host file id = .ok after) :
      Reached Allowed after
  | gc
      {file after : LeaseFile}
      (earlier : Reached Allowed file)
      {host : IpamHost}
      {liveIds : List String}
      {removed : Nat}
      (collected : Ipam.gc host file liveIds = .ok (removed, after)) :
      Reached Allowed after

/-- Every lease of a table is inside the table's subnet. -/
def Leases.AllInterior (l : Leases) : Prop :=
  ∀ lease ∈ l.entries, ∀ net length,
    parseCidr l.subnet = .ok (net, length) → Interior net length lease.ip

/-- Whatever is read from the file is inside its subnet. -/
def LeaseFile.AllInterior [F64Ops] (file : LeaseFile) : Prop :=
  ∀ host table, Leases.load host file = .ok table → table.AllInterior

private theorem Leases.AllInterior.filter
    {l : Leases}
    (interior : l.AllInterior)
    (keep : Lease → Bool) :
    AllInterior { l with entries := l.entries.filter keep } := by
  intro lease member
  exact interior lease (List.mem_of_mem_filter member)

private theorem Leases.AllInterior.forSubnet
    {l : Leases}
    (interior : l.AllInterior)
    (subnet : String) :
    (l.forSubnet subnet).AllInterior := by
  unfold Leases.forSubnet
  split
  · intro lease member
    simp at member
  · exact interior

private theorem Leases.forSubnet_subnet
    (l : Leases)
    (subnet : String) :
    (l.forSubnet subnet).subnet = subnet := by
  unfold Leases.forSubnet
  split
  · rfl
  · rename_i same
    exact Decidable.not_not.mp same

section Reachable

variable [F64Ops]

private theorem allInterior_of_stored
    {table : Leases}
    (interior : table.AllInterior) :
    LeaseFile.AllInterior (some table.toJson.toStringPretty) := by
  intro host loaded read
  rw [Leases.load_stored read]
  exact interior

/-- What a successful call for a validated configuration returned. -/
inductive Answered (table : Leases) (c : ContainerConfig) (gateway : Ipv4)
    (ip : Ipv4) : Option Ipv4 → Option Leases → Prop where
  | reused
      (held : table.leaseOf c.network.subnet c.id = some ip)
      {requested : Option Ipv4}
      (fits : requested.all (· = ip) = true) :
      Answered table c gateway ip requested none
  | requested :
      Answered table c gateway ip (some ip)
        (some (((table.forSubnet c.network.subnet).without c.id).push
          { ip, id := c.id }))
  | searched
      (absent : table.leaseOf c.network.subnet c.id = none)
      {range : UInt32 × UInt32}
      (usable : usableRange c.network.subnet = .ok range)
      (free : ((table.forSubnet c.network.subnet).without c.id).Free gateway
        range ip) :
      Answered table c gateway ip none
        (some (((table.forSubnet c.network.subnet).without c.id).push
          { ip, id := c.id }))

omit [F64Ops] in
private theorem answered_of_assign
    {table : Leases}
    {c : ContainerConfig}
    {gateway ip : Ipv4}
    {requested : Option Ipv4}
    {change : Option Leases}
    (assigned :
      table.assign c.network.subnet c.id requested gateway = .ok (ip, change))
    {net : Ipv4}
    {length : UInt8}
    (cidr : parseCidr c.network.subnet = .ok (net, length))
    (wide : length ≤ 30) :
    Answered table c gateway ip requested change := by
  have fresh :
      (requested = none → table.leaseOf c.network.subnet c.id = none) →
      (((table.forSubnet c.network.subnet).without c.id).grant
          c.network.subnet c.id requested gateway = .ok (ip, change)) →
        Answered table c gateway ip requested change := by
    intro absent granted
    obtain ⟨chosen, choice, answer⟩ := Result.bind_eq_ok.mp granted
    obtain ⟨rfl, rfl⟩ : chosen = ip ∧ some _ = change := by
      simpa using answer
    cases requested with
    | none =>
        have usable := usableRange_eq cidr wide
        rcases Leases.choose_none_spec _ gateway usable with
          ⟨least, sameChoice, isLeast⟩ | ⟨⟨e, failed⟩, _⟩
        · obtain rfl := Except.ok.inj (sameChoice.symm.trans choice)
          exact .searched (absent rfl) usable isLeast.free
        · rw [failed] at choice
          simp at choice
    | some wanted =>
        rcases Leases.choose_some_spec _ c.network.subnet gateway wanted with
          ⟨sameChoice, _⟩ | ⟨⟨e, failed⟩, _⟩
        · obtain rfl := Except.ok.inj (sameChoice.symm.trans choice)
          exact .requested
        · rw [failed] at choice
          simp at choice
  simp only [Leases.assign] at assigned
  split at assigned
  · rename_i existing found
    split at assigned
    · rename_i fits
      obtain ⟨rfl, rfl⟩ : existing.ip = ip ∧ none = change := by
        simpa using assigned
      exact .reused (by simp [Leases.leaseOf, found]) fits
    · rename_i moves
      refine fresh ?_ assigned
      rintro rfl
      simp at moves
  · rename_i absent
    rw [← Leases.without_of_find?_eq_none absent] at assigned
    exact fresh (fun _ => by simp [Leases.leaseOf, absent]) assigned

/-- A call for a validated configuration. -/
theorem leaseFor_ok
    {host : IpamHost}
    {file after : LeaseFile}
    {c : ContainerConfig}
    {ip : Ipv4}
    {prefixLen : UInt8}
    (granted : leaseFor host file c = .ok ((ip, prefixLen), after))
    {net gateway : Ipv4}
    {length : UInt8}
    {requested : Option Ipv4}
    (facts : BridgeFacts c.network net length gateway requested) :
    ∃ table change, Leases.load host file = .ok table ∧
      Answered table c gateway ip requested change ∧
      after = (change.map (·.toJson.toStringPretty)).or file := by
  simp only [leaseFor, facts.gatewayAddr, facts.request, Result.ok_bind]
    at granted
  obtain ⟨table, change, read, assigned, afterFile⟩ :=
    Ipam.allocate_assigned granted
  exact ⟨table, change, read,
    answered_of_assign assigned facts.cidr facts.wide, afterFile⟩

omit [F64Ops] in
/-- A lease that is found is in the table, which then is for the subnet. -/
theorem mem_of_leaseOf
    {table : Leases}
    {subnet id : String}
    {ip : Ipv4}
    (found : table.leaseOf subnet id = some ip) :
    { ip, id } ∈ (table.forSubnet subnet).entries := by
  obtain ⟨lease, listed, rfl⟩ := Option.map_eq_some_iff.mp found
  obtain rfl : lease.id = id := by
    simpa using List.find?_some listed
  exact List.mem_of_find?_eq_some listed

omit [F64Ops] in
/-- On a table inside its subnet, a careful call returns a usable address. -/
theorem Answered.usable_iff
    {table : Leases}
    {c : ContainerConfig}
    {net gateway ip : Ipv4}
    {length : UInt8}
    {requested : Option Ipv4}
    {change : Option Leases}
    (answered : Answered table c gateway ip requested change)
    (facts : BridgeFacts c.network net length gateway requested)
    (interior : table.AllInterior) :
    Interior net length ip ∧ ip ≠ gateway ↔
      (∀ wanted, requested = some wanted →
        wanted.toU32 ≠ networkAddress net length ∧
          wanted.toU32 ≠ broadcastAddress net length) ∧
      (requested = none →
        table.leaseOf c.network.subnet c.id ≠ some gateway) := by
  have asked : ∀ wanted, requested = some wanted →
      (Interior net length wanted ∧ wanted ≠ gateway ↔
        wanted.toU32 ≠ networkAddress net length ∧
          wanted.toU32 ≠ broadcastAddress net length) := by
    intro wanted same
    rw [interior_of_inSubnet (facts.inside wanted same)]
    exact and_iff_left (facts.notGateway wanted same)
  cases answered with
  | reused held fits =>
      cases requested with
      | none =>
          have inside : Interior net length ip := by
            apply interior.forSubnet c.network.subnet _ (mem_of_leaseOf held)
            rw [Leases.forSubnet_subnet]
            exact facts.cidr
          simp [held, inside]
      | some wanted =>
          obtain rfl : wanted = ip := by
            simpa using fits
          simpa using asked wanted rfl
  | requested =>
      simpa using asked ip rfl
  | searched absent usable free =>
      have inside : Interior net length ip :=
        interior_of_free facts.cidr facts.wide usable free
      simp [absent, inside, free.notGateway]

omit [F64Ops] in
/-- A careful call keeps the leases inside the subnet. -/
theorem Answered.allInterior
    {table : Leases}
    {c : ContainerConfig}
    {net gateway ip : Ipv4}
    {length : UInt8}
    {requested : Option Ipv4}
    {change : Leases}
    (answered : Answered table c gateway ip requested (some change))
    (cidr : parseCidr c.network.subnet = .ok (net, length))
    (inside : Interior net length ip)
    (interior : table.AllInterior) :
    change.AllInterior := by
  have others :
      ((table.forSubnet c.network.subnet).without c.id).AllInterior :=
    (interior.forSubnet c.network.subnet).filter _
  have pushed :
      (((table.forSubnet c.network.subnet).without c.id).push
        { ip, id := c.id }).AllInterior := by
    intro lease member net' length' cidr'
    rcases List.mem_append.mp member with old | new
    · exact others lease old net' length' cidr'
    · obtain rfl : lease = { ip, id := c.id } := by
        simpa using new
      have sameSubnet :
          parseCidr c.network.subnet = .ok (net', length') := by
        rw [← table.forSubnet_subnet c.network.subnet]
        exact cidr'
      obtain ⟨rfl, rfl⟩ : net = net' ∧ length = length' := by
        simpa [cidr] using sameSubnet
      exact inside
  cases answered with
  | requested => exact pushed
  | searched _ _ _ => exact pushed

/-- The condition of a careful call, on the table it reads. -/
theorem careful_iff
    {file : LeaseFile}
    {c : ContainerConfig}
    {host : IpamHost}
    {table : Leases}
    (read : Leases.load host file = .ok table)
    {net gateway : Ipv4}
    {length : UInt8}
    {requested : Option Ipv4}
    (facts : BridgeFacts c.network net length gateway requested) :
    Careful file c ↔
      (∀ wanted, requested = some wanted →
        wanted.toU32 ≠ networkAddress net length ∧
          wanted.toU32 ≠ broadcastAddress net length) ∧
      (requested = none →
        table.leaseOf c.network.subnet c.id ≠ some gateway) := by
  constructor
  · intro careful
    obtain ⟨plain, plainRead⟩ := Tenancy.exists_load file
    obtain rfl := Leases.load_unique read plainRead
    refine ⟨?_, ?_⟩
    · rintro wanted rfl
      exact careful.requested net length wanted facts.cidr facts.request
    · rintro rfl
      exact careful.kept gateway table facts.request facts.gatewayAddr
        plainRead
  · rintro ⟨ends, kept⟩
    refine ⟨?_, ?_⟩
    · intro net' length' ip cidr asked
      obtain ⟨rfl, rfl⟩ : net = net' ∧ length = length' := by
        simpa [facts.cidr] using cidr
      exact ends ip (Except.ok.inj (facts.request.symm.trans asked))
    · intro gateway' plain asked gatewayAddr plainRead
      obtain rfl := Leases.load_unique read plainRead
      obtain rfl := Except.ok.inj (facts.gatewayAddr.symm.trans gatewayAddr)
      exact kept (Except.ok.inj (facts.request.symm.trans asked))

/-- The address of a call is usable exactly when the call was careful. -/
theorem leaseFor_usable_iff
    {host : IpamHost}
    {file after : LeaseFile}
    (interior : file.AllInterior)
    {c : ContainerConfig}
    (accepted : AcceptedBridge c)
    {ip : Ipv4}
    {prefixLen : UInt8}
    (granted : leaseFor host file c = .ok ((ip, prefixLen), after)) :
    (c.network.Usable ip ↔ Careful file c) ∧
      (Careful file c → after.AllInterior) := by
  obtain ⟨net, length, gateway, requested, facts⟩ := accepted.facts
  obtain ⟨table, change, read, answered, afterFile⟩ :=
    leaseFor_ok granted facts
  have usable :
      c.network.Usable ip ↔ Interior net length ip ∧ ip ≠ gateway := by
    constructor
    · intro all
      exact all net length gateway facts.cidr facts.gatewayAddr
    · intro one net' length' gateway' cidr gatewayAddr
      obtain ⟨rfl, rfl⟩ : net = net' ∧ length = length' := by
        simpa [facts.cidr] using cidr
      obtain rfl := Except.ok.inj (facts.gatewayAddr.symm.trans gatewayAddr)
      exact one
  have exact_condition := answered.usable_iff facts (interior host table read)
  rw [careful_iff read facts, usable]
  refine ⟨exact_condition, ?_⟩
  intro careful
  subst afterFile
  cases change with
  | none =>
      exact interior
  | some stored =>
      exact allInterior_of_stored (answered.allInterior facts.cidr
        (exact_condition.mpr careful).1 (interior host table read))

/-! ## Whole runs -/

private theorem allInterior_of_empty
    {file : LeaseFile}
    (empty : Tenancy.EmptyFile file) :
    file.AllInterior := by
  intro host table read lease member
  rw [empty host table read] at member
  simp at member

/-- Careful runs only ever record addresses inside the subnet. -/
theorem LeaseFile.Reached.allInterior
    {file : LeaseFile}
    (reached : file.Reached Careful) :
    file.AllInterior := by
  induction reached with
  | start empty =>
      exact allInterior_of_empty empty
  | lease earlier accepted careful granted inductionHypothesis =>
      exact (leaseFor_usable_iff inductionHypothesis accepted granted).2
        careful
  | release earlier released inductionHypothesis =>
      obtain ⟨loaded, read, outcome⟩ := Ipam.release_ok released
      rcases outcome with stored | ⟨unchanged, _⟩
      · rw [stored]
        exact allInterior_of_stored
          ((inductionHypothesis _ loaded read).filter _)
      · rw [unchanged]
        exact inductionHypothesis
  | gc earlier collected inductionHypothesis =>
      obtain ⟨loaded, read, outcome⟩ := Ipam.gc_ok collected
      rcases outcome with unchanged | stored
      · rw [unchanged]
        exact inductionHypothesis
      · rw [stored]
        exact allInterior_of_stored
          ((inductionHypothesis _ loaded read).filter _)

/--
In every run of careful calls, an address that is handed out for an accepted
configuration is usable exactly when the call that asks for it is careful, too.
-/
theorem usable_iff_careful
    {file after : LeaseFile}
    (reached : file.Reached Careful)
    {c : ContainerConfig}
    (accepted : AcceptedBridge c)
    {host : IpamHost}
    {ip : Ipv4}
    {prefixLen : UInt8}
    (granted : leaseFor host file c = .ok ((ip, prefixLen), after)) :
    c.network.Usable ip ↔ Careful file c :=
  (leaseFor_usable_iff reached.allInterior accepted granted).1

end Reachable

/-- A configuration of `id` in the default subnet that asks for an address. -/
def bridgeConfig (id : String) (ip : Option String) : ContainerConfig where
  id
  command := ["sh"]
  hostname := id
  env := defaultEnv ++ ["HOSTNAME=" ++ id]
  network := { mode := .bridge, ip }

theorem acceptedBridge_web :
    AcceptedBridge (bridgeConfig "web" none) :=
  ⟨⟨plainHost, false, bridgeConfig "web" none, by decide +kernel⟩, rfl⟩

private theorem acceptedBridge_db :
    AcceptedBridge (bridgeConfig "db" (some "10.87.0.7")) :=
  ⟨⟨plainHost, false, bridgeConfig "db" (some "10.87.0.7"),
    by decide +kernel⟩, rfl⟩

private theorem acceptedBridge_network_address :
    AcceptedBridge (bridgeConfig "web" (some "10.87.0.0")) :=
  ⟨⟨plainHost, false, bridgeConfig "web" (some "10.87.0.0"),
    by decide +kernel⟩, rfl⟩

/-- What validation found out about a configuration in the default subnet. -/
theorem bridgeFacts_bridgeConfig
    {id : String}
    {ip : Option String}
    {requested : Option Ipv4}
    (request : Network.requestedIp (bridgeConfig id ip).network = .ok requested)
    (inside :
      ∀ wanted ∈ requested,
        inSubnet wanted ⟨10, 87, 0, 0⟩ 24 = true ∧ wanted ≠ ⟨10, 87, 0, 1⟩) :
    BridgeFacts (bridgeConfig id ip).network ⟨10, 87, 0, 0⟩ 24 ⟨10, 87, 0, 1⟩
      requested where
  cidr := show parseCidr "10.87.0.0/24" = _ by decide +kernel
  wide := by decide
  gatewayAddr :=
    show NetworkConfig.gatewayAddr {} = _ by decide +kernel
  request
  inside wanted asked := (inside wanted asked).1
  notGateway wanted asked := (inside wanted asked).2

/-- A call for a container without a lease returns the chosen address. -/
theorem leaseFor_fresh
    [F64Ops]
    {file : LeaseFile}
    {table : Leases}
    (read : Leases.load {} file = .ok table)
    {c : ContainerConfig}
    {net gateway ip : Ipv4}
    {length : UInt8}
    {requested : Option Ipv4}
    (facts : BridgeFacts c.network net length gateway requested)
    (absent :
      (table.forSubnet c.network.subnet).entries.find? (·.id = c.id) = none)
    (chosen :
      (table.forSubnet c.network.subnet).choose c.network.subnet
        requested gateway = .ok ip) :
    leaseFor {} file c =
      .ok ((ip, length), some
        ((table.forSubnet c.network.subnet).push
          { ip, id := c.id }).toJson.toStringPretty) := by
  have same :
      leaseFor {} file c =
        Ipam.allocate {} file c.network.subnet c.id requested gateway := by
    simp only [leaseFor, facts.gatewayAddr, facts.request, Result.ok_bind]
  exact same.trans (Ipam.allocate_fresh read facts.cidr absent chosen)

/-- `web` gets the first address; then `db` asks for `10.87.0.7`. -/
theorem requested_address_usable :
    let _ := unitOps
    ∃ file after,
      LeaseFile.Reached Careful file ∧
      Leases.load {} file = .ok Tenancy.webTable ∧
      AcceptedBridge (bridgeConfig "db" (some "10.87.0.7")) ∧
      leaseFor {} file (bridgeConfig "db" (some "10.87.0.7")) =
        .ok ((⟨10, 87, 0, 7⟩, 24), after) ∧
      (bridgeConfig "db" (some "10.87.0.7")).network.Usable
        ⟨10, 87, 0, 7⟩ := by
  let _ := unitOps
  have webFacts := bridgeFacts_bridgeConfig
    (show Network.requestedIp (bridgeConfig "web" none).network = .ok none
      from rfl) (by decide)
  have none_read : Leases.load {} none = .ok {} := rfl
  have webChosen :
      (({} : Leases).forSubnet "10.87.0.0/24").choose "10.87.0.0/24" none
        ⟨10, 87, 0, 1⟩ = .ok ⟨10, 87, 0, 2⟩ := by
    decide +kernel
  have webGranted := leaseFor_fresh none_read webFacts rfl webChosen
  have webCareful : Careful none (bridgeConfig "web" none) := by
    refine (careful_iff none_read webFacts).mpr ⟨?_, fun _ => by decide⟩
    rintro _ ⟨⟩
  have reached := LeaseFile.Reached.lease (.start Tenancy.emptyFile_none)
    acceptedBridge_web webCareful webGranted
  have read :
      Leases.load {} (some Tenancy.webTable.toJson.toStringPretty) =
        .ok Tenancy.webTable :=
    Leases.load_toStringPretty {} Tenancy.webTable
  have dbFacts := bridgeFacts_bridgeConfig
    (show Network.requestedIp (bridgeConfig "db" (some "10.87.0.7")).network =
      .ok (some ⟨10, 87, 0, 7⟩) by decide +kernel) (by decide)
  have dbChosen :
      (Tenancy.webTable.forSubnet "10.87.0.0/24").choose "10.87.0.0/24"
        (some ⟨10, 87, 0, 7⟩) ⟨10, 87, 0, 1⟩ = .ok ⟨10, 87, 0, 7⟩ := by
    decide +kernel
  have dbGranted := leaseFor_fresh read dbFacts (by decide +kernel) dbChosen
  have dbCareful :
      Careful (some Tenancy.webTable.toJson.toStringPretty)
        (bridgeConfig "db" (some "10.87.0.7")) := by
    refine (careful_iff read dbFacts).mpr ⟨?_, by simp⟩
    rintro _ ⟨⟩
    decide
  exact ⟨_, _, reached, read, acceptedBridge_db, dbGranted,
    (usable_iff_careful reached acceptedBridge_db dbGranted).mpr dbCareful⟩

/-- The network address is handed out when it is asked for. -/
theorem network_address_handed_out :
    let _ := unitOps
    ¬ ∀ file after c host ip prefixLen,
      LeaseFile.Reached (fun _ _ => True) file → AcceptedBridge c →
      leaseFor host file c = .ok ((ip, prefixLen), after) →
      c.network.Usable ip := by
  intro _ usable
  have facts := bridgeFacts_bridgeConfig
    (show Network.requestedIp (bridgeConfig "web" (some "10.87.0.0")).network =
      .ok (some ⟨10, 87, 0, 0⟩) by decide +kernel) (by decide)
  have empty_read : Leases.load {} none = .ok {} := rfl
  have chosen :
      (({} : Leases).forSubnet "10.87.0.0/24").choose "10.87.0.0/24"
        (some ⟨10, 87, 0, 0⟩) ⟨10, 87, 0, 1⟩ = .ok ⟨10, 87, 0, 0⟩ := by
    decide +kernel
  have granted := leaseFor_fresh empty_read facts rfl chosen
  have inside := (usable none _ _ {} _ _ (.start Tenancy.emptyFile_none)
    acceptedBridge_network_address granted _ _ _ facts.cidr
    facts.gatewayAddr).1.1
  revert inside
  decide +kernel

end Myrun

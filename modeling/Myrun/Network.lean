import Myrun.PacketFilter
import Myrun.Store

namespace Myrun

/-!
# Container networking

The host side of `src/runtime/network.rs`: the bridge, the veth pair, the
address lease and the packet filter rules of one container, their removal, and
the search for interfaces that no live container owns.

What is created is registered with the rollback stack of the launch it belongs
to.  The stack holds descriptions of the undo actions, newest first.
-/

/-- `fnv1a`. -/
def fnv1a (data : List UInt8) : UInt64 :=
  data.foldl (fun h b => (h ^^^ b.toUInt64) * 0x100000001b3) 0xcbf29ce484222325

/-- `{:08x}`. -/
def hex8 (n : UInt32) : String :=
  let digits := Nat.toDigits 16 n.toNat
  String.ofList (List.replicate (8 - digits.length) '0' ++ digits)

/-- The hashed part of the interface names. -/
def vethSuffix (id : String) : String :=
  hex8 (fnv1a (id.toList.flatMap String.utf8EncodeChar)).toUInt32

/-- The first component of `veth_names`. -/
def hostVeth (id : String) : String :=
  "mrv" ++ vethSuffix id

/-- The second component of `veth_names`. -/
def peerVeth (id : String) : String :=
  "mrp" ++ vethSuffix id

/-- `CONTAINER_IFNAME`. -/
def containerIfname : String := "eth0"

/-- The undo actions that `launch` and `setup_host` register. -/
inductive Undo where
  | cgroup (path : String)
  | process (pid : Pid)
  | lease (id : String)
  | veth (name : String)
  | rules (id : String)
  | network (id : String) (net : NetworkState)
  deriving Repr, DecidableEq

/-- A step that registers undo actions. -/
abbrev HostTask := Staged HostOp HostAns Error (List Undo)

/-- `Rollback::push`. -/
def pushUndo (u : Undo) : HostTask Unit :=
  .modify fun undo => u :: undo

namespace Network

/-- `Netlink::link_index`. -/
def linkIndex (name : String) : HostAct (Option UInt32) :=
  .of (askHost (.linkIndex name))

/-- `Netlink::link_index_required`. -/
def linkIndexRequired (name : String) : HostAct UInt32 := do
  match ← linkIndex name with
  | some index => return index
  | none =>
      .ofExcept (.error (.notFound ("network interface " ++ debugStr name)))

/-- `Netlink::delete_link`. -/
def deleteLink (index : UInt32) : HostAct Unit :=
  .of (askHost (.deleteLink index))

/-- `EEXIST`. -/
def eexist : Int32 := 17

/-- `Error::is_errno`. -/
def isErrno (e : Error) (errno : Int32) : Bool :=
  match e with
  | .syscall _ n _ => n = errno
  | _ => false

/-- The bridge's index; it is created when it does not exist. -/
def bridgeIndex (bridge : String) : HostAct UInt32 := do
  match ← linkIndex bridge with
  | some index => return index
  | none => do
      Fallible.of (askHost (.createBridge bridge))
      Fault.check "after_bridge_create"
      linkIndexRequired bridge

/-- An address that is already there is fine. -/
def addGateway (bridge : String) (index : UInt32) (gateway : Ipv4)
    (prefixLen : UInt8) : HostAct Unit := do
  match ← (Fallible.of (askHost (.addAddress index gateway prefixLen)) :
      HostAct Unit).attempt with
  | .ok _ => return ()
  | .error e =>
      if isErrno e eexist then return ()
      else
        .ofExcept (.error (.container ("assigning " ++ formatIpv4 gateway ++
          "/" ++ toString prefixLen.toNat ++ " to bridge " ++ bridge ++ ": " ++
          e.display)))

/-- `ensure_bridge`. -/
def ensureBridge (bridge : String) (gateway : Ipv4) (prefixLen : UInt8) :
    HostAct UInt32 := do
  let index ← bridgeIndex bridge
  addGateway bridge index gateway prefixLen
  Fallible.of (askHost (.setUp index))
  return index

/-- The address asked for in the configuration. -/
def requestedIp (n : NetworkConfig) : Result (Option Ipv4) :=
  match n.ip with
  | some s => do
      let ip ← parseIpv4 s
      return some ip
  | none => .ok none

/-- `ipam::allocate`. -/
def allocateLease (subnet id : String) (requested : Option Ipv4)
    (gateway : Ipv4) : HostAct (Ipv4 × UInt8) :=
  .of (askHost (.leaseAllocate subnet id requested gateway))

/-- `Netlink::create_veth`. -/
def createVeth (host peer : String) : HostAct Unit :=
  .of (askHost (.createVeth host peer))

/-- Delete an interface left over from a crash with the same id. -/
def removeLeftoverVeth (host : String) : HostAct Unit := do
  match ← linkIndex host with
  | none => return ()
  | some _ => do
      match ← linkIndex host with
      | none => return ()
      | some index => do
          let _ ← (deleteLink index).attempt
          return ()

/-- Steps 3 and 4 of `setup_host`: enslave the host end, hand over the peer. -/
def connectVeth (n : NetworkConfig) (bridgeIdx : UInt32) (host peer : String)
    (pid : Pid) : HostAct Unit := do
  let hostIdx ← linkIndexRequired host
  let peerIdx ← linkIndexRequired peer
  Fallible.of (askHost (.setMtu hostIdx n.mtu))
  Fallible.of (askHost (.setMtu peerIdx n.mtu))
  Fallible.of (askHost (.setMaster hostIdx bridgeIdx))
  Fallible.of (askHost (.setUp hostIdx))
  Fault.check "after_veth_master"
  Fallible.of (askHost (.moveToNetns peerIdx pid containerIfname))
  Fault.check "after_netns_move"

/-- The network record of a bridged container. -/
def bridgedState (cfg : ContainerConfig) (ip gateway : Ipv4)
    (prefixLen : UInt8) : NetworkState where
  mode := cfg.network.mode.asStr
  bridge := some cfg.network.bridge
  hostVeth := some (hostVeth cfg.id)
  containerVeth := some containerIfname
  ip := some (formatIpv4 ip)
  prefixLen := prefixLen
  gateway := some (formatIpv4 gateway)
  published := cfg.network.publish

/-- The undo for the published ports, registered after the last of them. -/
def pushRulesUndo (cfg : ContainerConfig) : HostTask Unit :=
  if cfg.network.publish.isEmpty then return ()
  else pushUndo (.rules cfg.id)

/-- `setup_host` in bridge mode. -/
def setupBridged (cfg : ContainerConfig) (pid : Pid) :
    HostTask NetworkState := do
  if !(← PacketFilter.available) then
    .fail (.unsupported ("iptables is not usable, so bridge networking cannot " ++
      "be set up (install iptables, or use --network none)"))
  else do
    let n := cfg.network
    let (_, subnetLen) ← Staged.lift (.ofExcept (parseCidr n.subnet))
    let gateway ← Staged.lift (.ofExcept n.gatewayAddr)
    prepare .openNetlink
    let bridgeIdx ← ensureBridge n.bridge gateway subnetLen
    -- 1. lease an address
    let requested ← Staged.lift (.ofExcept (requestedIp n))
    let (ip, prefixLen) ← allocateLease n.subnet cfg.id requested gateway
    pushUndo (.lease cfg.id)
    Fault.check "after_ip_alloc"
    -- 2. create the veth pair
    removeLeftoverVeth (hostVeth cfg.id)
    createVeth (hostVeth cfg.id) (peerVeth cfg.id)
    pushUndo (.veth (hostVeth cfg.id))
    Fault.check "after_veth_create"
    connectVeth n bridgeIdx (hostVeth cfg.id) (peerVeth cfg.id) pid
    -- 5. NAT and published ports
    PacketFilter.setupBridge n.bridge n.subnet n.nat
    PacketFilter.publishEach cfg.id n.bridge ip n.publish
    pushRulesUndo cfg
    return bridgedState cfg ip gateway prefixLen

/-- `setup_host`. -/
def setupHost (cfg : ContainerConfig) (pid : Pid) : HostTask NetworkState :=
  match cfg.network.mode with
  | .none => return { mode := cfg.network.mode.asStr }
  | .host => return { mode := cfg.network.mode.asStr }
  | .bridge => setupBridged cfg pid

/-- `ipam::release`. -/
def releaseLease (id : String) : HostAct Unit :=
  .of (askHost (.leaseRelease id))

/-- Delete the host end of a pair if it outlived the container. -/
def deleteHostVeth (name : String) : HostAct Unit := do
  prepare .openNetlink
  match ← linkIndex name with
  | some index => deleteLink index
  | none => return ()

/-- Delete the recorded host end; failures are logged only. -/
def deleteRecordedVeth : Option String → HostAct Unit
  | none => return ()
  | some name => do
      let _ ← (deleteHostVeth name).attempt
      return ()

/-- `network::teardown`. -/
def teardown (id : String) (net : NetworkState) : HostAct Unit :=
  if net.mode ≠ "bridge" then do
    let _ ← (releaseLease id).attempt
    return ()
  else do
    let _ ← PacketFilter.cleanup id
    deleteRecordedVeth net.hostVeth
    let _ ← (releaseLease id).attempt
    return ()

/-- Does an interface name belong to a container? -/
def isHostVeth (name : String) : Bool :=
  startsWith "mrv" name

/-- `remove_bridge_if_unused`. -/
def removeBridgeIfUnused (bridge : String) : HostAct Bool := do
  prepare .openNetlink
  match ← linkIndex bridge with
  | none => return false
  | some index => do
      let links ← .of (askHost .listLinks)
      if links.any isHostVeth then return false
      deleteLink index
      return true

/-- `orphaned_veths`. -/
def orphanedVeths (liveIds : List String) : HostAct (List String) := do
  prepare .openNetlink
  let links ← .of (askHost .listLinks)
  let expected := liveIds.map hostVeth
  return links.filter fun l => isHostVeth l && !expected.contains l

end Network

end Myrun

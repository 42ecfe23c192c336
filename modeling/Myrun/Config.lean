import Myrun.Address
import Myrun.Capability
import Myrun.Json

namespace Myrun

/-!
# The container configuration

`src/config.rs`: the records that describe a container, their textual forms,
and the two codecs between a record and a JSON document.  Decoding starts from
the built-in defaults and overrides what the document gives; the accessors it
uses skip values of a wrong kind.
-/

/-! ## Sizes -/

/-- The suffixes `parse_size` recognises, in the order in which it tries them. -/
def sizeSuffixes : List (String × UInt64) :=
  [("kib", 1024), ("mib", 1024 * 1024), ("gib", 1024 * 1024 * 1024),
    ("kb", 1024), ("mb", 1024 * 1024), ("gb", 1024 * 1024 * 1024),
    ("k", 1024), ("m", 1024 * 1024), ("g", 1024 * 1024 * 1024), ("b", 1)]

/-- The number part and the multiplier of a lower-case size. -/
def splitSize (t : String) : List (String × UInt64) → String × UInt64
  | [] => (t, 1)
  | (unit, mult) :: rest =>
      match stripTrailing unit t with
      | some number => (number, mult)
      | none => splitSize t rest

/-- The spellings of "no limit". -/
def isUnlimited (s : String) : Bool :=
  let t := toAsciiLowercase (trim s)
  t = "-1" || t = "max" || t = "unlimited"

/-- `parse_size`. -/
def parseSize [F64Ops] (s : String) : Result (Option UInt64) :=
  let t := toAsciiLowercase (trim s)
  if t.isEmpty then .error (.config "empty size value")
  else if isUnlimited s then .ok none
  else
    let (number, mult) := splitSize t sizeSuffixes
    match F64Ops.parse (trimChars number.toList) with
    | none => .error (.config ("cannot parse size " ++ debugStr s))
    | some n =>
        if n.isBelowZero then
          .error (.config ("negative size " ++ debugStr s))
        else .ok (some (F64Ops.mul n (F64Ops.ofU64 mult)).asU64)

/-! ## Decoding helpers -/

/-- Decode a section that is present, keep the initial value otherwise. -/
def decodeOr {α β : Type} (initial : β) (decode : α → Result β) :
    Option α → Result β
  | some value => decode value
  | none => .ok initial

@[simp] theorem decodeOr_some {α β : Type} (initial : β)
    (decode : α → Result β) (value : α) :
    decodeOr initial decode (some value) = decode value := rfl

@[simp] theorem decodeOr_none {α β : Type} (initial : β)
    (decode : α → Result β) :
    decodeOr initial decode none = .ok initial := rfl

/-- `ok_or_else` with a configuration error. -/
def requireField {α : Type} (message : String) : Option α → Result α
  | some value => .ok value
  | none => .error (.config message)

namespace Json

/-- `j.get(key).and_then(|v| v.as_str())`. -/
def strField (j : Json) (key : String) : Option String :=
  (j.get key).bind asStr

/-- `j.get(key).and_then(|v| v.as_bool())`. -/
def boolField (j : Json) (key : String) : Option Bool :=
  (j.get key).bind asBool

/-- `j.get(key).and_then(|v| v.as_u64())`. -/
def u64Field (j : Json) (key : String) : Option UInt64 :=
  (j.get key).bind asU64

/-- `j.get(key).and_then(|v| v.as_array())`. -/
def arrayField (j : Json) (key : String) : Option (List Json) :=
  (j.get key).bind asArray

/-- The strings among the items of an array. -/
def stringItems (items : List Json) : List String :=
  items.filterMap asStr

/-- An optional value, `Null` when absent. -/
def ofOption {α : Type} (encode : α → Json) : Option α → Json
  | some value => encode value
  | none => null

/-- `Json::Int(v as i64)` of an unsigned 64-bit number. -/
def ofU64 (v : UInt64) : Json :=
  int v.toInt64

/-- An object built by successive `set` calls on an empty one. -/
def ofSets (members : List (String × Json)) : Json :=
  members.foldl (fun o member => o.set member.1 member.2) (obj [])

end Json

/-! ## Network mode and port mappings -/

/-- How the container is connected. -/
inductive NetworkMode where
  | none
  | bridge
  | host
  deriving Repr, DecidableEq

namespace NetworkMode

/-- `NetworkMode::as_str`. -/
def asStr : NetworkMode → String
  | none => "none"
  | bridge => "bridge"
  | host => "host"

/-- `NetworkMode::parse`. -/
def parse (s : String) : Result NetworkMode :=
  let word := toAsciiLowercase (trim s)
  if word = "none" then .ok none
  else if word = "bridge" then .ok bridge
  else if word = "host" then .ok host
  else
    .error (.config ("unknown network mode " ++ debugStr word ++
      " (expected none|bridge|host)"))

end NetworkMode

/-- A published port. -/
structure PortMapping where
  hostPort : UInt16
  containerPort : UInt16
  protocol : String
  deriving Repr, DecidableEq

namespace PortMapping

/-- `PortMapping::parse`. -/
def parse (s : String) : Result PortMapping := do
  let (spec, protocol) :=
    match splitOnce '/' s with
    | some (a, p) => (a, toAsciiLowercase p)
    | none => (s, "tcp")
  if protocol ≠ "tcp" ∧ protocol ≠ "udp" then
    .error (.config ("unsupported protocol " ++ debugStr protocol ++
      " in port mapping " ++ debugStr s))
  else
    let (h, c) := (splitOnce ':' spec).getD (spec, spec)
    match parseU16 (trim h) with
    | none => .error (.config ("invalid host port in " ++ debugStr s))
    | some hostPort =>
        match parseU16 (trim c) with
        | none => .error (.config ("invalid container port in " ++ debugStr s))
        | some containerPort =>
            if hostPort = 0 ∨ containerPort = 0 then
              .error (.config "port 0 is not valid in a mapping")
            else .ok { hostPort, containerPort, protocol }

/-- `PortMapping::to_json`. -/
def toJson (p : PortMapping) : Json :=
  Json.ofSets
    [("host_port", .int (Int64.ofNat p.hostPort.toNat)),
      ("container_port", .int (Int64.ofNat p.containerPort.toNat)),
      ("protocol", .str p.protocol)]

/-- One entry of `publish` in `NetworkConfig::from_json`. -/
def fromJson (p : Json) : Result PortMapping :=
  match p.asStr with
  | some s => parse s
  | none => do
      let host ← requireField "publish entry needs a host port"
        (((p.get "host").or (p.get "host_port")).bind Json.asU64)
      let cport ← requireField "publish entry needs a container port"
        (((p.get "container").or (p.get "container_port")).bind Json.asU64)
      return {
        hostPort := host.toUInt16
        containerPort := cport.toUInt16
        protocol := (p.strField "protocol").getD "tcp" }

end PortMapping

/-! ## Mounts -/

/-- A volume. -/
structure MountSpec where
  source : String
  destination : String
  fstype : String
  readonly : Bool
  deriving Repr, DecidableEq

namespace MountSpec

/-- The third part of a mount, `ro` or `rw`. -/
def parseOption : Option String → Result Bool
  | none => .ok false
  | some "ro" => .ok true
  | some "rw" => .ok false
  | some other =>
      .error (.config ("invalid mount option " ++ debugStr other ++
        " (expected ro or rw)"))

/-- `MountSpec::parse`. -/
def parse (s : String) : Result MountSpec :=
  let build (source destination : String) (option : Option String) :
      Result MountSpec := do
    let readonly ← parseOption option
    if startsWithChar '/' destination then
      return {
        source
        destination
        fstype := if source = "tmpfs" then "tmpfs" else "bind"
        readonly }
    else
      .error (.config ("mount destination " ++ debugStr destination ++
        " must be absolute"))
  match split ':' s with
  | [source, destination] => build source destination none
  | [source, destination, option] => build source destination (some option)
  | _ =>
      .error (.config ("invalid mount " ++ debugStr s ++
        "; expected source:destination[:ro]"))

/-- `MountSpec::to_json`. -/
def toJson (m : MountSpec) : Json :=
  Json.ofSets
    [("source", .str m.source), ("destination", .str m.destination),
      ("type", .str m.fstype), ("readonly", .bool m.readonly)]

/-- One entry of `mounts` in `ContainerConfig::from_json`. -/
def fromJson (m : Json) : Result MountSpec :=
  match m.asStr with
  | some s => parse s
  | none => do
      let source ← requireField "mount entry needs a source"
        (m.strField "source")
      let destination ← requireField "mount entry needs a destination"
        (m.strField "destination")
      return {
        source
        destination
        fstype := (m.strField "type").getD "bind"
        readonly := (m.boolField "readonly").getD false }

end MountSpec

/-! ## Resources -/

/-- Resource limits. -/
structure Resources where
  memory : Option UInt64 := none
  memorySwap : Option UInt64 := none
  cpus : Option F64 := none
  cpuWeight : Option UInt64 := none
  pids : Option UInt64 := none
  deriving Repr, DecidableEq

namespace Resources

/-- `CPU_PERIOD_US`. -/
def cpuPeriodUs : UInt64 := 100000

/-- `{}` of an unsigned number. -/
def numberText (v : UInt64) : String :=
  toString v.toNat

/-- `Resources::cpu_max_value`. -/
def cpuMaxValue [F64Ops] (r : Resources) : Option String :=
  r.cpus.map fun c =>
    let quota :=
      (F64Ops.round (F64Ops.mul c (F64Ops.ofU64 cpuPeriodUs))).asU64
    numberText (max quota 1000) ++ " " ++ numberText cpuPeriodUs

/-- `Resources::is_empty`. -/
def isEmpty (r : Resources) : Bool :=
  r.memory.isNone && r.memorySwap.isNone && r.cpus.isNone &&
    r.cpuWeight.isNone && r.pids.isNone

/-- `Resources::to_json`. -/
def toJson (r : Resources) : Json :=
  Json.ofSets
    [("memory", Json.ofOption Json.ofU64 r.memory),
      ("memory_swap", Json.ofOption Json.ofU64 r.memorySwap),
      ("cpus", Json.ofOption Json.float r.cpus),
      ("cpu_weight", Json.ofOption Json.ofU64 r.cpuWeight),
      ("pids", Json.ofOption Json.ofU64 r.pids)]

/-- The `num_or_size` closure of `Resources::from_json`. -/
def numOrSize [F64Ops] (j : Json) (key : String) : Result (Option UInt64) :=
  match j.get key with
  | none => .ok none
  | some .null => .ok none
  | some (.str s) => parseSize s
  | some v => .ok v.asU64

/-- `Resources::from_json`. -/
def fromJson [F64Ops] (j : Json) : Result Resources := do
  let memory ← numOrSize j "memory"
  let memorySwap ← numOrSize j "memory_swap"
  return {
    memory
    memorySwap
    cpus := (j.get "cpus").bind Json.asF64
    cpuWeight := j.u64Field "cpu_weight"
    pids := j.u64Field "pids" }

end Resources

/-! ## Network -/

/-- `DEFAULT_BRIDGE`. -/
def defaultBridge : String := "myrun0"

/-- `DEFAULT_SUBNET`. -/
def defaultSubnet : String := "10.87.0.0/24"

/-- `DEFAULT_MTU`. -/
def defaultMtu : UInt32 := 1500

/-- Network settings. -/
structure NetworkConfig where
  mode : NetworkMode := .none
  bridge : String := defaultBridge
  subnet : String := defaultSubnet
  ip : Option String := none
  gateway : Option String := none
  mtu : UInt32 := defaultMtu
  publish : List PortMapping := []
  nat : Bool := true
  dns : List String := ["1.1.1.1", "8.8.8.8"]
  deriving Repr, DecidableEq

namespace NetworkConfig

/-- `NetworkConfig::gateway_addr`. -/
def gatewayAddr (n : NetworkConfig) : Result Ipv4 :=
  match n.gateway with
  | some g => parseIpv4 g
  | none => do
      let (net, prefixLen) ← parseCidr n.subnet
      return Ipv4.ofU32 ((net.toU32 &&& maskOf prefixLen) + 1)

/-- `NetworkConfig::to_json`. -/
def toJson (n : NetworkConfig) : Json :=
  Json.ofSets
    [("mode", .str n.mode.asStr), ("bridge", .str n.bridge),
      ("subnet", .str n.subnet), ("ip", Json.ofOption Json.str n.ip),
      ("gateway", Json.ofOption Json.str n.gateway),
      ("mtu", .int (Int64.ofNat n.mtu.toNat)),
      ("publish", .arr (n.publish.map PortMapping.toJson)),
      ("nat", .bool n.nat), ("dns", Json.strings n.dns)]

/-- `NetworkConfig::from_json`. -/
def fromJson (j : Json) : Result NetworkConfig := do
  let initial : NetworkConfig := {}
  let mode ← decodeOr initial.mode NetworkMode.parse (j.strField "mode")
  let publish ← decodeOr initial.publish (List.mapM PortMapping.fromJson)
    (j.arrayField "publish")
  return {
    mode
    bridge := (j.strField "bridge").getD initial.bridge
    subnet := (j.strField "subnet").getD initial.subnet
    ip := j.strField "ip"
    gateway := j.strField "gateway"
    mtu := ((j.u64Field "mtu").map UInt64.toUInt32).getD initial.mtu
    publish
    nat := (j.boolField "nat").getD initial.nat
    dns := ((j.arrayField "dns").map Json.stringItems).getD initial.dns }

end NetworkConfig

/-! ## Security -/

/-- `DEFAULT_MASKED_PATHS`. -/
def defaultMaskedPaths : List String :=
  ["/proc/kcore", "/proc/keys", "/proc/latency_stats", "/proc/timer_list",
    "/proc/timer_stats", "/proc/sched_debug", "/proc/scsi", "/sys/firmware",
    "/sys/devices/virtual/powercap"]

/-- `DEFAULT_READONLY_PATHS`. -/
def defaultReadonlyPaths : List String :=
  ["/proc/bus", "/proc/fs", "/proc/irq", "/proc/sys", "/proc/sysrq-trigger"]

/-- The message of both failures of `parse_user`. -/
def userError (s : String) : Error :=
  .config ("--user expects numeric uid[:gid], got " ++ debugStr s)

/-- `parse_user`. -/
def parseUser (s : String) : Result (UInt32 × UInt32) := do
  let (u, g) :=
    match splitOnce ':' s with
    | some (a, b) => (a, some b)
    | none => (s, none)
  match parseU32 (trim u) with
  | none => .error (userError s)
  | some uid =>
      match g with
      | none => .ok (uid, uid)
      | some g =>
          match parseU32 (trim g) with
          | none => .error (userError s)
          | some gid => .ok (uid, gid)

/-- `format!("{}:{}", u, g)` of a user. -/
def userText (user : UInt32 × UInt32) : String :=
  String.ofList (Nat.toDigits 10 user.1.toNat ++
    ':' :: Nat.toDigits 10 user.2.toNat)

/-- Confinement settings. -/
structure SecurityConfig where
  noNewPrivs : Bool := true
  capAdd : List String := []
  capDrop : List String := []
  seccomp : SeccompMode := .default
  maskedPaths : List String := defaultMaskedPaths
  readonlyPaths : List String := defaultReadonlyPaths
  user : Option (UInt32 × UInt32) := none
  privileged : Bool := false
  deriving Repr, DecidableEq

namespace SecurityConfig

/-- `SecurityConfig::cap_mask`. -/
def capMask (s : SecurityConfig) : Result UInt64 :=
  if s.privileged then .ok allCaps
  else do
    let mask ← resolveKeepSet defaultKeep s.capAdd s.capDrop
    if s.user.isSome then do
      let setuid ← parseCap "SETUID"
      let setgid ← parseCap "SETGID"
      return mask ||| capBit setuid ||| capBit setgid
    else return mask

/-- `SecurityConfig::to_json`. -/
def toJson (s : SecurityConfig) : Json :=
  Json.ofSets
    [("no_new_privs", .bool s.noNewPrivs),
      ("cap_add", Json.strings s.capAdd),
      ("cap_drop", Json.strings s.capDrop),
      ("seccomp", .str s.seccomp.asStr),
      ("masked_paths", Json.strings s.maskedPaths),
      ("readonly_paths", Json.strings s.readonlyPaths),
      ("user", Json.ofOption (fun user => .str (userText user)) s.user),
      ("privileged", .bool s.privileged)]

/-- The `strings` closure of `SecurityConfig::from_json`. -/
def stringsField (j : Json) (key : String) (initial : List String) :
    List String :=
  ((j.arrayField key).map Json.stringItems).getD initial

/-- `SecurityConfig::from_json`. -/
def fromJson (j : Json) : Result SecurityConfig := do
  let initial : SecurityConfig := {}
  let seccomp ← decodeOr initial.seccomp SeccompMode.parse
    (j.strField "seccomp")
  let user ← decodeOr initial.user (fun v => (parseUser v).map some)
    (j.strField "user")
  return {
    noNewPrivs := (j.boolField "no_new_privs").getD initial.noNewPrivs
    capAdd := stringsField j "cap_add" initial.capAdd
    capDrop := stringsField j "cap_drop" initial.capDrop
    seccomp
    maskedPaths := stringsField j "masked_paths" initial.maskedPaths
    readonlyPaths := stringsField j "readonly_paths" initial.readonlyPaths
    user
    privileged := (j.boolField "privileged").getD initial.privileged }

end SecurityConfig

/-! ## Namespaces -/

/-- Which namespaces to unshare. -/
structure Namespaces where
  pid : Bool := true
  mount : Bool := true
  uts : Bool := true
  ipc : Bool := true
  net : Bool := true
  cgroup : Bool := true
  deriving Repr, DecidableEq

namespace Namespaces

/-- `Namespaces::to_json`. -/
def toJson (n : Namespaces) : Json :=
  Json.ofSets
    [("pid", .bool n.pid), ("mount", .bool n.mount), ("uts", .bool n.uts),
      ("ipc", .bool n.ipc), ("net", .bool n.net), ("cgroup", .bool n.cgroup)]

/-- `Namespaces::from_json`. -/
def fromJson (j : Json) : Namespaces :=
  let initial : Namespaces := {}
  { pid := (j.boolField "pid").getD initial.pid
    mount := (j.boolField "mount").getD initial.mount
    uts := (j.boolField "uts").getD initial.uts
    ipc := (j.boolField "ipc").getD initial.ipc
    net := (j.boolField "net").getD initial.net
    cgroup := (j.boolField "cgroup").getD initial.cgroup }

end Namespaces

/-! ## The whole configuration -/

/-- `DEFAULT_PATH`. -/
def defaultPath : String :=
  "/usr/local/sbin:/usr/local/bin:/usr/sbin:/usr/bin:/sbin:/bin"

/-- The environment a configuration starts from. -/
def defaultEnv : List String :=
  ["PATH=" ++ defaultPath, "TERM=xterm"]

/-- `ContainerConfig`. -/
structure ContainerConfig where
  id : String := ""
  name : Option String := none
  rootfs : String := ""
  command : List String := []
  env : List String := defaultEnv
  cwd : String := "/"
  hostname : String := ""
  readOnly : Bool := false
  mounts : List MountSpec := []
  resources : Resources := {}
  network : NetworkConfig := {}
  security : SecurityConfig := {}
  namespaces : Namespaces := {}
  detach : Bool := false
  autoRemove : Bool := false
  labels : List (String × String) := []
  deriving Repr, DecidableEq

/-- The key of an environment setting: the text before the first `=`. -/
def envKey (kv : String) : String :=
  match splitOnce '=' kv with
  | some (k, _) => k
  | none => kv

/-- `set_env` on the list of settings. -/
def setEnvList (env : List String) (kv : String) : List String :=
  env.filter (fun e => !startsWith (envKey kv ++ "=") e) ++ [kv]

namespace ContainerConfig

/-- `ContainerConfig::set_env`. -/
def setEnv (c : ContainerConfig) (kv : String) : ContainerConfig :=
  { c with env := setEnvList c.env kv }

/-- The command of a document: an array of strings, or one bare string. -/
def commandFromJson (j : Json) (initial : List String) : List String :=
  match j.arrayField "command" with
  | some items => Json.stringItems items
  | none =>
      match j.strField "command" with
      | some s => [s]
      | none => initial

/-- The settings of `environment`, as `KEY=VALUE` texts. -/
def environmentSettings : List (String × Json) → List String
  | [] => []
  | (k, v) :: rest =>
      match v.asStr with
      | some value => (k ++ "=" ++ value) :: environmentSettings rest
      | none => environmentSettings rest

/-- Every environment setting of a document, in the order it is applied. -/
def envSettings (j : Json) : List String :=
  ((j.arrayField "env").map Json.stringItems).getD [] ++
    (((j.get "environment").bind Json.asObject).map
      environmentSettings).getD []

/-- The labels of a document. -/
def labelsFromJson : List (String × Json) → List (String × String)
  | [] => []
  | (k, v) :: rest =>
      match v.asStr with
      | some value => (k, value) :: labelsFromJson rest
      | none => labelsFromJson rest

/-- `ContainerConfig::from_json`. -/
def fromJson [F64Ops] (j : Json) : Result ContainerConfig := do
  let initial : ContainerConfig := {}
  let mounts ← decodeOr initial.mounts (List.mapM MountSpec.fromJson)
    (j.arrayField "mounts")
  let resources ← decodeOr initial.resources Resources.fromJson
    (j.get "resources")
  let network ← decodeOr initial.network NetworkConfig.fromJson
    (j.get "network")
  let security ← decodeOr initial.security SecurityConfig.fromJson
    (j.get "security")
  return {
    id := (j.strField "id").getD initial.id
    name := j.strField "name"
    rootfs := (j.strField "rootfs").getD initial.rootfs
    command := commandFromJson j initial.command
    env := (envSettings j).foldl setEnvList initial.env
    cwd := (((j.get "cwd").or (j.get "workdir")).bind Json.asStr).getD
      initial.cwd
    hostname := (j.strField "hostname").getD initial.hostname
    readOnly := (j.boolField "read_only").getD initial.readOnly
    mounts
    resources
    network
    security
    namespaces := ((j.get "namespaces").map Namespaces.fromJson).getD
      initial.namespaces
    autoRemove := (j.boolField "auto_remove").getD initial.autoRemove
    labels := (((j.get "labels").bind Json.asObject).map
      labelsFromJson).getD initial.labels }

/-- `ContainerConfig::to_json`. -/
def toJson (c : ContainerConfig) : Json :=
  Json.ofSets
    [("id", .str c.id), ("name", Json.ofOption Json.str c.name),
      ("rootfs", .str c.rootfs), ("command", Json.strings c.command),
      ("env", Json.strings c.env), ("cwd", .str c.cwd),
      ("hostname", .str c.hostname), ("read_only", .bool c.readOnly),
      ("auto_remove", .bool c.autoRemove),
      ("mounts", .arr (c.mounts.map MountSpec.toJson)),
      ("resources", c.resources.toJson), ("network", c.network.toJson),
      ("security", c.security.toJson), ("namespaces", c.namespaces.toJson),
      ("labels",
        Json.ofSets (c.labels.map fun label => (label.1, .str label.2)))]

end ContainerConfig

end Myrun

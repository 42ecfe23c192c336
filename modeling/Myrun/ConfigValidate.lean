import Myrun.Config

namespace Myrun

/-!
# Validation of a configuration

`finalize_and_validate` of `src/config.rs` fills in what can be derived and
rejects impossible combinations, in the order of the source.  What it asks of
the host (a fresh identifier, the canonical form of a path, which paths exist)
is a parameter.
-/

/-- What validation asks of the host. -/
structure ConfigHost where
  generateId : String
  canonicalize : String → Except String String
  isDir : String → Bool
  pathExists : String → Bool

/-- `short_id`: the first twelve characters. -/
def shortId (id : String) : String :=
  String.ofList (id.toList.take 12)

/-- A character allowed in a container id or name. -/
def isIdChar (c : Char) : Bool :=
  isAsciiAlphanumeric c || c = '-' || c = '_' || c = '.'

/-- A character allowed in a host name. -/
def isHostnameChar (c : Char) : Bool :=
  isAsciiAlphanumeric c || c = '-' || c = '.'

/-- A failed check is an error with a configuration message. -/
def requireConfig (condition : Prop) [Decidable condition]
    (message : String) : Result Unit :=
  if condition then .ok () else .error (.config message)

/-- `validate_id`. -/
def validateId (id : String) : Result Unit := do
  requireConfig (id.isEmpty = false ∧ byteLen id ≤ 64)
    "container id must be between 1 and 64 characters"
  requireConfig (id.toList.all isIdChar = true)
    ("container id " ++ debugStr id ++ " may only contain [A-Za-z0-9._-]")
  requireConfig (startsWithChar '.' id = false)
    "container id may not start with '.'"

namespace Resources

/-- The resource checks of `finalize_and_validate`. -/
def validate (r : Resources) : Result Unit := do
  requireConfig (r.memory.all fun memory => 512 * 1024 ≤ memory)
    ("memory limit must be at least 512k; smaller values make the kernel " ++
      "OOM-kill the container immediately")
  requireConfig
    (r.memorySwap.all fun swap => r.memory.all fun memory => memory ≤ swap)
    "memory-swap must be greater than or equal to memory"
  requireConfig (r.cpus.all fun c => c.isFinite && c.positive)
    "--cpus must be a positive number"
  requireConfig (r.cpus.all fun c => !c.exceeds1024)
    "--cpus is absurdly large (max 1024)"
  requireConfig (r.cpuWeight.all fun w => 1 ≤ w && w ≤ 10000)
    "--cpu-weight must be between 1 and 10000"
  requireConfig (r.pids.all fun p => 1 ≤ p) "--pids must be at least 1"

end Resources

namespace NetworkConfig

/-- The loop over the published ports, with the keys seen so far. -/
def checkPublished :
    List PortMapping → List (UInt16 × String) → Result Unit
  | [], _ => .ok ()
  | p :: rest, seen =>
      if (p.hostPort, p.protocol) ∈ seen then
        .error (.config ("host port " ++ toString p.hostPort.toNat ++ "/" ++
          p.protocol ++ " is published twice"))
      else checkPublished rest (seen ++ [(p.hostPort, p.protocol)])

/-- The explicit address must be inside the subnet and not the gateway. -/
def checkAddress (n : NetworkConfig) (net : Ipv4) (prefixLen : UInt8)
    (gateway : Ipv4) : Result Unit :=
  match n.ip with
  | none => .ok ()
  | some ip => do
      let addr ← parseIpv4 ip
      requireConfig (inSubnet addr net prefixLen = true)
        ("--ip " ++ formatIpv4 addr ++ " is outside subnet " ++ n.subnet)
      requireConfig (addr ≠ gateway)
        ("--ip " ++ formatIpv4 addr ++
          " collides with the bridge gateway address")

/-- The checks of the bridge mode. -/
def validateBridge (n : NetworkConfig) : Result Unit := do
  let (net, prefixLen) ← parseCidr n.subnet
  requireConfig (prefixLen ≤ 30)
    ("bridge subnet must be /30 or larger to hold a gateway and a " ++
      "container")
  let gateway ← n.gatewayAddr
  n.checkAddress net prefixLen gateway
  checkPublished n.publish []

end NetworkConfig

namespace ContainerConfig

/-- The network checks; they may switch the network namespace off. -/
def validateNetwork (c : ContainerConfig) : Result Namespaces :=
  match c.network.mode with
  | .host => do
      requireConfig (c.network.publish.isEmpty = true)
        ("--publish is meaningless with --network host; the container " ++
          "already shares host ports")
      return { c.namespaces with net := false }
  | .none => do
      requireConfig (c.network.publish.isEmpty = true)
        "--publish requires --network bridge"
      return c.namespaces
  | .bridge => do
      requireConfig (c.namespaces.net = true)
        "--network bridge requires a network namespace"
      c.network.validateBridge
      return c.namespaces

/-- The root file system checks; the path becomes canonical. -/
def validateRootfs (host : ConfigHost) (c : ContainerConfig) :
    Result String := do
  requireConfig (c.rootfs.isEmpty = false) "no rootfs given"
  match host.canonicalize c.rootfs with
  | .error e => .error (.config (c.rootfs ++ ": " ++ e))
  | .ok canon => do
      requireConfig (host.isDir canon = true)
        ("rootfs " ++ canon ++ " is not a directory")
      requireConfig (canon ≠ "/")
        ("refusing to use / as a container rootfs; pivot_root would " ++
          "detach the host")
      return canon

/-- The checks of the bind mounts, in order. -/
def validateMounts (host : ConfigHost) : List MountSpec → Result Unit
  | [] => .ok ()
  | m :: rest => do
      requireConfig (¬ (m.fstype = "bind" ∧ host.pathExists m.source = false))
        ("bind mount source " ++ m.source ++ " does not exist")
      validateMounts host rest

/-- The host name: as given, or the name, or the short id. -/
def derivedHostname (c : ContainerConfig) : String :=
  if c.hostname.isEmpty then c.name.getD (shortId c.id) else c.hostname

/-- The identifier checks. -/
def validateIdentity (c : ContainerConfig) : Result Unit := do
  validateId c.id
  match c.name with
  | some n => validateId n
  | none => pure ()
  requireConfig (byteLen c.derivedHostname ≤ 64)
    "hostname must be at most 64 characters"
  requireConfig (c.derivedHostname.toList.all isHostnameChar = true)
    ("hostname " ++ debugStr c.derivedHostname ++
      " contains invalid characters")

/-- The command and working directory checks. -/
def validateCommand (c : ContainerConfig) : Result Unit := do
  match c.command with
  | [] => .error (.config "no command given for the container")
  | first :: _ =>
      requireConfig (first.isEmpty = false) "container command is empty"
  requireConfig (startsWithChar '/' c.cwd = true)
    ("working directory " ++ debugStr c.cwd ++ " must be absolute")

/-- A generated identifier when none is given. -/
def withId (host : ConfigHost) (c : ContainerConfig) : ContainerConfig :=
  if c.id.isEmpty then { c with id := host.generateId } else c

/-- The derived host name, also in the environment. -/
def withHostname (c : ContainerConfig) : ContainerConfig :=
  ({ c with hostname := c.derivedHostname } : ContainerConfig).setEnv
    ("HOSTNAME=" ++ c.derivedHostname)

/-- The root file system is looked up only when it is required. -/
def finalRootfs (host : ConfigHost) (requireRootfs : Bool)
    (c : ContainerConfig) : Result String :=
  if requireRootfs then c.validateRootfs host else .ok c.rootfs

/-- Privileged means no confinement at all. -/
def finalSecurity (c : ContainerConfig) : SecurityConfig :=
  if c.security.privileged then { c.security with seccomp := .unconfined }
  else c.security

/-- `finalize_and_validate` once identifier and host name are filled in. -/
def finalize (host : ConfigHost) (requireRootfs : Bool)
    (c : ContainerConfig) : Result ContainerConfig := do
  c.validateCommand
  let rootfs ← c.finalRootfs host requireRootfs
  validateMounts host c.mounts
  c.resources.validate
  let namespaces ← c.validateNetwork
  requireConfig (68 ≤ c.network.mtu ∧ c.network.mtu ≤ 65535)
    "--mtu must be between 68 and 65535"
  let _ ← c.security.capMask
  return { c with rootfs, namespaces, security := c.finalSecurity }

/-- `ContainerConfig::finalize_and_validate`. -/
def finalizeAndValidate (host : ConfigHost) (requireRootfs : Bool)
    (c : ContainerConfig) : Result ContainerConfig := do
  (c.withId host).validateIdentity
  (c.withId host).withHostname.finalize host requireRootfs

end ContainerConfig

/-! ## What a successful validation says -/

theorem requireConfig_eq_ok
    {condition : Prop}
    [Decidable condition]
    {message : String} :
    requireConfig condition message = .ok () ↔ condition := by
  unfold requireConfig
  split
  · rename_i holds
    simp [holds]
  · rename_i fails
    simp [fails]

/-- The resource limits that pass validation. -/
structure Resources.Valid (r : Resources) : Prop where
  memory : ∀ memory ∈ r.memory, 512 * 1024 ≤ memory
  swap : ∀ swap ∈ r.memorySwap, ∀ memory ∈ r.memory, memory ≤ swap
  cpusFinite : ∀ c ∈ r.cpus, c.isFinite = true ∧ c.positive = true
  cpusBound : ∀ c ∈ r.cpus, c.exceeds1024 = false
  weight : ∀ w ∈ r.cpuWeight, 1 ≤ w ∧ w ≤ 10000
  pids : ∀ p ∈ r.pids, 1 ≤ p

private theorem Resources.valid_of_validate
    {r : Resources}
    {done : Unit}
    (accepted : r.validate = .ok done) :
    r.Valid := by
  unfold Resources.validate at accepted
  simp only [Result.bind_eq_ok] at accepted
  obtain ⟨_, memory, _, swap, _, cpusFinite, _, cpusBound, _, weight, pids⟩ :=
    accepted
  rw [requireConfig_eq_ok] at memory swap cpusFinite cpusBound weight pids
  simp only [Option.all_eq_true, Bool.and_eq_true, decide_eq_true_eq,
    Bool.not_eq_true'] at memory swap cpusFinite cpusBound weight pids
  exact ⟨memory, swap, cpusFinite, cpusBound, weight, pids⟩

/--
What validation leaves behind: checked resources, the environment with the
host name set last, and the labels as they were.
-/
structure Validated (before after : ContainerConfig) : Prop where
  resources : after.resources = before.resources
  limits : after.resources.Valid
  env : ∃ hostname, after.env = setEnvList before.env ("HOSTNAME=" ++ hostname)
  labels : after.labels = before.labels

private theorem finalize_ok
    {host : ConfigHost}
    {requireRootfs : Bool}
    {before after : ContainerConfig}
    (accepted : before.finalize host requireRootfs = .ok after) :
    after.resources = before.resources ∧ after.env = before.env ∧
      after.labels = before.labels ∧ before.resources.Valid := by
  unfold ContainerConfig.finalize at accepted
  simp only [Result.bind_eq_ok, Result.pure_eq_ok] at accepted
  obtain ⟨_, _, _, _, _, _, _, limits, _, _, _, _, _, _, same⟩ := accepted
  have fields := Except.ok.inj same
  subst fields
  exact ⟨rfl, rfl, rfl, Resources.valid_of_validate limits⟩

theorem finalizeAndValidate_ok
    {host : ConfigHost}
    {requireRootfs : Bool}
    {before after : ContainerConfig}
    (accepted :
      before.finalizeAndValidate host requireRootfs = .ok after) :
    Validated before after := by
  unfold ContainerConfig.finalizeAndValidate at accepted
  simp only [Result.bind_eq_ok] at accepted
  obtain ⟨_, _, finalized⟩ := accepted
  obtain ⟨resources, env, labels, limits⟩ := finalize_ok finalized
  have identified :
      (before.withId host).resources = before.resources ∧
        (before.withId host).env = before.env ∧
        (before.withId host).labels = before.labels := by
    unfold ContainerConfig.withId
    split <;> exact ⟨rfl, rfl, rfl⟩
  obtain ⟨sameResources, sameEnv, sameLabels⟩ := identified
  exact {
    resources := resources.trans sameResources
    limits := resources ▸ limits
    env := ⟨_, env.trans (congrArg (setEnvList · _) sameEnv)⟩
    labels := labels.trans sameLabels }

end Myrun

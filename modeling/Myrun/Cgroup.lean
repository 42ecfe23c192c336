import Myrun.Host

namespace Myrun

/-!
# Control groups

`src/runtime/cgroup.rs`: creating a container's cgroup with its limits,
attaching to it, killing and removing it, and collecting empty ones.
-/

/-- `str::split_whitespace`, on characters; the word read so far is reversed. -/
def splitWhitespaceChars : List Char → List Char → List String
  | word, [] => if word.isEmpty then [] else [String.ofList word.reverse]
  | word, c :: cs =>
      if isWhitespace c then
        if word.isEmpty then splitWhitespaceChars [] cs
        else String.ofList word.reverse :: splitWhitespaceChars [] cs
      else splitWhitespaceChars (c :: word) cs

/-- `str::split_whitespace`. -/
def splitWhitespace (s : String) : List String :=
  splitWhitespaceChars [] s.toList

/-- `str::parse::<i32>`. -/
def parseI32 (s : String) : Option Int32 :=
  match parseI64Chars s.toList with
  | some i =>
      if -2147483648 ≤ i ∧ i ≤ 2147483647 then some (Int32.ofInt i.toInt)
      else none
  | none => none

/-- `SIGKILL`. -/
def sigkill : Int32 := 9

/-- `SIGTERM`. -/
def sigterm : Int32 := 15

/-- `read_trimmed`. -/
def readTrimmed (path : String) : HostAct String := do
  let text ← .of (askHost (.readText path))
  return trim text

/-- `write_file`. -/
def writeFile (path text : String) : HostAct Unit :=
  .of (askHost (.writeText path text))

/-- `Path::join` of a directory and a plain name. -/
def joinPath (dir name : String) : String :=
  dir ++ "/" ++ name

/-- `struct Cgroup`. -/
structure Cgroup where
  path : String
  enabled : List String
  deriving Repr, DecidableEq

namespace Cgroup

/-- `WANTED`. -/
def wanted : List String := ["memory", "cpu", "pids"]

/-- `BASE_NAME`. -/
def baseName : String := "myrun"

/-- `mount_point`. -/
def mountPoint : HostAct String := do
  match ← Fallible.lift (askHost .cgroupMount) with
  | some m => return m
  | none =>
      .ofExcept (.error (.unsupported
        ("no cgroup2 filesystem is mounted; myrun requires cgroup v2 " ++
          "(mount one with: mount -t cgroup2 none /sys/fs/cgroup)")))

/-- `read_list`. -/
def readList (path : String) : HostAct (List String) := do
  match ← (readTrimmed path).attempt with
  | .ok text => return splitWhitespace text
  | .error _ => return []

/-- `available_controllers`. -/
def availableControllers (dir : String) : HostAct (List String) :=
  readList (joinPath dir "cgroup.controllers")

/-- The loop of `enable_subtree`: the controllers that could be enabled. -/
def enableEach (dir : String) (already : List String) :
    List String → HostAct (List String)
  | [] => return []
  | c :: rest =>
      if c ∈ already then do
        let others ← enableEach dir already rest
        return c :: others
      else do
        let outcome ←
          (writeFile (joinPath dir "cgroup.subtree_control") ("+" ++ c)).attempt
        let others ← enableEach dir already rest
        match outcome with
        | .ok _ => return c :: others
        | .error _ => return others

/-- `enable_subtree`. -/
def enableSubtree (dir : String) (controllers : List String) :
    HostAct (List String) := do
  let already ← readList (joinPath dir "cgroup.subtree_control")
  enableEach dir already controllers

/-- `required_for`. -/
def requiredFor (res : Resources) : List String :=
  (if res.memory.isSome || res.memorySwap.isSome then ["memory"] else []) ++
  (if res.cpus.isSome || res.cpuWeight.isSome then ["cpu"] else []) ++
  (if res.pids.isSome then ["pids"] else [])

/-- `Cgroup::has`. -/
def has (cg : Cgroup) (controller : String) : Bool :=
  cg.enabled.contains controller

/-- `Cgroup::write`. -/
def write (cg : Cgroup) (file value : String) : HostAct Unit :=
  (writeFile (joinPath cg.path file) value).mapErr fun e =>
    .io ("writing " ++ debugStr value ++ " to " ++ cg.path ++ "/" ++ file ++
      ": " ++ e.display)

/-- `Cgroup::write_if`. -/
def writeIf (cg : Cgroup) (controller file value : String) : HostAct Unit :=
  if !cg.has controller then return ()
  else cg.write file value

/-- The `memory.swap.max` part of `apply`. -/
def applySwap (cg : Cgroup) (res : Resources) : HostAct Unit :=
  match res.memorySwap with
  | some s =>
      -- `--memory-swap` is the combined total
      let swapOnly :=
        match res.memory with
        | some m => if s < m then 0 else s - m
        | none => s
      cg.writeIf "memory" "memory.swap.max" (Resources.numberText swapOnly)
  | none =>
      if res.memory.isSome then do
        let _ ← (cg.writeIf "memory" "memory.swap.max" "0").attempt
        return ()
      else return ()

/-- One limit of `apply`, when it is set. -/
def applyLimit (cg : Cgroup) (controller file : String) :
    Option String → HostAct Unit
  | some value => cg.writeIf controller file value
  | none => return ()

/-- `Cgroup::apply`. -/
def apply [F64Ops] (cg : Cgroup) (res : Resources) : HostAct Unit := do
  cg.applyLimit "memory" "memory.max" (res.memory.map Resources.numberText)
  cg.applySwap res
  cg.applyLimit "cpu" "cpu.max" res.cpuMaxValue
  cg.applyLimit "cpu" "cpu.weight" (res.cpuWeight.map Resources.numberText)
  cg.applyLimit "pids" "pids.max" (res.pids.map Resources.numberText)

/-- `create_dir` with the error text of `Cgroup::create`. -/
def makeDir (path : String) : HostAct Unit :=
  (Fallible.of (askHost (.makeDir path)) : HostAct Unit).mapErr fun e =>
    .io ("creating cgroup " ++ path ++ ": " ++ e.display)

/-- Create the parent of all container cgroups unless it exists. -/
def ensureBase (base : String) : HostAct Unit := do
  if ← .lift (askHost (.dirExists base)) then return ()
  makeDir base

/-- The refusal of `Cgroup::create` when a needed controller is missing. -/
def missingMessage (mount : String) (missing available : List String) :
    String :=
  "cgroup v2 controller(s) " ++ ", ".intercalate missing ++
    " are not available at " ++ mount ++ " (cgroup.controllers = [" ++
    " ".intercalate available ++ "]). The requested limits cannot be " ++
    "enforced. This usually means the host is running cgroup v1 or " ++
    "hybrid mode, or the controllers are not delegated to this " ++
    "subtree. Boot with systemd.unified_cgroup_hierarchy=1, or set " ++
    "MYRUN_ALLOW_MISSING_CONTROLLERS=1 to run without enforcement."

/-- Refuse limits that cannot be enforced, unless the host allows that. -/
def requireControllers (mount : String) (missing : List String) : HostAct Unit :=
  if missing.isEmpty then return ()
  else do
    let available ← availableControllers mount
    if ← .lift (askHost .allowMissingControllers) then return ()
    .ofExcept (.error (.unsupported (missingMessage mount missing available)))

/-- Remove an empty directory left over from a crashed run. -/
def removeLeftover (path : String) : HostAct Unit := do
  if ← .lift (askHost (.dirExists path)) then
    let _ ← Fallible.lift (askHost (.removeEmptyDir path))
    return ()
  return ()

/-- The closure `finish` of `Cgroup::create`. -/
def finish [F64Ops] (cg : Cgroup) (res : Resources) : HostAct Unit := do
  Fault.check "after_cgroup_create"
  cg.apply res
  Fault.check "after_cgroup_limits"

/-- `Cgroup::create`. -/
def create [F64Ops] (id : String) (res : Resources) : HostAct Cgroup := do
  let mount ← mountPoint
  let base := joinPath mount baseName
  let _ ← enableSubtree mount wanted
  ensureBase base
  let enabled ← enableSubtree base wanted
  requireControllers mount
    ((requiredFor res).filter fun c => !enabled.contains c)
  let path := joinPath base id
  removeLeftover path
  makeDir path
  let cg : Cgroup := { path, enabled }
  match ← (cg.finish res).attempt with
  | .ok _ => return cg
  | .error e => do
      let _ ← Fallible.lift (askHost (.removeEmptyDir path))
      .ofExcept (.error e)

/-- `Cgroup::attach`. -/
def attach (path : String) : HostAct Cgroup := do
  if ← .lift (askHost (.dirExists path)) then
    let enabled ← availableControllers path
    return { path, enabled }
  .ofExcept (.error (.notFound ("cgroup " ++ path)))

/-- `Cgroup::add_pid`. -/
def addPid (cg : Cgroup) (pid : Pid) : HostAct Unit :=
  .of (askHost (.addPid cg.path pid))

/-- `Cgroup::pids`. -/
def pids (cg : Cgroup) : HostAct (List Pid) := do
  match ← (readTrimmed (joinPath cg.path "cgroup.procs")).attempt with
  | .ok text =>
      return (split (Char.ofNat 10) text).filterMap fun l => parseI32 (trim l)
  | .error _ => return []

/-- `Cgroup::freeze`. -/
def freeze (cg : Cgroup) : HostAct Unit :=
  cg.write "cgroup.freeze" "1"

/-- `Cgroup::thaw`. -/
def thaw (cg : Cgroup) : HostAct Unit :=
  cg.write "cgroup.freeze" "0"

/-- Send `SIGKILL` to each process, ignoring failures. -/
def killEach : List Pid → HostAct Unit
  | [] => return ()
  | pid :: rest => do
      let _ ← (killPid pid sigkill).attempt
      killEach rest

/-- `Cgroup::kill_all`. -/
def killAll (cg : Cgroup) : HostAct Unit := do
  if ← .lift (askHost (.fileExists (joinPath cg.path "cgroup.kill"))) then
    cg.write "cgroup.kill" "1"
  else do
    let processes ← cg.pids
    killEach processes

/-- The value of a key in a flat keyed file. -/
def keyedValue (text key : String) : Option UInt64 :=
  (split (Char.ofNat 10) text).findSome? fun line =>
    match splitWhitespace line with
    | k :: v :: _ => if k = key then parseU64 v else none
    | _ => none

/-- `Cgroup::was_oom_killed`. -/
def wasOomKilled (cg : Cgroup) : HostAct Bool := do
  match ← (readTrimmed (joinPath cg.path "memory.events")).attempt with
  | .ok text => return 0 < (keyedValue text "oom_kill").getD 0
  | .error _ => return false

/-- The loop of `Cgroup::remove`; `attempt` counts up to 50. -/
def removeLoop (cg : Cgroup) (attempt : Nat) : Nat → HostAct Unit
  | 0 =>
      .ofExcept (.error (.io ("cgroup " ++ cg.path ++
        " is still busy after 1s; processes may be unkillable (D state)")))
  | left + 1 => do
      match ← Fallible.lift (askHost (.removeEmptyDir cg.path)) with
      | .removed => return ()
      | .busy => do
          if attempt = 0 then
            let _ ← cg.killAll.attempt
            sleep
            removeLoop cg (attempt + 1) left
          else
            sleep
            removeLoop cg (attempt + 1) left
      | .failed _ => do
          if ← .lift (askHost (.dirExists cg.path)) then
            sleep
            removeLoop cg (attempt + 1) left
          else return ()

/-- `Cgroup::remove`. -/
def remove (cg : Cgroup) : HostAct Unit := do
  if ← .lift (askHost (.dirExists cg.path)) then
    cg.removeLoop 0 50
  else return ()

/-- One entry of `gc_empty`: whether the cgroup was removed. -/
def gcEntry (base name : String) : HostAct Bool := do
  match ← (attach (joinPath base name)).attempt with
  | .error _ => return false
  | .ok cg => do
      let processes ← cg.pids
      if processes.isEmpty then
        let outcome ← cg.remove.attempt
        return outcome.toBool
      else return false

/-- The loop of `gc_empty`. -/
def gcEach (base : String) (liveIds : List String) :
    List String → HostAct Nat
  | [] => return 0
  | name :: rest =>
      if liveIds.contains name then gcEach base liveIds rest
      else do
        let removed ← gcEntry base name
        let others ← gcEach base liveIds rest
        return if removed then others + 1 else others

/-- `gc_empty`. -/
def gcEmpty (liveIds : List String) : HostAct Nat := do
  match ← mountPoint.attempt with
  | .error _ => return 0
  | .ok mount => do
      let base := joinPath mount baseName
      match ← (Fallible.of (askHost (.subdirs base)) : HostAct (List String)).attempt with
      | .error _ => return 0
      | .ok names => gcEach base liveIds names

end Cgroup

end Myrun

import Myrun.Config

namespace Myrun

/-!
# The command line of `run` and `create`

`parse_run` of `src/cli.rs` reads the same tokens twice: once to find
`--config`, and once more to apply the flags on top of the file.  A pass is a
loop over the tokens with five pieces of state.  Each option is a row of one
table; an option that takes a value finds it after an equals sign or in the
next token.
-/

/-- `split_flag`: `--flag=value` in its parts. -/
def splitFlag (arg : String) : String × Option String :=
  match splitOnce '=' arg with
  | some (flag, value) =>
      if startsWithChar '-' flag then (flag, some value) else (arg, none)
  | none => (arg, none)

/-- `parse_bool`. -/
def parseBool (flag v : String) : Result Bool :=
  let word := toAsciiLowercase (trim v)
  if word ∈ ["1", "true", "yes", "on"] then .ok true
  else if word ∈ ["0", "false", "no", "off"] then .ok false
  else
    .error (.usage (flag ++ " expects true or false, got " ++ debugStr word))

/-- `RUN_HELP`. -/
def runHelp : String :=
  "myrun run [options] <rootfs> <command> [args...]\n\n" ++
  "CONTAINER:\n" ++
  "    --name <name>           Human-readable name (must be unique)\n" ++
  "    --rootfs <dir>          Root filesystem (alternative to the positional)\n" ++
  "    -e, --env KEY=VALUE     Set an environment variable (repeatable)\n" ++
  "    -w, --workdir <dir>     Working directory inside the container\n" ++
  "    --hostname <name>       UTS hostname (default: the short container id)\n" ++
  "    -v, --volume SRC:DST[:ro]   Bind mount, or tmpfs:DST for a tmpfs\n" ++
  "    --read-only             Mount the rootfs read-only\n" ++
  "    --label key=value       Attach metadata (repeatable)\n" ++
  "    -d, --detach            Run in the background and print the id\n" ++
  "    --rm                    Delete the container once it exits\n" ++
  "    -c, --config <file>     Load defaults from a TOML or JSON file\n\n" ++
  "RESOURCES:\n" ++
  "    -m, --memory <size>     Memory limit, e.g. 512m, 2g\n" ++
  "    --memory-swap <size>    Memory + swap limit\n" ++
  "    --cpus <n>              Fractional CPU limit, e.g. 1.5\n" ++
  "    --cpu-weight <n>        Relative weight, 1-10000 (default 100)\n" ++
  "    --pids <n>              Maximum number of processes\n\n" ++
  "NETWORK:            (see `myrun --help network`)\n" ++
  "    --network none|bridge|host\n" ++
  "    -p, --publish H:C[/tcp|udp]\n\n" ++
  "SECURITY:           (see `myrun --help security`)\n" ++
  "    --cap-add / --cap-drop <CAP>\n" ++
  "    --seccomp unconfined|default|strict\n" ++
  "    -u, --user <uid[:gid]>\n" ++
  "    --privileged\n"

/-- The name of the subcommand in messages. -/
def subcommandName (run : Bool) : String :=
  if run then "run" else "create"

/-- `RunArgs`. -/
structure RunArgs where
  config : ContainerConfig
  detach : Bool
  deriving Repr, DecidableEq

/-- The local variables of `parse_run_pass`. -/
structure PassState where
  cfg : ContainerConfig
  configPath : Option String := none
  detach : Bool := false
  positional : List String := []
  endOfFlags : Bool := false
  deriving Repr, DecidableEq

/-- What a recognised option does to these variables. -/
inductive Update where
  | endOfFlags
  | configPath (path : String)
  | detach
  | config (change : ContainerConfig → ContainerConfig)

namespace Update

/-- Carry out an update. -/
def apply : Update → PassState → PassState
  | endOfFlags, s => { s with endOfFlags := true }
  | configPath path, s => { s with configPath := some path }
  | detach, s => { s with detach := true }
  | config change, s => { s with cfg := change s.cfg }

/-- Change the resources. -/
def resources (change : Resources → Resources) : Update :=
  config fun c => { c with resources := change c.resources }

/-- Change the network settings. -/
def network (change : NetworkConfig → NetworkConfig) : Update :=
  config fun c => { c with network := change c.network }

/-- Change the security settings. -/
def security (change : SecurityConfig → SecurityConfig) : Update :=
  config fun c => { c with security := change c.security }

/-- Change the namespaces. -/
def namespaces (change : Namespaces → Namespaces) : Update :=
  config fun c => { c with namespaces := change c.namespaces }

end Update

/-- One arm of the `match` in `parse_run_pass`. -/
inductive FlagAction where
  /-- An option without a value; it may look at the text after `=`. -/
  | plain (decode : Option String → Result Update)
  /-- An option with a value. -/
  | valued (decode : String → Result Update)

/-- A parse failure of a flag's value is a usage error. -/
def orUsage {α : Type} (message : String) : Option α → Result α
  | some value => .ok value
  | none => .error (.usage message)

/-- An option that ignores any text after `=`. -/
def setting (update : Update) : FlagAction :=
  .plain fun _ => .ok update

/-- An option that is refused. -/
def refused (message : String) : FlagAction :=
  .plain fun _ => .error (.usage message)

/-- An option that takes any text as its value. -/
def taking (build : String → Update) : FlagAction :=
  .valued fun v => .ok (build v)

/-- An option whose value has to be parsed. -/
def parsing {α : Type} (parse : String → Result α) (build : α → Update) :
    FlagAction :=
  .valued fun v => do
    let value ← parse v
    return build value

/-- An option without a value that parses the text after `=`. -/
def looking {α : Type} (parse : Option String → Result α)
    (build : α → Update) : FlagAction :=
  .plain fun inline => do
    let value ← parse inline
    return build value

/-- The arms of the `match` in `parse_run_pass`, with the names they match. -/
def flagTable [F64Ops] : List (List String × FlagAction) :=
  [(["--"], setting .endOfFlags),
    (["-h", "--help"], refused runHelp),
    -- recorded, not applied: the caller loads it between the passes
    (["--config", "-c"], taking .configPath),
    (["--name"], taking fun v => .config fun c => { c with name := some v }),
    (["--rootfs"], taking fun v => .config fun c => { c with rootfs := v }),
    (["-e", "--env"], taking fun v => .config fun c => c.setEnv v),
    (["-w", "--workdir", "--cwd"],
      taking fun v => .config fun c => { c with cwd := v }),
    (["--hostname"], taking fun v => .config fun c => { c with hostname := v }),
    (["-d", "--detach"], setting .detach),
    (["--rm"], setting (.config fun c => { c with autoRemove := true })),
    (["--read-only"], setting (.config fun c => { c with readOnly := true })),
    (["-v", "--volume", "--mount"],
      parsing MountSpec.parse fun m =>
        .config fun c => { c with mounts := c.mounts ++ [m] }),
    (["--label"],
      parsing (fun kv => orUsage "--label expects key=value" (splitOnce '=' kv))
        fun label => .config fun c => { c with labels := c.labels ++ [label] }),
    (["-m", "--memory"],
      parsing parseSize fun v => .resources fun r => { r with memory := v }),
    (["--memory-swap"],
      parsing parseSize fun v =>
        .resources fun r => { r with memorySwap := v }),
    (["--cpus"],
      parsing
        (fun v => orUsage "--cpus expects a number, e.g. 1.5"
          (F64Ops.parse v.toList))
        fun v => .resources fun r => { r with cpus := some v }),
    (["--cpu-weight", "--cpu-shares"],
      parsing (fun v => orUsage "--cpu-weight expects an integer" (parseU64 v))
        fun v => .resources fun r => { r with cpuWeight := some v }),
    (["--pids", "--pids-limit"],
      parsing (fun v => orUsage "--pids expects an integer" (parseU64 v))
        fun v => .resources fun r => { r with pids := some v }),
    (["--network", "--net"],
      parsing NetworkMode.parse fun v =>
        .network fun n => { n with mode := v }),
    (["--bridge"], taking fun v => .network fun n => { n with bridge := v }),
    (["--subnet"], taking fun v => .network fun n => { n with subnet := v }),
    (["--ip"], taking fun v => .network fun n => { n with ip := some v }),
    (["--gateway"],
      taking fun v => .network fun n => { n with gateway := some v }),
    (["--mtu"],
      parsing (fun v => orUsage "--mtu expects an integer" (parseU32 v))
        fun v => .network fun n => { n with mtu := v }),
    (["-p", "--publish"],
      parsing PortMapping.parse fun p =>
        .network fun n => { n with publish := n.publish ++ [p] }),
    (["--no-nat"], setting (.network fun n => { n with nat := false })),
    (["--dns"],
      taking fun v =>
        .network fun n => { n with dns := (split ',' v).map trim }),
    (["--cap-add"],
      taking fun v => .security fun s => { s with capAdd := s.capAdd ++ [v] }),
    (["--cap-drop"],
      taking fun v =>
        .security fun s => { s with capDrop := s.capDrop ++ [v] }),
    (["--seccomp"],
      parsing SeccompMode.parse fun v =>
        .security fun s => { s with seccomp := v }),
    (["--privileged"],
      setting (.security fun s => { s with privileged := true })),
    (["--no-new-privs"],
      looking (decodeOr true (parseBool "--no-new-privs")) fun v =>
        .security fun s => { s with noNewPrivs := v }),
    (["--user", "-u"],
      parsing parseUser fun v =>
        .security fun s => { s with user := some v }),
    (["--no-pid-ns"], setting (.namespaces fun n => { n with pid := false })),
    (["--no-ipc-ns"], setting (.namespaces fun n => { n with ipc := false })),
    (["--no-uts-ns"], setting (.namespaces fun n => { n with uts := false })),
    (["--no-cgroup-ns"],
      setting (.namespaces fun n => { n with cgroup := false }))]

/-- The arm that an option selects; the last one refuses it. -/
def flagAction [F64Ops] (run : Bool) (flag : String) : FlagAction :=
  match flagTable.find? fun row => flag ∈ row.1 with
  | some row => row.2
  | none =>
      refused ("unknown option " ++ debugStr flag ++ " for `myrun " ++
        subcommandName run ++ "`")

/-- Is a token read as a positional one? -/
def isPositional (endOfFlags : Bool) (raw : String) : Bool :=
  endOfFlags || !startsWithChar '-' raw || raw = "-"

/-- The loop of `parse_run_pass`. -/
def passLoop [F64Ops] (run : Bool) :
    List String → PassState → Result PassState
  | [], s => .ok s
  | raw :: rest, s =>
      if isPositional s.endOfFlags raw then
        let s := { s with positional := s.positional ++ [raw] }
        -- everything after the second positional belongs to the command
        if 2 ≤ s.positional.length then
          .ok { s with positional := s.positional ++ rest }
        else passLoop run rest s
      else
        let (flag, inline) := splitFlag raw
        match flagAction run flag with
        | .plain decode => do
            let update ← decode inline
            passLoop run rest (update.apply s)
        | .valued decode =>
            match inline with
            | some v => do
                let update ← decode v
                passLoop run rest (update.apply s)
            | none =>
                match rest with
                | [] => .error (.usage (flag ++ " requires a value"))
                | v :: rest => do
                    let update ← decode v
                    passLoop run rest (update.apply s)

/-- The positional tokens become the root file system and the command. -/
def takePositional (s : PassState) : ContainerConfig :=
  match s.positional with
  | [] => s.cfg
  | first :: rest =>
      if s.cfg.rootfs.isEmpty then
        match rest with
        | [] => { s.cfg with rootfs := first }
        | _ => { s.cfg with rootfs := first, command := rest }
      else { s.cfg with command := first :: rest }

/-- `parse_run_pass`: the arguments and the path given by `--config`. -/
def parseRunPass [F64Ops] (run : Bool) (base : ContainerConfig)
    (tokens : List String) : Result (RunArgs × Option String) := do
  let s ← passLoop run tokens { cfg := base }
  return ({ config := { takePositional s with detach := s.detach },
            detach := s.detach }, s.configPath)

/-! ## Configuration files -/

/-- The files `--config` can name, and the reader for the TOML syntax. -/
structure ConfigFiles where
  read : String → Result String
  toml : String → Result Json

/-- `Path::file_name`: the last component. -/
def fileName (path : String) : Option String :=
  match ((split '/' path).filter fun part => part ≠ "" ∧ part ≠ ".").getLast? with
  | some ".." => none
  | last => last

/-- `Path::extension`. -/
def pathExtension (path : String) : Option String := do
  let name ← fileName path
  match splitOnceChars '.' name.toList.reverse with
  | some (extension, stem) =>
      if stem.isEmpty then none else some (String.ofList extension.reverse)
  | none => none

/-- The syntax of a file: by its extension, or by its first character. -/
def parseDocument [F64Ops] (files : ConfigFiles) (path text : String) :
    Result Json :=
  if pathExtension path = some "json" ∨
      (text.toList.dropWhile isWhitespace).head? = some '{' then
    parseJson text
  else files.toml text

/-- `ContainerConfig::from_file`. -/
def ContainerConfig.fromFile [F64Ops] (files : ConfigFiles)
    (path : String) : Result ContainerConfig := do
  let text ← files.read path
  let doc ← parseDocument files path text
  ContainerConfig.fromJson doc

/-- The configuration that the second pass starts from. -/
def baseConfig [F64Ops] (files : ConfigFiles) :
    Option String → Result ContainerConfig :=
  decodeOr {} (ContainerConfig.fromFile files)

/-- `parse_run`. -/
def parseRun [F64Ops] (files : ConfigFiles) (run : Bool)
    (tokens : List String) : Result RunArgs := do
  let (_, configPath) ← parseRunPass run {} tokens
  let base ← baseConfig files configPath
  let (parsed, _) ← parseRunPass run base tokens
  return parsed

end Myrun

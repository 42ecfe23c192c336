import Myrun.CliArguments

namespace Myrun

/-!
# Flags over the file

What the options of `run` and `create` mean, apart from how `src/cli.rs` reads
them: a flag sets a field, appends to a list or updates the environment. The
configuration of a command line is that of the file named by `--config` with
the flags applied in order, wherever `--config` stands.
-/

/-- An option of `run` or `create` that changes the configuration. -/
inductive Flag where
  | name (v : String)
  | rootfs (v : String)
  | env (kv : String)
  | cwd (v : String)
  | hostname (v : String)
  | detach
  | autoRemove
  | readOnly
  | mount (m : MountSpec)
  | label (kv : String × String)
  | memory (v : Option UInt64)
  | memorySwap (v : Option UInt64)
  | cpus (v : F64)
  | cpuWeight (v : UInt64)
  | pids (v : UInt64)
  | mode (v : NetworkMode)
  | bridge (v : String)
  | subnet (v : String)
  | ip (v : String)
  | gateway (v : String)
  | mtu (v : UInt32)
  | publish (p : PortMapping)
  | noNat
  | dns (servers : List String)
  | capAdd (v : String)
  | capDrop (v : String)
  | seccomp (v : SeccompMode)
  | privileged
  | noNewPrivs (v : Bool)
  | user (v : UInt32 × UInt32)
  | noPidNs
  | noIpcNs
  | noUtsNs
  | noCgroupNs
  deriving Repr, DecidableEq

/-- How the text of an option is read. -/
inductive FlagReading : Type 1 where
  | switch (flag : Flag)
  | text (build : String → Flag)
  | parsed {α : Type} (parse : String → Result α) (build : α → Flag)
  | optional {α : Type} (parse : Option String → Result α) (build : α → Flag)

/-- The options, with their names. -/
def flagRows [F64Ops] : List (List String × FlagReading) :=
  [(["--name"], .text .name),
    (["--rootfs"], .text .rootfs),
    (["-e", "--env"], .text .env),
    (["-w", "--workdir", "--cwd"], .text .cwd),
    (["--hostname"], .text .hostname),
    (["-d", "--detach"], .switch .detach),
    (["--rm"], .switch .autoRemove),
    (["--read-only"], .switch .readOnly),
    (["-v", "--volume", "--mount"], .parsed MountSpec.parse .mount),
    (["--label"],
      .parsed (fun kv => orUsage "--label expects key=value" (splitOnce '=' kv))
        .label),
    (["-m", "--memory"], .parsed parseSize .memory),
    (["--memory-swap"], .parsed parseSize .memorySwap),
    (["--cpus"],
      .parsed
        (fun v => orUsage "--cpus expects a number, e.g. 1.5"
          (F64Ops.parse v.toList))
        .cpus),
    (["--cpu-weight", "--cpu-shares"],
      .parsed (fun v => orUsage "--cpu-weight expects an integer" (parseU64 v))
        .cpuWeight),
    (["--pids", "--pids-limit"],
      .parsed (fun v => orUsage "--pids expects an integer" (parseU64 v))
        .pids),
    (["--network", "--net"], .parsed NetworkMode.parse .mode),
    (["--bridge"], .text .bridge),
    (["--subnet"], .text .subnet),
    (["--ip"], .text .ip),
    (["--gateway"], .text .gateway),
    (["--mtu"],
      .parsed (fun v => orUsage "--mtu expects an integer" (parseU32 v)) .mtu),
    (["-p", "--publish"], .parsed PortMapping.parse .publish),
    (["--no-nat"], .switch .noNat),
    (["--dns"], .text fun v => .dns ((split ',' v).map trim)),
    (["--cap-add"], .text .capAdd),
    (["--cap-drop"], .text .capDrop),
    (["--seccomp"], .parsed SeccompMode.parse .seccomp),
    (["--privileged"], .switch .privileged),
    (["--no-new-privs"],
      .optional (decodeOr true (parseBool "--no-new-privs")) .noNewPrivs),
    (["--user", "-u"], .parsed parseUser .user),
    (["--no-pid-ns"], .switch .noPidNs),
    (["--no-ipc-ns"], .switch .noIpcNs),
    (["--no-uts-ns"], .switch .noUtsNs),
    (["--no-cgroup-ns"], .switch .noCgroupNs)]

/-! ## What a flag does -/

/-- The configuration after a flag. -/
def Flag.change : Flag → ContainerConfig → ContainerConfig
  | name v, c => { c with name := some v }
  | rootfs v, c => { c with rootfs := v }
  | env kv, c => c.setEnv kv
  | cwd v, c => { c with cwd := v }
  | hostname v, c => { c with hostname := v }
  | detach, c => c
  | autoRemove, c => { c with autoRemove := true }
  | readOnly, c => { c with readOnly := true }
  | mount m, c => { c with mounts := c.mounts ++ [m] }
  | label kv, c => { c with labels := c.labels ++ [kv] }
  | memory v, c => { c with resources := { c.resources with memory := v } }
  | memorySwap v, c =>
      { c with resources := { c.resources with memorySwap := v } }
  | cpus v, c => { c with resources := { c.resources with cpus := some v } }
  | cpuWeight v, c =>
      { c with resources := { c.resources with cpuWeight := some v } }
  | pids v, c => { c with resources := { c.resources with pids := some v } }
  | mode v, c => { c with network := { c.network with mode := v } }
  | bridge v, c => { c with network := { c.network with bridge := v } }
  | subnet v, c => { c with network := { c.network with subnet := v } }
  | ip v, c => { c with network := { c.network with ip := some v } }
  | gateway v, c => { c with network := { c.network with gateway := some v } }
  | mtu v, c => { c with network := { c.network with mtu := v } }
  | publish p, c =>
      { c with
        network := { c.network with publish := c.network.publish ++ [p] } }
  | noNat, c => { c with network := { c.network with nat := false } }
  | dns servers, c => { c with network := { c.network with dns := servers } }
  | capAdd v, c =>
      { c with
        security := { c.security with capAdd := c.security.capAdd ++ [v] } }
  | capDrop v, c =>
      { c with
        security := { c.security with capDrop := c.security.capDrop ++ [v] } }
  | seccomp v, c => { c with security := { c.security with seccomp := v } }
  | privileged, c =>
      { c with security := { c.security with privileged := true } }
  | noNewPrivs v, c =>
      { c with security := { c.security with noNewPrivs := v } }
  | user v, c => { c with security := { c.security with user := some v } }
  | noPidNs, c => { c with namespaces := { c.namespaces with pid := false } }
  | noIpcNs, c => { c with namespaces := { c.namespaces with ipc := false } }
  | noUtsNs, c => { c with namespaces := { c.namespaces with uts := false } }
  | noCgroupNs, c =>
      { c with namespaces := { c.namespaces with cgroup := false } }

/-- The update of the pass. -/
def Flag.update : Flag → Update
  | detach => .detach
  | flag => .config flag.change

/-- The arm of the parser for an option. -/
def FlagReading.action : FlagReading → FlagAction
  | switch flag => setting flag.update
  | text build => taking fun v => (build v).update
  | parsed parse build => parsing parse fun v => (build v).update
  | optional parse build => looking parse fun v => (build v).update

/-- The parser's table is the table of options, after three arms of its own. -/
theorem flagTable_eq [F64Ops] :
    flagTable =
      (["--"], setting .endOfFlags) ::
        (["-h", "--help"], refused runHelp) ::
          (["--config", "-c"], taking .configPath) ::
            flagRows.map fun row => (row.1, row.2.action) := by
  rfl

/-! ## What a list of flags does -/

/-- The value of the last flag that sets a field, or the value it had. -/
def lastOr {α : Type} (pick : Flag → Option α) (flags : List Flag)
    (old : α) : α :=
  ((flags.filterMap pick).getLast?).getD old

@[simp] theorem lastOr_nil
    {α : Type}
    (pick : Flag → Option α)
    (old : α) :
    lastOr pick [] old = old :=
  rfl

private theorem lastOr_cons
    {α : Type}
    (pick : Flag → Option α)
    (flag : Flag)
    (flags : List Flag)
    (old : α) :
    lastOr pick (flag :: flags) old =
      lastOr pick flags ((pick flag).getD old) := by
  cases picked : pick flag with
  | none =>
      simp [lastOr, picked]
  | some value =>
      simp [lastOr, picked, List.getLast?_cons]

/-- The limits of the file with those of the flags. -/
def overriddenResources (old : Resources) (flags : List Flag) : Resources where
  memory := lastOr (fun | .memory v => some v | _ => none) flags old.memory
  memorySwap :=
    lastOr (fun | .memorySwap v => some v | _ => none) flags old.memorySwap
  cpus := lastOr (fun | .cpus v => some (some v) | _ => none) flags old.cpus
  cpuWeight :=
    lastOr (fun | .cpuWeight v => some (some v) | _ => none) flags
      old.cpuWeight
  pids := lastOr (fun | .pids v => some (some v) | _ => none) flags old.pids

/-- The network settings of the file with those of the flags. -/
def overriddenNetwork (old : NetworkConfig) (flags : List Flag) :
    NetworkConfig where
  mode := lastOr (fun | .mode v => some v | _ => none) flags old.mode
  bridge := lastOr (fun | .bridge v => some v | _ => none) flags old.bridge
  subnet := lastOr (fun | .subnet v => some v | _ => none) flags old.subnet
  ip := lastOr (fun | .ip v => some (some v) | _ => none) flags old.ip
  gateway :=
    lastOr (fun | .gateway v => some (some v) | _ => none) flags old.gateway
  mtu := lastOr (fun | .mtu v => some v | _ => none) flags old.mtu
  publish :=
    old.publish ++ flags.filterMap fun | .publish p => some p | _ => none
  nat := lastOr (fun | .noNat => some false | _ => none) flags old.nat
  dns := lastOr (fun | .dns servers => some servers | _ => none) flags old.dns

/-- The security settings of the file with those of the flags. -/
def overriddenSecurity (old : SecurityConfig) (flags : List Flag) :
    SecurityConfig :=
  { old with
    noNewPrivs :=
      lastOr (fun | .noNewPrivs v => some v | _ => none) flags old.noNewPrivs
    capAdd := old.capAdd ++ flags.filterMap fun | .capAdd v => some v | _ => none
    capDrop :=
      old.capDrop ++ flags.filterMap fun | .capDrop v => some v | _ => none
    seccomp := lastOr (fun | .seccomp v => some v | _ => none) flags old.seccomp
    user := lastOr (fun | .user v => some (some v) | _ => none) flags old.user
    privileged :=
      lastOr (fun | .privileged => some true | _ => none) flags
        old.privileged }

/-- The namespaces of the file without those the flags turn off. -/
def overriddenNamespaces (old : Namespaces) (flags : List Flag) : Namespaces :=
  { old with
    pid := lastOr (fun | .noPidNs => some false | _ => none) flags old.pid
    uts := lastOr (fun | .noUtsNs => some false | _ => none) flags old.uts
    ipc := lastOr (fun | .noIpcNs => some false | _ => none) flags old.ipc
    cgroup :=
      lastOr (fun | .noCgroupNs => some false | _ => none) flags old.cgroup }

/--
The configuration of the file with the flags: the last value of each field,
the lists with what the flags append, the environment with each setting.
-/
def overridden (base : ContainerConfig) (flags : List Flag) :
    ContainerConfig :=
  { base with
    name := lastOr (fun | .name v => some (some v) | _ => none) flags base.name
    rootfs := lastOr (fun | .rootfs v => some v | _ => none) flags base.rootfs
    env :=
      (flags.filterMap fun | .env kv => some kv | _ => none).foldl setEnvList
        base.env
    cwd := lastOr (fun | .cwd v => some v | _ => none) flags base.cwd
    hostname :=
      lastOr (fun | .hostname v => some v | _ => none) flags base.hostname
    readOnly :=
      lastOr (fun | .readOnly => some true | _ => none) flags base.readOnly
    mounts := base.mounts ++ flags.filterMap fun | .mount m => some m | _ => none
    resources := overriddenResources base.resources flags
    network := overriddenNetwork base.network flags
    security := overriddenSecurity base.security flags
    namespaces := overriddenNamespaces base.namespaces flags
    autoRemove :=
      lastOr (fun | .autoRemove => some true | _ => none) flags base.autoRemove
    labels :=
      base.labels ++ flags.filterMap fun | .label kv => some kv | _ => none }

/-- Is one of the flags `--detach`? -/
def detaches (flags : List Flag) : Bool :=
  flags.any fun | .detach => true | _ => false

private theorem overridden_nil (base : ContainerConfig) :
    overridden base [] = base := by
  simp [overridden, overriddenResources, overriddenNetwork,
    overriddenSecurity, overriddenNamespaces]

private theorem overridden_cons
    (base : ContainerConfig)
    (flag : Flag)
    (flags : List Flag) :
    overridden base (flag :: flags) = overridden (flag.change base) flags := by
  cases flag <;>
    simp only [overridden, overriddenResources, overriddenNetwork,
      overriddenSecurity, overriddenNamespaces, lastOr_cons, Flag.change,
      Option.getD_some, Option.getD_none, List.filterMap_cons,
      ContainerConfig.setEnv, List.foldl_cons, List.append_assoc,
      List.singleton_append]

/-! ## Options on the command line -/

/-- What the text of an option says, if it can be read. -/
def FlagReading.read :
    FlagReading → (inline value : Option String) → Option Flag
  | switch flag, _, _ => some flag
  | text build, inline, value => (inline.or value).map build
  | parsed parse build, inline, value =>
      ((inline.or value).bind fun v => (parse v).toOption).map build
  | optional parse build, inline, _ => ((parse inline).toOption).map build

/-- Does the option need a value? -/
def FlagReading.needsValue : FlagReading → Bool
  | switch _ => false
  | text _ => true
  | parsed _ _ => true
  | optional _ _ => false

/-- The row of the table for an option. -/
def flagReading [F64Ops] (name : String) : Option FlagReading :=
  (flagRows.find? fun row => name ∈ row.1).map Prod.snd

/--
One option of a command line, other than `--config` and `--`: the token with
the dash, and the next one where that is its value.
-/
structure RunOption [F64Ops] where
  raw : String
  value : Option String
  dashed : isPositional false raw = false
  ordinary : (splitFlag raw).1 ∉ ["--", "--config", "-c"]
  complete :
    value.isSome =
      ((splitFlag raw).2.isNone &&
        ((flagReading (splitFlag raw).1).map FlagReading.needsValue).getD false)

namespace RunOption

variable [F64Ops]

/-- The tokens of the option. -/
def tokens (o : RunOption) : List String :=
  o.raw :: o.value.toList

/-- The flag it stands for, if it is one and its value can be read. -/
def read (o : RunOption) : Option Flag :=
  (flagReading (splitFlag o.raw).1).bind fun reading =>
    reading.read (splitFlag o.raw).2 o.value

/-- The arm the parser takes for the option. -/
theorem flagAction_of_ordinary
    (run : Bool)
    {name : String}
    (ordinary : name ∉ ["--", "--config", "-c"]) :
    (∃ reading, flagReading name = some reading ∧
      flagAction run name = reading.action) ∨
    flagReading name = none ∧ ∃ message, flagAction run name = refused message := by
  simp only [List.mem_cons, List.not_mem_nil, or_false, not_or] at ordinary
  obtain ⟨notEnd, notConfig, notShort⟩ := ordinary
  unfold flagAction flagReading
  rw [flagTable_eq]
  by_cases help : name = "-h" ∨ name = "--help"
  · have unknown : flagRows.find? (fun row => name ∈ row.1) = none := by
      rcases help with rfl | rfl <;> rfl
    refine .inr ⟨by rw [unknown]; rfl, runHelp, ?_⟩
    simp [help, notEnd]
  · simp only [List.find?_cons, List.mem_cons, List.not_mem_nil, or_false,
      notEnd, notConfig, notShort, help, decide_false, List.find?_map]
    simp only [Function.comp_def]
    cases found : flagRows.find? fun row => name ∈ row.1 with
    | none =>
        exact .inr ⟨rfl, _, rfl⟩
    | some row =>
        exact .inl ⟨row.2, rfl, rfl⟩

/-- Options that need no value stand alone. -/
theorem value_eq_none
    (o : RunOption)
    {reading : FlagReading}
    (found : flagReading (splitFlag o.raw).1 = some reading)
    (alone : reading.needsValue = false) :
    o.value = none := by
  have complete := o.complete
  rw [found, Option.map_some, Option.getD_some, alone, Bool.and_false]
    at complete
  simpa using complete

/-- The value is in the token after a bare option, and nowhere else. -/
theorem value_of_needsValue
    (o : RunOption)
    {reading : FlagReading}
    (found : flagReading (splitFlag o.raw).1 = some reading)
    (needs : reading.needsValue = true) :
    (∃ v, (splitFlag o.raw).2 = some v ∧ o.value = none) ∨
      ∃ v, (splitFlag o.raw).2 = none ∧ o.value = some v := by
  have complete := o.complete
  rw [found, Option.map_some, Option.getD_some, needs, Bool.and_true]
    at complete
  cases inline : (splitFlag o.raw).2 with
  | some v =>
      rw [inline] at complete
      exact .inl ⟨v, rfl, by simpa using complete⟩
  | none =>
      rw [inline] at complete
      obtain ⟨v, given⟩ := Option.isSome_iff_exists.mp complete
      exact .inr ⟨v, rfl, given⟩

/-- What the parser reads is what the option says. -/
theorem readOption_toOption
    (run : Bool)
    (o : RunOption)
    (rest : List String) :
    (readOption run o.raw (o.value.toList ++ rest)).toOption =
      o.read.map fun flag => (flag.update, rest) := by
  unfold readOption read
  rcases flagAction_of_ordinary run o.ordinary with
    ⟨reading, found, action⟩ | ⟨unknown, message, action⟩
  · rw [found, action]
    cases reading with
    | switch flag =>
        rw [o.value_eq_none found rfl]
        rfl
    | text build =>
        rcases o.value_of_needsValue found rfl with
          ⟨v, inline, value⟩ | ⟨v, inline, value⟩
        · rw [inline, value]
          rfl
        · rw [inline, value]
          rfl
    | parsed parse build =>
        rcases o.value_of_needsValue found rfl with
          ⟨v, inline, value⟩ | ⟨v, inline, value⟩
        · rw [inline, value]
          cases decoded : parse v <;>
            simp [FlagReading.action, parsing, FlagReading.read, decoded,
              Except.toOption]
        · rw [inline, value]
          cases decoded : parse v <;>
            simp [FlagReading.action, parsing, FlagReading.read, decoded,
              Except.toOption]
    | optional parse build =>
        rw [o.value_eq_none found rfl]
        cases decoded : parse (splitFlag o.raw).2 <;>
          simp [FlagReading.action, looking, FlagReading.read, decoded,
            Except.toOption]
  · rw [unknown, action]
    rfl

end RunOption

/-! ## The pass over the options -/

private theorem Result.toOption_bind
    {α β : Type}
    (x : Result α)
    (f : α → Result β) :
    (x >>= f).toOption = x.toOption.bind fun a => (f a).toOption := by
  cases x with
  | ok a =>
      rfl
  | error e =>
      rfl

/-- The state of the pass after some flags. -/
def PassState.after (s : PassState) (flags : List Flag) : PassState :=
  { s with
    cfg := overridden s.cfg flags
    detach := s.detach || detaches flags }

private theorem PassState.after_nil (s : PassState) :
    s.after [] = s := by
  simp [after, overridden_nil, detaches]

private theorem PassState.after_cons
    (s : PassState)
    (flag : Flag)
    (flags : List Flag) :
    s.after (flag :: flags) = (flag.update.apply s).after flags := by
  cases flag with
  | detach =>
      simp [after, overridden_cons, detaches, Flag.update, Update.apply,
        Flag.change]
  | _ =>
      simp only [after, overridden_cons, detaches, Flag.update, Update.apply,
        List.any_cons, Bool.false_or]

private theorem PassState.after_append
    (s : PassState)
    (first second : List Flag) :
    s.after (first ++ second) = (s.after first).after second := by
  induction first generalizing s with
  | nil =>
      rw [List.nil_append, after_nil]
  | cons flag first inductionHypothesis =>
      rw [List.cons_append, after_cons, after_cons, inductionHypothesis]

/-- No flag ends the options. -/
theorem Flag.update_endOfFlags
    (flag : Flag)
    (s : PassState) :
    (flag.update.apply s).endOfFlags = s.endOfFlags := by
  cases flag <;> rfl

section Lines

variable [F64Ops]

/-- Options are read in order; the rest is read from the state they lead to. -/
theorem passLoop_options
    (run : Bool)
    (options : List RunOption)
    (rest : List String)
    {s : PassState}
    (reading : s.endOfFlags = false) :
    (passLoop run (options.flatMap RunOption.tokens ++ rest) s).toOption =
      (options.mapM RunOption.read).bind fun flags =>
        (passLoop run rest (s.after flags)).toOption := by
  induction options generalizing s with
  | nil =>
      simp [PassState.after_nil]
  | cons o options inductionHypothesis =>
      have isOption : isPositional s.endOfFlags o.raw = false := by
        rw [reading]
        exact o.dashed
      have tokens :
          (o :: options).flatMap RunOption.tokens ++ rest =
            o.raw ::
              (o.value.toList ++
                (options.flatMap RunOption.tokens ++ rest)) := by
        simp [RunOption.tokens]
      rw [tokens, passLoop_option isOption, Result.toOption_bind,
        o.readOption_toOption, List.mapM_cons]
      cases o.read with
      | none =>
          rfl
      | some flag =>
          have still : (flag.update.apply s).endOfFlags = false :=
            (flag.update_endOfFlags s).trans reading
          simp only [Option.map_some, Option.bind_some,
            inductionHypothesis still, Option.bind_eq_bind]
          cases options.mapM RunOption.read with
          | none =>
              rfl
          | some flags =>
              simp [PassState.after_cons]

/-! ## A command line with a file -/

/-- Options, `--config path` between them, and the positional tokens. -/
def configLine (before : List RunOption) (name path : String)
    (after : List RunOption) (tail : List String) : List String :=
  before.flatMap RunOption.tokens ++
    name :: path :: (after.flatMap RunOption.tokens ++ tail)

/-- The file is remembered, and nothing else happens. -/
theorem passLoop_config
    (run : Bool)
    {name : String}
    (named : name ∈ ["--config", "-c"])
    (path : String)
    (rest : List String)
    {s : PassState}
    (reading : s.endOfFlags = false) :
    passLoop run (name :: path :: rest) s =
      passLoop run rest { s with configPath := some path } := by
  simp only [List.mem_cons, List.not_mem_nil, or_false] at named
  have action : flagAction run name = taking .configPath := by
    rcases named with rfl | rfl <;> rfl
  have bare : splitFlag name = (name, none) := by
    rcases named with rfl | rfl <;> decide +kernel
  have isOption : isPositional s.endOfFlags name = false := by
    rw [reading]
    rcases named with rfl | rfl <;> decide +kernel
  have read :
      readOption run name (path :: rest) = .ok (.configPath path, rest) := by
    unfold readOption
    rw [bare, action]
    rfl
  rw [passLoop_option isOption, read]
  rfl

/-- Up to two tokens without a dash end the options. -/
theorem passLoop_tail
    (run : Bool)
    {tail : List String}
    (plain : ∀ t ∈ tail.take 2, startsWithChar '-' t = false)
    {s : PassState}
    (nothing : s.positional = []) :
    passLoop run tail s = .ok { s with positional := tail } := by
  have positional :
      ∀ t ∈ tail.take 2, isPositional s.endOfFlags t = true := by
    intro t member
    simp [isPositional, plain t member]
  cases tail with
  | nil =>
      have same : { s with positional := [] } = s := by
        rw [← nothing]
      rw [same]
      rfl
  | cons first rest =>
      rw [passLoop_operand (positional first (by simp)) nothing]
      cases rest with
      | nil =>
          rfl
      | cons second rest =>
          exact passLoop_command (positional second (by simp)) (by simp)

/-- A pass over such a line. -/
theorem passLoop_configLine
    (run : Bool)
    (before after : List RunOption)
    {name : String}
    (named : name ∈ ["--config", "-c"])
    (path : String)
    {tail : List String}
    (plain : ∀ t ∈ tail.take 2, startsWithChar '-' t = false)
    (base : ContainerConfig) :
    (passLoop run (configLine before name path after tail)
        { cfg := base }).toOption =
      ((before ++ after).mapM RunOption.read).map fun flags =>
        { PassState.after { cfg := base } flags with
          configPath := some path
          positional := tail } := by
  rw [configLine, passLoop_options run before _ rfl, List.mapM_append]
  cases before.mapM RunOption.read with
  | none =>
      rfl
  | some first =>
      rw [Option.bind_some, passLoop_config run named path _ rfl,
        passLoop_options run after _ rfl]
      simp only [Option.bind_eq_bind, Option.bind_some]
      cases after.mapM RunOption.read with
      | none =>
          rfl
      | some second =>
          rw [Option.bind_some, passLoop_tail run plain rfl]
          simp only [Option.bind_some, Option.pure_def, Option.map_some,
            PassState.after_append]
          rfl

/-- What a line with flags and positional tokens asks for. -/
def runArgs (base : ContainerConfig) (flags : List Flag)
    (tail : List String) : RunArgs where
  config :=
    { takePositional { cfg := overridden base flags, positional := tail } with
      detach := detaches flags }
  detach := detaches flags

private theorem parseRunPass_configLine
    (run : Bool)
    (before after : List RunOption)
    {name : String}
    (named : name ∈ ["--config", "-c"])
    (path : String)
    {tail : List String}
    (plain : ∀ t ∈ tail.take 2, startsWithChar '-' t = false)
    (base : ContainerConfig) :
    (parseRunPass run base (configLine before name path after tail)).toOption =
      ((before ++ after).mapM RunOption.read).map fun flags =>
        (runArgs base flags tail, some path) := by
  rw [parseRunPass, Result.toOption_bind,
    passLoop_configLine run before after named path plain base]
  cases (before ++ after).mapM RunOption.read with
  | none =>
      rfl
  | some flags =>
      have detach :
          (PassState.after { cfg := base } flags).detach = detaches flags :=
        Bool.false_or _
      simp only [Option.map_some, Option.bind_some, detach]
      rfl

/-- The file with the flags over it, or a failure. -/
theorem parseRun_configLine
    (files : ConfigFiles)
    (run : Bool)
    (before after : List RunOption)
    {name : String}
    (named : name ∈ ["--config", "-c"])
    (path : String)
    {tail : List String}
    (plain : ∀ t ∈ tail.take 2, startsWithChar '-' t = false) :
    (parseRun files run (configLine before name path after tail)).toOption =
      ((before ++ after).mapM RunOption.read).bind fun flags =>
        (ContainerConfig.fromFile files path).toOption.map fun base =>
          runArgs base flags tail := by
  have pass := parseRunPass_configLine run before after named path plain
  rw [parseRun, Result.toOption_bind, pass]
  cases read : (before ++ after).mapM RunOption.read with
  | none =>
      rfl
  | some flags =>
      have loaded :
          baseConfig files (some path) = ContainerConfig.fromFile files path :=
        rfl
      simp only [Option.map_some, Option.bind_some, loaded]
      rw [Result.toOption_bind]
      cases ContainerConfig.fromFile files path with
      | error e =>
          rfl
      | ok base =>
          have again := pass base
          rw [read] at again
          rw [show (Except.ok base : Result ContainerConfig).toOption =
            some base from rfl, Option.bind_some, Result.toOption_bind, again]
          rfl

/--
For any options around `--config path`, any file and up to two tokens without a
dash after the options: the place of `--config path` among the options does not
matter, and what is asked for is the configuration of the file with the flags
over it, if the options can be read and the file can be loaded.
-/
theorem flags_override_file
    (files : ConfigFiles)
    (run : Bool)
    {before after before' after' : List RunOption}
    (moved : before' ++ after' = before ++ after)
    {name : String}
    (named : name ∈ ["--config", "-c"])
    (path : String)
    {tail : List String}
    (plain : ∀ t ∈ tail.take 2, startsWithChar '-' t = false) :
    (parseRun files run (configLine before' name path after' tail)).toOption =
        (parseRun files run (configLine before name path after tail)).toOption ∧
      (parseRun files run (configLine before name path after tail)).toOption =
        ((before ++ after).mapM RunOption.read).bind fun flags =>
          (ContainerConfig.fromFile files path).toOption.map fun base =>
            runArgs base flags tail := by
  have original :=
    parseRun_configLine files run before after named path plain
  have rearranged :=
    parseRun_configLine files run before' after' named path plain
  rw [moved] at rearranged
  exact ⟨rearranged.trans original.symm, original⟩

end Lines

/-- `--name web`. -/
def nameWeb [F64Ops] : RunOption where
  raw := "--name"
  value := some "web"
  dashed := by decide +kernel
  ordinary := by decide +kernel
  complete := by rfl

/-- A file that names the container. -/
def dbFiles [F64Ops] : ConfigFiles where
  read := fun _ =>
    .ok (Json.toText (.obj [("rootfs", .str "/r"), ("name", .str "db")]))
  toml := fun _ => .error (.parse "no document")

/-- `--name web` before and after `--config`, with a file that says `db`. -/
theorem name_overrides_file :
    let _ := unitOps
    ContainerConfig.fromFile dbFiles "f.json" =
        .ok { rootfs := "/r", name := some "db" } ∧
    ∃ parsed,
      (parseRun dbFiles true
          ["--name", "web", "--config", "f.json", "/bin/sh"]).toOption =
        some parsed ∧
      (parseRun dbFiles true
          ["--config", "f.json", "--name", "web", "/bin/sh"]).toOption =
        some parsed ∧
      parsed.config.name = some "web" ∧ parsed.config.rootfs = "/r" ∧
      parsed.config.command = ["/bin/sh"] := by
  intro _
  have free :
      (Json.obj [("rootfs", .str "/r"), ("name", .str "db")]).FloatFree :=
    ⟨trivial, trivial, trivial⟩
  have file :
      ContainerConfig.fromFile dbFiles "f.json" =
        .ok { rootfs := "/r", name := some "db" } :=
    ContainerConfig.fromFile_of_toText rfl free
  have both :=
    @flags_override_file _ dbFiles true [] [nameWeb] [nameWeb] [] rfl
      "--config" (by decide) "f.json" ["/bin/sh"] (by decide)
  have one : nameWeb.read = some (.name "web") := by
    decide +kernel
  rw [List.nil_append, List.mapM_cons, List.mapM_nil, one, file] at both
  exact ⟨file, _, both.1.trans both.2, both.2, rfl, rfl, rfl⟩

end Myrun

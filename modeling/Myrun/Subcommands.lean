import Myrun.Cgroup
import Myrun.FlagPrecedence

namespace Myrun

/-!
# The command line of every subcommand

`parse` of `src/cli.rs` with the loops of its sub-parsers. Except for `run` and
`create` these loops are one loop over a table of options; each sub-parser is
the table it uses, the values it starts from and what it makes of them. Global
options change the environment of the process.
-/

namespace Cli

/-- `Command`. -/
inductive Command where
  | run (args : RunArgs)
  | create (args : RunArgs)
  | start (id : String) (attach : Bool)
  | stop (ids : List String) (timeout : UInt64)
  | kill (ids : List String) (signal : Int32)
  | delete (ids : List String) (force : Bool)
  | list (all json quiet : Bool)
  | inspect (ids : List String)
  | stats (ids : List String) (json follow : Bool) (intervalMs : UInt64)
  | pause (ids : List String)
  | unpause (ids : List String)
  | logs (id : String) (follow : Bool) (tail : Option UInt64)
  | wait (ids : List String) (timeout : Option UInt64)
  | gc
  | info
  | help (topic : Option String)
  | version
  | init (stateDir : String)
  | shim (stateDir : String) (notifyFd : Int32)
  deriving Repr, DecidableEq

/-! ## Values -/

/-- `DEFAULT_STOP_TIMEOUT`. -/
def defaultStopTimeout : UInt64 := 10

/-- The names `parse_signal` knows. -/
def signalNumbers : List (String × Int32) :=
  [("HUP", 1), ("INT", 2), ("QUIT", 3), ("ILL", 4), ("ABRT", 6), ("FPE", 8),
    ("KILL", 9), ("USR1", 10), ("SEGV", 11), ("USR2", 12), ("PIPE", 13),
    ("ALRM", 14), ("TERM", 15), ("CHLD", 17), ("CONT", 18), ("STOP", 19),
    ("WINCH", 28)]

/-- `parse_signal`. -/
def parseSignal (s : String) : Result Int32 :=
  let t := toAsciiUppercase (trim s)
  match parseI32 t with
  | some n =>
      if 1 ≤ n ∧ n ≤ 64 then .ok n
      else
        .error (.config ("signal " ++ toString n.toInt ++ " out of range"))
  | none =>
      match signalNumbers.lookup ((stripLeading "SIG" t).getD t) with
      | some n => .ok n
      | none => .error (.config ("unknown signal " ++ debugStr s))

/-- `1000.0`. -/
def thousand : F64 := ⟨0x408F400000000000⟩

/-- The interval of `stats`: seconds in, milliseconds out. -/
def parseInterval [F64Ops] (v : String) : Result UInt64 := do
  let secs ← orUsage "--interval expects seconds" (F64Ops.parse v.toList)
  if !secs.isNan && (secs.negative || secs.isZero) then
    .error (.usage "--interval must be positive")
  else .ok (F64Ops.mul secs thousand).asU64

/-! ## The loop of a sub-parser -/

/-- One arm of the `match` of a sub-parser. -/
inductive Arm (σ : Type) where
  /-- An option that does not look at the text after `=`. -/
  | switch (set : σ → σ)
  /-- An option with a value. -/
  | valued (decode : String → Result (σ → σ))

/-- What a sub-parser does with each token. -/
structure Options (σ : Type) where
  arms : List (List String × Arm σ)
  /-- a token without a dash, where the sub-parser takes any -/
  operand : Option (String → σ → σ)
  unknown : String → Error

/-- An option whose value has to be parsed. -/
def valuedBy {σ α : Type} (parse : String → Result α) (set : α → σ → σ) :
    Arm σ :=
  .valued fun v => do
    let value ← parse v
    return set value

namespace Options

variable {σ : Type}

/-- The arm an option selects. -/
def arm (o : Options σ) (flag : String) : Option (Arm σ) :=
  (o.arms.find? fun row => flag ∈ row.1).map Prod.snd

/-- The loop of a sub-parser. -/
def loop (o : Options σ) : List String → σ → Result σ
  | [], s => .ok s
  | raw :: rest, s =>
      match o.arm (splitFlag raw).1 with
      | some (.switch set) => o.loop rest (set s)
      | some (.valued decode) =>
          match (splitFlag raw).2, rest with
          | some v, rest => do
              let set ← decode v
              o.loop rest (set s)
          | none, [] =>
              .error (.usage ((splitFlag raw).1 ++ " requires a value"))
          | none, v :: rest => do
              let set ← decode v
              o.loop rest (set s)
      | none =>
          match o.operand with
          | none => .error (o.unknown (splitFlag raw).1)
          | some push =>
              if startsWithChar '-' (splitFlag raw).1 then
                .error (o.unknown (splitFlag raw).1)
              else o.loop rest (push raw s)

end Options

/-- A sub-parser: its loop, the values it starts from and its result. -/
structure Subparser (σ : Type) where
  options : Options σ
  initial : σ
  finish : σ → Result Command

/-- Run a sub-parser. -/
def Subparser.parse {σ : Type} (p : Subparser σ) (args : List String) :
    Result Command := do
  let s ← p.options.loop args p.initial
  p.finish s

/-- The error for an option that a sub-parser does not have. -/
def unknownFor (subcommand flag : String) : Error :=
  .usage ("unknown option " ++ debugStr flag ++ " for " ++ subcommand)

/-- The identifiers given, of which there has to be one. -/
def someIds (subcommand : String) (ids : List String) :
    Result (List String) :=
  if ids.isEmpty then
    .error (.usage (subcommand ++ " needs at least one container"))
  else .ok ids

/-- The one identifier given. -/
def oneId (subcommand : String) : Option String → Result String :=
  orUsage (subcommand ++ " needs a container")

/-! ## The sub-parsers -/

/-- The variables of `parse_start`. -/
structure StartState where
  attach : Bool := false
  id : Option String := none
  deriving DecidableEq

/-- `parse_start`. -/
def startParser : Subparser StartState where
  options :=
    { arms := [(["-a", "--attach"], .switch fun s => { s with attach := true })]
      operand := some fun raw s => { s with id := some raw }
      unknown := unknownFor "start" }
  initial := {}
  finish s := do
    let id ← oneId "start" s.id
    return .start id s.attach

/-- The variables of `parse_stop`. -/
structure StopState where
  timeout : UInt64 := defaultStopTimeout
  ids : List String := []
  deriving DecidableEq

/-- `parse_stop`. -/
def stopParser : Subparser StopState where
  options :=
    { arms :=
        [(["-t", "--timeout", "--time"],
          valuedBy (fun v => orUsage "--timeout expects seconds" (parseU64 v))
            fun t s => { s with timeout := t })]
      operand := some fun raw s => { s with ids := s.ids ++ [raw] }
      unknown := unknownFor "stop" }
  initial := {}
  finish s := do
    let ids ← someIds "stop" s.ids
    return .stop ids s.timeout

/-- The variables of `parse_kill`. -/
structure KillState where
  signal : Int32 := sigterm
  ids : List String := []
  deriving DecidableEq

/-- `parse_kill`. -/
def killParser : Subparser KillState where
  options :=
    { arms :=
        [(["-s", "--signal"],
          valuedBy parseSignal fun n s => { s with signal := n })]
      operand := some fun raw s => { s with ids := s.ids ++ [raw] }
      unknown := unknownFor "kill" }
  initial := {}
  finish s := do
    let ids ← someIds "kill" s.ids
    return .kill ids s.signal

/-- The variables of `parse_delete`. -/
structure DeleteState where
  force : Bool := false
  ids : List String := []
  deriving DecidableEq

/-- `parse_delete`. -/
def deleteParser : Subparser DeleteState where
  options :=
    { arms := [(["-f", "--force"], .switch fun s => { s with force := true })]
      operand := some fun raw s => { s with ids := s.ids ++ [raw] }
      unknown := unknownFor "rm" }
  initial := {}
  finish s := do
    let ids ← someIds "rm" s.ids
    return .delete ids s.force

/-- The variables of `parse_list`. -/
structure ListState where
  all : Bool := false
  json : Bool := false
  quiet : Bool := false
  deriving DecidableEq

/-- `parse_list`, which takes no other tokens. -/
def listParser : Subparser ListState where
  options :=
    { arms :=
        [(["-a", "--all"], .switch fun s => { s with all := true }),
          (["--json"], .switch fun s => { s with json := true }),
          (["-q", "--quiet"], .switch fun s => { s with quiet := true })]
      operand := none
      unknown := unknownFor "list" }
  initial := {}
  finish s := .ok (.list s.all s.json s.quiet)

/-- The variables of `parse_stats`. -/
structure StatsState where
  json : Bool := false
  follow : Bool := false
  intervalMs : UInt64 := 1000
  ids : List String := []
  deriving DecidableEq

/-- `parse_stats`. -/
def statsParser [F64Ops] : Subparser StatsState where
  options :=
    { arms :=
        [(["--json"], .switch fun s => { s with json := true }),
          (["-f", "--follow"], .switch fun s => { s with follow := true }),
          (["-i", "--interval"],
            valuedBy parseInterval fun ms s => { s with intervalMs := ms })]
      operand := some fun raw s => { s with ids := s.ids ++ [raw] }
      unknown := unknownFor "stats" }
  initial := {}
  finish s := .ok (.stats s.ids s.json s.follow s.intervalMs)

/-- The variables of `parse_logs`. -/
structure LogsState where
  follow : Bool := false
  tail : Option UInt64 := none
  id : Option String := none
  deriving DecidableEq

/-- `--tail`: `all` leaves the value it had. -/
def parseTail (v : String) : Result (Option UInt64) :=
  if v = "all" then .ok none
  else do
    let n ← orUsage "--tail expects a number or 'all'" (parseU64 v)
    return some n

/-- `parse_logs`. -/
def logsParser : Subparser LogsState where
  options :=
    { arms :=
        [(["-f", "--follow"], .switch fun s => { s with follow := true }),
          (["-n", "--tail"],
            valuedBy parseTail fun n s => { s with tail := n.or s.tail })]
      operand := some fun raw s => { s with id := some raw }
      unknown := unknownFor "logs" }
  initial := {}
  finish s := do
    let id ← oneId "logs" s.id
    return .logs id s.follow s.tail

/-- The variables of `parse_wait`. -/
structure WaitState where
  timeout : Option UInt64 := none
  ids : List String := []
  deriving DecidableEq

/-- `parse_wait`. -/
def waitParser : Subparser WaitState where
  options :=
    { arms :=
        [(["-t", "--timeout"],
          valuedBy (fun v => orUsage "--timeout expects seconds" (parseU64 v))
            fun t s => { s with timeout := some t })]
      operand := some fun raw s => { s with ids := s.ids ++ [raw] }
      unknown := unknownFor "wait" }
  initial := {}
  finish s := do
    let ids ← someIds "wait" s.ids
    return .wait ids s.timeout

/-- `require_ids`: every token with a dash is left out. -/
def requireIds (cmd : String) (args : List String) : Result (List String) :=
  someIds cmd (args.filter fun a => !startsWithChar '-' a)

/-! ## `parse` -/

/-- The arms of the `match` on the name of the subcommand. -/
inductive Subcommand where
  | run
  | create
  | start
  | stop
  | kill
  | delete
  | list
  | inspect
  | stats
  | pause
  | unpause
  | logs
  | wait
  | gc
  | info
  | help
  | version
  | init
  | shim
  deriving Repr, DecidableEq

/-- The names of the subcommands. -/
def subcommands : List (List String × Subcommand) :=
  [(["run"], .run), (["create"], .create), (["start"], .start),
    (["stop"], .stop), (["kill"], .kill),
    (["rm", "delete", "remove"], .delete), (["ls", "list", "ps"], .list),
    (["inspect"], .inspect), (["stats"], .stats), (["pause"], .pause),
    (["unpause", "resume"], .unpause), (["logs"], .logs), (["wait"], .wait),
    (["gc", "prune"], .gc), (["info"], .info), (["help"], .help),
    (["version"], .version), (["__init"], .init), (["__shim"], .shim)]

/-- The subcommand of a name. -/
def subcommand (name : String) : Option Subcommand :=
  (subcommands.find? fun row => name ∈ row.1).map Prod.snd

/-- The first token, which has to be there. -/
def firstToken (message : String) : List String → Result String
  | [] => .error (.usage message)
  | token :: _ => .ok token

/-- What a subcommand makes of its tokens. -/
def Subcommand.parse [F64Ops] (files : ConfigFiles) :
    Subcommand → List String → Result Command
  | run, args => do
      let parsed ← parseRun files true args
      return .run parsed
  | create, args => do
      let parsed ← parseRun files false args
      return .create parsed
  | start, args => startParser.parse args
  | stop, args => stopParser.parse args
  | kill, args => killParser.parse args
  | delete, args => deleteParser.parse args
  | list, args => listParser.parse args
  | inspect, args => do
      let ids ← requireIds "inspect" args
      return .inspect ids
  | stats, args => statsParser.parse args
  | pause, args => do
      let ids ← requireIds "pause" args
      return .pause ids
  | unpause, args => do
      let ids ← requireIds "unpause" args
      return .unpause ids
  | logs, args => logsParser.parse args
  | wait, args => waitParser.parse args
  | gc, _ => .ok .gc
  | info, _ => .ok .info
  | help, args => .ok (.help args.head?)
  | version, _ => .ok .version
  | init, args => do
      let d ← firstToken "__init needs a state directory" args
      return .init d
  | shim, args => do
      let d ← firstToken "__shim needs a state directory" args
      let text ← firstToken "__shim needs a notify fd" args.tail
      let fd ← orUsage "__shim notify fd must be a number" (parseI32 text)
      return .shim d fd

/-- What the global options set: `MYRUN_LOG` and `MYRUN_ROOT`. -/
structure Environment where
  log : Option String
  root : Option String
  deriving Repr, DecidableEq

/-- One arm of the `match` on a global option. -/
inductive GlobalArm where
  | help
  | version
  | setting (arm : Arm Environment)

/-- The arms of that `match`. -/
def globalArms : List (List String × GlobalArm) :=
  [(["-h", "--help"], .help), (["-V", "--version"], .version),
    (["--log"],
      .setting (.valued fun v => .ok fun env => { env with log := some v })),
    (["--root"],
      .setting (.valued fun v => .ok fun env => { env with root := some v })),
    (["--debug"],
      .setting (.switch fun env => { env with log := some "debug" }))]

/-- The arm of a global option. -/
def globalArm (flag : String) : Option GlobalArm :=
  (globalArms.find? fun row => flag ∈ row.1).map Prod.snd

/-- Where the loop over the global options ends. -/
inductive Start where
  | nothing
  | help (topic : Option String)
  | version
  | subcommand (name : String) (args : List String)
  deriving Repr, DecidableEq

/-- The loop over the global options. -/
def globalLoop :
    List String → Environment → Environment × Result Start
  | [], env => (env, .ok .nothing)
  | a :: rest, env =>
      match globalArm (splitFlag a).1 with
      | some .help => (env, .ok (.help rest.head?))
      | some .version => (env, .ok .version)
      | some (.setting (.switch set)) => globalLoop rest (set env)
      | some (.setting (.valued decode)) =>
          match (splitFlag a).2, rest with
          | some v, rest =>
              match decode v with
              | .ok set => globalLoop rest (set env)
              | .error e => (env, .error e)
          | none, [] =>
              (env, .error (.usage ((splitFlag a).1 ++ " requires a value")))
          | none, v :: rest =>
              match decode v with
              | .ok set => globalLoop rest (set env)
              | .error e => (env, .error e)
      | none =>
          if startsWithChar '-' (splitFlag a).1 then
            (env,
              .error (.usage ("unknown global option " ++
                debugStr (splitFlag a).1 ++ "; run `myrun --help`")))
          else (env, .ok (.subcommand a rest))

/-- What follows the global options. -/
def dispatch [F64Ops] (files : ConfigFiles) : Start → Result Command
  | .nothing => .ok (.help none)
  | .help topic => .ok (.help topic)
  | .version => .ok .version
  | .subcommand name args =>
      match subcommand name with
      | some sub => sub.parse files args
      | none =>
          .error (.usage ("unknown command " ++ debugStr name ++
            "; run `myrun --help` for the list"))

/-- `parse`: the environment it leaves and the command. -/
def parse [F64Ops] (files : ConfigFiles) (argv : List String)
    (env : Environment) : Environment × Result Command :=
  match globalLoop argv env with
  | (env, .ok start) => (env, dispatch files start)
  | (env, .error e) => (env, .error e)

end Cli

end Myrun

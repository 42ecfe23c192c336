import Myrun.Supervisor

namespace Myrun

/-!
# Container init

`src/runtime/init.rs`: what PID 1 of a container does, from reading its
configuration to its exit.  The steps that change the container from inside
(mounts, interfaces, privileges) and the supervision of the workload are
operations of their own.
-/

/-- The operations of init. -/
inductive InitOp where
  | readConfig
  | send (frame : Frame)
  | recv
  | fault (point : String)
  | readNetworkState
  -- `setup`
  | setHostname (hostname : String)
  | setupFilesystem (config : ContainerConfig)
  | configureInside (net : NetworkState)
  | writeResolverFiles (config : ContainerConfig) (net : NetworkState)
  | enterCwd (dir : String)
  | applySecurity (security : SecurityConfig)
  -- the workload
  | blockSignals
  | signalFd
  | resolveExe (command : String) (path : Option String)
  | buildStrings (config : ContainerConfig)
  | forkWorkload
  | supervise (workload : Pid)
  | shutdownRemaining
  | exit (code : Int32)

/-- The answers to these operations. -/
abbrev InitAns : InitOp → Type
  | .readConfig => Result ContainerConfig
  | .send _ => Result Unit
  | .recv => Result (Option Frame)
  | .fault _ => Result Unit
  | .readNetworkState => NetworkState
  | .setHostname _ => Result Unit
  | .setupFilesystem _ => Result Unit
  | .configureInside _ => Result Unit
  | .writeResolverFiles _ _ => Unit
  | .enterCwd _ => Result Unit
  | .applySecurity _ => Result Unit
  | .blockSignals => Result Unit
  | .signalFd => Result Unit
  | .resolveExe _ _ => Result String
  | .buildStrings _ => Result Unit
  | .forkWorkload => Result Pid
  | .supervise _ => ExitStatus
  | .shutdownRemaining => Unit
  | .exit _ => Unit

/-- A program of init that returns a `Result`. -/
abbrev InitAct := Fallible InitOp InitAns Error

namespace Init

/-- One operation. -/
abbrev askInit (op : InitOp) : Prog InitOp InitAns (InitAns op) :=
  Prog.perform op

/-- `TAG_GO`. -/
def goFrame : Frame := .other 71

/-- `Channel::send_tag`, `send_error` and `send_exit`. -/
def send (frame : Frame) : InitAct Unit :=
  .of (askInit (.send frame))

/-- `Channel::expect`, for the go frame. -/
def expectGo : InitAct Unit := do
  match ← Fallible.of (askInit .recv) with
  | none =>
      .ofExcept (.error (.container "container init exited before sending go"))
  | some frame =>
      if frame = goFrame then return ()
      else
        match frame with
        | .error message => .ofExcept (.error (.container message))
        | _ =>
            .ofExcept (.error (.container ("expected go from container init, " ++
              "got " ++ Supervisor.frameName frame)))

/-- `crate::fault::check`. -/
def faultCheck (point : String) : InitAct Unit :=
  .of (askInit (.fault point))

/-- `setup`: everything between the go signal and the fork. -/
def setup (cfg : ContainerConfig) (net : NetworkState) : InitAct Unit := do
  if cfg.namespaces.uts then
    Fallible.of (askInit (.setHostname cfg.hostname))
  Fallible.of (askInit (.setupFilesystem cfg))
  if cfg.namespaces.net then
    (Fallible.of (askInit (.configureInside net)) : InitAct Unit).mapErr
      fun e => .container ("configuring container network: " ++ e.display)
  Fallible.lift (askInit (.writeResolverFiles cfg net))
  Fallible.of (askInit (.enterCwd cfg.cwd))
  Fallible.of (askInit (.applySecurity cfg.security))

/-- `ContainerConfig::env_value`. -/
def envValue (cfg : ContainerConfig) (key : String) : Option String :=
  cfg.env.findSome? fun entry => stripLeading (key ++ "=") entry

/-- `spawn_workload`, in the process that calls it. -/
def spawnWorkload (cfg : ContainerConfig) : InitAct Pid := do
  let _ ← .of (askInit (.resolveExe (cfg.command.headD "") (envValue cfg "PATH")))
  Fallible.of (askInit (.buildStrings cfg))
  .of (askInit .forkWorkload)

/-- `run`. -/
def run : InitAct ExitStatus := do
  let cfg ← .of (askInit .readConfig)
  send .ready
  faultCheck "before_go_signal"
  expectGo
  faultCheck "after_go_signal"
  let net ← .lift (askInit .readNetworkState)
  setup cfg net
  Fallible.of (askInit .blockSignals)
  Fallible.of (askInit .signalFd)
  faultCheck "before_exec"
  let child ← spawnWorkload cfg
  send .started
  let status ← .lift (askInit (.supervise child))
  Fallible.lift (askInit .shutdownRemaining)
  return status

/-- `main`. -/
def main : Prog InitOp InitAns Unit :=
  run.run.bind fun
    | .ok status =>
        (askInit (.send (.exit (some
          (status.code.getD (-1), status.signal.getD 0))))).bind fun _ =>
            askInit (.exit status.exitCode)
    | .error e =>
        (askInit (.send (.error e.display))).bind fun _ =>
          askInit (.exit e.exitCode)

end Init

end Myrun
